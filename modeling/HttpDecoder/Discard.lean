import HttpDecoder.Expiry
import HttpDecoder.Overread

/-!
# What the sweep throws away

`TimeOutCheck` parses every session that has been quiet for more than a minute and holds a
request or a response; `Process` does so only where both are there.  `Parse` resets the
session whether it sends a record or not.

* `Deliverable` — the two messages of a session pass, with the bytes behind them.
* `parse_sent_iff` — a record is sent exactly for such a session.
* `KeepsData` — the sweep loses no data of a session it leaves in the table.
* `keepsData_iff` — **when it does not**: every session it parses and keeps is deliverable.
-/

namespace HttpDecoder

open CLib CHandle

/-! ## Messages that pass over their own memory -/

/-- The byte `i` positions behind the data of a buffer. -/
def CBuffer.behind (b : CBuffer) (i : Nat) : UInt8 :=
  match b.buf with
  | none => 0
  | some blk => blk.byte (b.len + i)

/-- The request in a buffer passes, the version being `v` afterwards: as it is, or cut off
with the missing LF behind it. -/
def RequestPasses (B : Boost) (v₀ : UInt32) (b : CBuffer) (v : UInt32) : Prop :=
  PassingRequest B v₀ b.contents v ∨ CutRequest B b.contents v ∧ b.behind 0 = lf

/-- Behind a status line that lacks its last LF lie that LF and an empty line. -/
def EndsBehind (b : CBuffer) : Prop :=
  b.behind 0 = lf ∧ (b.behind 1 = lf ∨ b.behind 1 = cr ∧ b.behind 2 = lf)

/-- The response in a buffer passes for a request of version `v`: as it is, or cut off with
what is missing behind it. -/
def ResponsePasses (B : Boost) (v : UInt32) (b : CBuffer) : Prop :=
  PassingResponse B v b.contents ∨
    (10 < b.contents.length ∧ b.contents.length < 2 ^ 31 ∧ ∃ num tail,
      StatusStart B v b.contents num tail ∧
        ((∃ reason rest, Reason tail reason rest ∧ HeaderCut rest) ∧ b.behind 0 = lf ∨
          (∃ reason, ReasonCut tail reason) ∧ EndsBehind b))

/-- A session holds a request and a response that pass. -/
def Deliverable (B : Boost) (s : CSession) : Prop :=
  s.reqBuf.contents ≠ [] ∧ s.rspBuf.contents ≠ [] ∧
    ∃ v, RequestPasses B s.result.version s.reqBuf v ∧ ResponsePasses B v s.rspBuf

section Passes

variable {B : Boost} {b : CBuffer} {blk : Block}

theorem CBuffer.holds_contents (hblk : b.buf = some blk) : blk.byte.Holds 0 b.contents := by
  have hcontents : b.contents = blk.byte.read 0 b.len := by simp [contents, hblk]
  rw [hcontents]
  exact Mem.holds_read _ _ _

theorem CBuffer.length_contents (hblk : b.buf = some blk) : b.contents.length = b.len := by
  have hcontents : b.contents = blk.byte.read 0 b.len := by simp [contents, hblk]
  rw [hcontents]
  exact Mem.length_read ..

theorem CBuffer.behind_eq (hblk : b.buf = some blk) (i : Nat) :
    b.behind i = blk.byte (b.len + i) := by
  unfold behind
  rw [hblk]

theorem CBuffer.block_of_contents (h : b.contents ≠ []) : ∃ blk, b.buf = some blk := by
  cases hbuf : b.buf with
  | none => exact absurd (by unfold contents; rw [hbuf]) h
  | some blk => exact ⟨blk, rfl⟩

theorem CBuffer.len_ne_zero_of_contents (h : b.contents ≠ []) : b.len ≠ 0 := by
  intro hlen
  refine h ?_
  unfold contents
  rw [hlen]
  cases b.buf <;> rfl

/-- The first block of `Parse` passes exactly the requests that pass. -/
theorem parseRequest_ok_iff (hblk : b.buf = some blk) (hlen : b.len < 2 ^ 32) (und : UInt32)
    (result : CResult) (v : UInt32) :
    ((parseRequest B und blk.byte b.len result).ok = true ∧
      (parseRequest B und blk.byte b.len result).out.version = v) ↔
      RequestPasses B result.version b v := by
  have hm := CBuffer.holds_contents hblk
  have hlength := CBuffer.length_contents hblk
  have hbehind := CBuffer.behind_eq hblk 0
  rw [Nat.add_zero] at hbehind
  have hlt : b.contents.length < 2 ^ 32 := by omega
  unfold RequestPasses
  rw [← hlength, hbehind, ← hlength]
  constructor
  · rintro ⟨hok, rfl⟩
    rcases request_cases (B := B) hlt und result with
      ⟨v, hpass⟩ | ⟨v, hcut⟩ | hrefused
    · obtain ⟨out, rfl, hq⟩ := hpass.result und
      rw [(hq _ hm).2.1]
      exact Or.inl hpass
    · obtain ⟨out, rfl, hq⟩ := hcut.result und result
      obtain ⟨hdecide, hout, -⟩ := hq _ hm
      rw [hok] at hdecide
      rw [hout]
      exact Or.inr ⟨hcut, of_decide_eq_true hdecide.symm⟩
    · rw [(hrefused _ hm).1] at hok
      exact absurd hok (by simp)
  · rintro (hpass | ⟨hcut, hlf⟩)
    · obtain ⟨out, rfl, hq⟩ := hpass.result und
      obtain ⟨hok, hout, -⟩ := hq _ hm
      exact ⟨hok, by rw [hout]⟩
    · obtain ⟨out, rfl, hq⟩ := hcut.result und result
      obtain ⟨hok, hout, -⟩ := hq _ hm
      exact ⟨by rw [hok, decide_eq_true hlf], by rw [hout]⟩

/-- The second block passes exactly the responses that pass. -/
theorem parseResponse_ok_iff (hblk : b.buf = some blk) (hlen : b.len < 2 ^ 32)
    (result : CResult) : (parseResponse B blk.byte b.len result).ok = true ↔
      ResponsePasses B result.version b := by
  have hm := CBuffer.holds_contents hblk
  have hlength := CBuffer.length_contents hblk
  have hbehind := CBuffer.behind_eq hblk
  have hbehind₀ := hbehind 0
  rw [Nat.add_zero] at hbehind₀
  have hlt : b.contents.length < 2 ^ 32 := by omega
  -- the cursor stands behind the LF that follows the buffer
  have hreasonCut : ∀ {num tail}, 10 < b.contents.length → b.contents.length < 2 ^ 31 →
      StatusStart B result.version b.contents num tail → (∃ reason, ReasonCut tail reason) →
      ((parseResponse B blk.byte b.len result).ok = true ↔ EndsBehind b) := by
    rintro num tail hlong hsmall hstart ⟨reason, hreason⟩
    have hunread : Unread blk.byte b.len 0 b.contents := ⟨hm, by omega, by omega⟩
    unfold EndsBehind
    rw [hbehind₀, hbehind 1, hbehind 2]
    by_cases hlf : blk.byte b.len = lf
    · obtain ⟨note, evals, hparse⟩ := parseResponse_reasonCut_line hunread (by omega) hstart hreason hlf
      rw [hparse]
      simp only [parseHeader_past, decide_eq_true_iff, hlf, true_and]
    · rw [parseResponse_reasonCut_of_ne hunread (by omega) hstart hreason hlf]
      exact iff_of_false (by simp) fun hends => hlf hends.1
  constructor
  · intro hok
    rcases response_cases (B := B) hlt result with
      hpass | ⟨hlong, hsmall, num, tail, hstart, hcut | hcut⟩ | hrefused
    · exact Or.inl hpass
    · refine Or.inr ⟨hlong, hsmall, num, tail, hstart, Or.inl ⟨hcut, ?_⟩⟩
      obtain ⟨reason, rest, hreason, hs, hlines⟩ := hcut
      have hunread : Unread blk.byte b.len 0 b.contents := ⟨hm, by omega, by omega⟩
      rw [(parseResponse_cut hunread (by omega) hstart hreason hlines).1] at hok
      rw [hbehind₀]
      exact of_decide_eq_true hok
    · exact Or.inr ⟨hlong, hsmall, num, tail, hstart,
        Or.inr ⟨hcut, (hreasonCut hlong hsmall hstart hcut).mp hok⟩⟩
    · have hno := (hrefused _ hm).1
      rw [hlength, hok] at hno
      exact absurd hno (by simp)
  · rintro (hpass | ⟨hlong, hsmall, num, tail, hstart, ⟨hcut, hlf⟩ | ⟨hcut, hends⟩⟩)
    · obtain ⟨out, hr⟩ := hpass.result
      have hok := (hr _ hm).1
      rwa [hlength] at hok
    · obtain ⟨reason, rest, hreason, hs, hlines⟩ := hcut
      have hunread : Unread blk.byte b.len 0 b.contents := ⟨hm, by omega, by omega⟩
      rw [(parseResponse_cut hunread (by omega) hstart hreason hlines).1]
      rw [hbehind₀] at hlf
      exact decide_eq_true hlf
    · exact (hreasonCut hlong hsmall hstart hcut).mpr hends

end Passes

/-- A record is sent only where both messages show something. -/
theorem contents_of_sent {B : Boost} {e : ParseEnv} {s : CSession}
    (h : (parse B e s).2 ≠ none) : s.reqBuf.contents ≠ [] ∧ s.rspBuf.contents ≠ [] := by
  obtain ⟨hreq, hrsp⟩ := len_of_sent h
  have hshows : ∀ {b : CBuffer} {blk : Block}, b.buf = some blk → b.len ≠ 0 → b.contents ≠ [] := by
    intro b blk hblk hlen hnil
    rw [← CBuffer.length_contents hblk, hnil] at hlen
    exact hlen rfl
  unfold parse at h
  cases hreqBuf : s.reqBuf.buf with
  | none =>
    rw [hreqBuf] at h
    exact absurd rfl h
  | some reqBlk =>
    cases hrspBuf : s.rspBuf.buf with
    | none =>
      rw [hreqBuf, hrspBuf] at h
      exact absurd rfl h
    | some rspBlk => exact ⟨hshows hreqBuf hreq, hshows hrspBuf hrsp⟩

/-- **A record is sent exactly for a deliverable session.** -/
theorem parse_sent_iff (B : Boost) (e : ParseEnv) {s : CSession} (hreq : s.reqBuf.len < 2 ^ 32)
    (hrsp : s.rspBuf.len < 2 ^ 32) : (parse B e s).2 ≠ none ↔ Deliverable B s := by
  unfold Deliverable
  by_cases hshows : s.reqBuf.contents ≠ [] ∧ s.rspBuf.contents ≠ []
  rotate_left
  · exact iff_of_false (fun hsent => hshows (contents_of_sent hsent))
      fun hboth => hshows ⟨hboth.1, hboth.2.1⟩
  obtain ⟨reqBlk, hreqBuf⟩ : ∃ blk, s.reqBuf.buf = some blk := CBuffer.block_of_contents hshows.1
  obtain ⟨rspBlk, hrspBuf⟩ : ∃ blk, s.rspBuf.buf = some blk := CBuffer.block_of_contents hshows.2
  rw [parse_snd hreqBuf hrspBuf (CBuffer.len_ne_zero_of_contents hshows.1)
    (CBuffer.len_ne_zero_of_contents hshows.2)]
  have hq := parseRequest_ok_iff (B := B) hreqBuf hreq e.method s.result
  generalize parseRequest B e.method reqBlk.byte s.reqBuf.len s.result = q at hq
  have hr := parseResponse_ok_iff (B := B) hrspBuf hrsp q.out
  generalize parseResponse B rspBlk.byte s.rspBuf.len q.out = r at hr
  have hsome : (if (q.ok && r.ok) = true then some (send { s with result := r.out })
      else none) ≠ none ↔ q.ok = true ∧ r.ok = true := by
    rw [← Bool.and_eq_true]
    split
    · rename_i hok
      exact iff_of_true (by simp) hok
    · rename_i hok
      exact iff_of_false (by simp) hok
  rw [hsome, hr]
  constructor
  · rintro ⟨hok, hpasses⟩
    exact ⟨hshows.1, hshows.2, q.out.version, (hq _).mp ⟨hok, rfl⟩, hpasses⟩
  · rintro ⟨-, -, v, hreqPasses, hpasses⟩
    obtain ⟨hok, hversion⟩ := (hq v).mpr hreqPasses
    rw [hversion]
    exact ⟨hok, hpasses⟩

/-- What is sent shows both messages. -/
theorem contexts_of_sent {B : Boost} {e : ParseEnv} {s : CSession} {r : Record}
    (h : (parse B e s).2 = some r) :
    r.requestContext = s.reqBuf.contents ∧ r.responseContext = s.rspBuf.contents := by
  unfold parse at h
  split at h
  · simp only at h
    split_ifs at h
    rw [← Option.some.inj h]
    exact ⟨rfl, rfl⟩
  · exact absurd h (by simp)

/-! ## The sweep -/

/-- A session shows a request or a response. -/
def ShowsData (s : CSession) : Prop := s.reqBuf.contents ≠ [] ∨ s.rspBuf.contents ≠ []

/-- The session of the table before and after shows the same. -/
def Unchanged (s s' : CSession) : Prop :=
  s'.reqBuf.contents = s.reqBuf.contents ∧ s'.rspBuf.contents = s.rspBuf.contents

/-- The sweep loses no data of a session that it leaves in the table: the session shows
what it showed before, or a record with both messages was sent. -/
def KeepsData (B : Boost) (h : CHandle) (e : Env) : Prop :=
  ∀ i, ∀ a ∈ (h.timeOutCheck B e).1.sesHash.cseshash i,
    Unchanged (h.sesHash.ses a) ((h.timeOutCheck B e).1.sesHash.ses a) ∨
      ∃ k ∈ (h.timeOutCheck B e).2, k.addr = a ∧ ∃ r ∈ k.sent,
        r.requestContext = (h.sesHash.ses a).reqBuf.contents ∧
          r.responseContext = (h.sesHash.ses a).rspBuf.contents

section Keeps

variable {B : Boost} {h : CHandle} {e : Env}

/-- A session that is parsed and kept shows nothing afterwards: its data are not lost only
if a record was sent. -/
theorem deliverable_of_keepsData (hw : h.sesHash.WF) (hkeeps : KeepsData B h e) {i : UInt16}
    {a : Nat} (ha : a ∈ h.sesHash.cseshash i) (hi : i.toNat < sweepReach h.lastTimeOutCheck e)
    (hidle : 60 < e.timeCheck - (h.sesHash.ses a).refreshTime)
    (hlive : e.timeCheck - (h.sesHash.ses a).refreshTime < timeout)
    (hshows : ShowsData (h.sesHash.ses a)) (hreq : (h.sesHash.ses a).reqBuf.len < 2 ^ 32)
    (hrsp : (h.sesHash.ses a).rspBuf.len < 2 ^ 32) : Deliverable B (h.sesHash.ses a) := by
  have hsw := timeOutCheck_swept (B := B) (e := e) hw
  have hparses : sweepParses e.timeCheck (h.sesHash.ses a) = true := by
    have hlen : 0 < (h.sesHash.ses a).reqBuf.len ∨ 0 < (h.sesHash.ses a).rspBuf.len := by
      refine hshows.imp (fun hne => ?_) fun hne => ?_
      · exact Nat.pos_of_ne_zero (CBuffer.len_ne_zero_of_contents hne)
      · exact Nat.pos_of_ne_zero (CBuffer.len_ne_zero_of_contents hne)
    simp only [sweepParses, Bool.and_eq_true, Bool.or_eq_true, decide_eq_true_eq]
    exact ⟨hlen, hidle⟩
  have hkept : a ∈ (h.timeOutCheck B e).1.sesHash.cseshash i := by
    rw [hsw.bucket_in i (Nat.zero_le _) (by omega)]
    refine List.mem_filter.mpr ⟨ha, ?_⟩
    rw [sweepExpires, ← decide_not, decide_eq_true_eq]
    omega
  rcases hkeeps i a hkept with hsame | ⟨k, hk, hka, r, hr, -⟩
  · -- parsing emptied it
    have hafter := hsw.ses_in i (Nat.zero_le _) (by omega) a ha
    unfold Unchanged at hsame
    rw [hafter, sweptSes, if_pos hparses] at hsame
    obtain ⟨hnoReq, hnoRsp⟩ := parse_contents B (e.sweep (h.sesHash.ses a).server
      (h.sesHash.ses a).client) (h.sesHash.ses a)
    rcases hshows with hne | hne
    · exact absurd (hsame.1.symm.trans hnoReq) hne
    · exact absurd (hsame.2.symm.trans hnoRsp) hne
  · obtain ⟨j, hj, b, hb, -, rfl⟩ := (hsw.mem_calls (sweepReach_le ..) k).mp hk
    simp only at hka hr
    rw [hka] at hr
    refine (parse_sent_iff B (e.sweep (h.sesHash.ses a).server (h.sesHash.ses a).client)
      hreq hrsp).mp fun hnone => ?_
    rw [hnone] at hr
    exact absurd hr (by simp)

/-- **When the sweep loses no data.**  For every table and every clock: exactly if every
session below bucket 65535 that a due sweep finds quiet for more than 60 seconds, not
expired and showing a request or a response holds two messages that pass. -/
theorem keepsData_iff (B : Boost) {h : CHandle} {e : Env} (hw : h.sesHash.WF)
    (hlen : ∀ i, ∀ a ∈ h.sesHash.cseshash i, (h.sesHash.ses a).reqBuf.len < 2 ^ 32 ∧
      (h.sesHash.ses a).rspBuf.len < 2 ^ 32) :
    KeepsData B h e ↔ ∀ i : UInt16, i.toNat < sweepReach h.lastTimeOutCheck e →
      ∀ a ∈ h.sesHash.cseshash i, 60 < e.timeCheck - (h.sesHash.ses a).refreshTime →
        e.timeCheck - (h.sesHash.ses a).refreshTime < timeout → ShowsData (h.sesHash.ses a) →
          Deliverable B (h.sesHash.ses a) := by
  constructor
  · intro hkeeps i hi a ha hidle hlive hshows
    exact deliverable_of_keepsData hw hkeeps ha hi hidle hlive hshows (hlen i a ha).1 (hlen i a ha).2
  · intro hall i a hkept
    have hsw := timeOutCheck_swept (B := B) (e := e) hw
    have ha := (hsw.sublist i).subset hkept
    by_cases hi : i.toNat < sweepReach h.lastTimeOutCheck e
    rotate_left
    · left
      have hout := hsw.ses_out a fun j _ hj haj => hi (by
        rw [← hw.placed i a ha, hw.placed j a haj]
        omega)
      unfold Unchanged
      rw [hout]
      exact ⟨rfl, rfl⟩
    have hafter := hsw.ses_in i (Nat.zero_le _) (by omega) a ha
    by_cases hparses : sweepParses e.timeCheck (h.sesHash.ses a)
    rotate_left
    · left
      unfold Unchanged
      rw [hafter, sweptSes, if_neg hparses]
      exact ⟨rfl, rfl⟩
    have hidle : 60 < e.timeCheck - (h.sesHash.ses a).refreshTime := by
      simp only [sweepParses, Bool.and_eq_true, decide_eq_true_eq] at hparses
      exact hparses.2
    have hlive : e.timeCheck - (h.sesHash.ses a).refreshTime < timeout := by
      rw [hsw.bucket_in i (Nat.zero_le _) (by omega)] at hkept
      have hnot := (List.mem_filter.mp hkept).2
      rw [sweepExpires, ← decide_not, decide_eq_true_eq] at hnot
      omega
    by_cases hshows : ShowsData (h.sesHash.ses a)
    rotate_left
    · left
      unfold ShowsData at hshows
      rw [not_or, not_not, not_not] at hshows
      unfold Unchanged
      rw [hafter, sweptSes, if_pos hparses, hshows.1, hshows.2]
      exact parse_contents ..
    right
    obtain ⟨hreq, hrsp⟩ := hlen i a ha
    have hsent := (parse_sent_iff B (e.sweep (h.sesHash.ses a).server (h.sesHash.ses a).client)
      hreq hrsp).mpr (hall i hi a ha hidle hlive hshows)
    obtain ⟨r, hr⟩ := Option.ne_none_iff_exists'.mp hsent
    refine ⟨⟨a, h.sesHash.ses a, some r⟩, (hsw.mem_calls (sweepReach_le ..) _).mpr
      ⟨i, hi, a, ha, hparses, ?_⟩, rfl, r, rfl, contexts_of_sent hr⟩
    rw [hr]

end Keeps

/-! ## A slow response -/

/-- After one request segment. -/
def waiting : CHandle :=
  ((CHandle.init blankSes 0).process Boost.decimal
    (sends ⟨1, 1000⟩ ⟨2, 80⟩ 1 [71] false)).handle

theorem reachable_waiting : Reachable Boost.decimal waiting :=
  ⟨blankSes, 0, [sends ⟨1, 1000⟩ ⟨2, 80⟩ 1 [71] false], rfl⟩

/-- Its one session. -/
theorem waiting_session : waiting.sesHash.next = 1 ∧
    (waiting.sesHash.ses 0).reqBuf.len = 1 ∧ (waiting.sesHash.ses 0).rspBuf.len = 0 ∧
    (waiting.sesHash.ses 0).refreshTime = 0 ∧ waiting.lastTimeOutCheck = 0 ∧
    waiting.sesHash.cseshash (hashConn (waiting.sesHash.ses 0).conn) = [0] ∧
    (hashConn (waiting.sesHash.ses 0).conn).toNat < 65535 ∧
    (waiting.sesHash.ses 0).reqBuf.contents = [71] ∧ (waiting.sesHash.ses 0).rspBuf.contents = [] := by
  decide +kernel

/-- The theorem two minutes later. -/
theorem keepsData_iff_waiting : KeepsData Boost.decimal waiting (Env.at 121) ↔
    ∀ i : UInt16, i.toNat < sweepReach waiting.lastTimeOutCheck (Env.at 121) →
      ∀ a ∈ waiting.sesHash.cseshash i,
        60 < (Env.at 121).timeCheck - (waiting.sesHash.ses a).refreshTime →
        (Env.at 121).timeCheck - (waiting.sesHash.ses a).refreshTime < timeout →
        ShowsData (waiting.sesHash.ses a) → Deliverable Boost.decimal (waiting.sesHash.ses a) := by
  refine keepsData_iff Boost.decimal reachable_waiting.wf fun i a ha => ?_
  have hlt := reachable_waiting.wf.lt_next i a ha
  obtain ⟨hnext, hreq, hrsp, -⟩ := waiting_session
  rw [hnext, Nat.lt_one_iff] at hlt
  rw [hlt, hreq, hrsp]
  norm_num

/-- The sweep then discards the request that waits for its response. -/
theorem not_keepsData_waiting : ¬ KeepsData Boost.decimal waiting (Env.at 121) := by
  obtain ⟨-, hreq, hrsp, hrefresh, hlast, hbucket, hlow, hshown, hnone⟩ := waiting_session
  intro hkeeps
  have hreach : sweepReach waiting.lastTimeOutCheck (Env.at 121) = 65535 := by
    rw [hlast]
    rfl
  have hdeliverable := deliverable_of_keepsData reachable_waiting.wf hkeeps
    (hbucket ▸ List.mem_singleton_self 0) (by rw [hreach]; exact hlow)
    (by rw [hrefresh]; decide) (by rw [hrefresh]; decide) (Or.inl (by rw [hshown]; simp))
    (by rw [hreq]; norm_num) (by rw [hrsp]; norm_num)
  exact hdeliverable.2.1 hnone

end HttpDecoder
