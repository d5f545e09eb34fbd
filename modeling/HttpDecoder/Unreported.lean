import HttpDecoder.Capture

/-!
# What is left when the read loop has ended

The comment in `Receiver::Work` speaks of pushing the last packets to be parsed when no more
arrive; nothing does.  Which exchanges stay in the table can be read off the packets: off
the directions in which they were filed since the session was opened or swept.

* `fill`, `Hanging`, `fill_eq_both` — when a row of packets leaves both buffers filled.
* `Ledger.Filled` — a session is filled as its packets say.
* `allReported_iff` — **when no exchange is left at the end of a capture**.
-/

namespace HttpDecoder

open CLib CHandle

/-! ## Rows of packets -/

/-- Which buffers are filled, the request first, after one more packet. -/
def fillStep (s : Bool × Bool) (p : CFormatPacket) : Bool × Bool :=
  if p.toServer then (if s.1 && s.2 then (true, false) else (true, s.2)) else (s.1, true)

/-- Which buffers a row of packets fills. -/
def fill (ps : List CFormatPacket) : Bool × Bool := ps.foldl fillStep (false, false)

/-- The row ends with a packet to the client and has one to the server before it; or it is
packets to the client followed by a single one to the server. -/
def Hanging (ps : List CFormatPacket) : Prop :=
  ∃ qs p, ps = qs ++ [p] ∧
    if p.toServer then qs ≠ [] ∧ ∀ q ∈ qs, q.toServer = false else ∃ q ∈ qs, q.toServer = true

theorem fill_concat (ps : List CFormatPacket) (p : CFormatPacket) :
    fill (ps ++ [p]) = fillStep (fill ps) p := by
  rw [fill, List.foldl_append]
  rfl

/-- The request is filled by the first packet to the server. -/
theorem fill_fst (ps : List CFormatPacket) : (fill ps).1 = true ↔ ∃ q ∈ ps, q.toServer = true := by
  induction ps using List.reverseRecOn with
  | nil => simp [fill]
  | append_singleton ps p ih =>
    rw [fill_concat]
    unfold fillStep
    cases hp : p.toServer with
    | true =>
      refine iff_of_true ?_ ⟨p, by simp, hp⟩
      rw [if_pos rfl]
      split <;> rfl
    | false =>
      rw [if_neg (by simp), ih]
      constructor
      · rintro ⟨q, hq, hto⟩
        exact ⟨q, List.mem_append_left _ hq, hto⟩
      · rintro ⟨q, hq, hto⟩
        rcases List.mem_append.mp hq with hq | hq
        · exact ⟨q, hq, hto⟩
        · rw [List.mem_singleton.mp hq, hp] at hto
          exact absurd hto (by simp)

/-- While nothing goes to the server, any packet fills the response. -/
theorem fill_snd {ps : List CFormatPacket} (h : ∀ q ∈ ps, q.toServer = false) :
    (fill ps).2 = true ↔ ps ≠ [] := by
  induction ps using List.reverseRecOn with
  | nil => simp [fill]
  | append_singleton ps p _ =>
    rw [fill_concat]
    unfold fillStep
    rw [if_neg (by simp [h p (by simp)])]
    simp

/-- **When a row of packets leaves both buffers filled.** -/
theorem fill_eq_both (ps : List CFormatPacket) : fill ps = (true, true) ↔ Hanging ps := by
  rcases List.eq_nil_or_concat ps with rfl | ⟨qs, p, rfl⟩
  · refine iff_of_false (by simp [fill]) ?_
    rintro ⟨qs, p, h, -⟩
    exact absurd h (by simp)
  rw [List.concat_eq_append]
  have hlast : Hanging (qs ++ [p]) ↔ if p.toServer then qs ≠ [] ∧ ∀ q ∈ qs, q.toServer = false
      else ∃ q ∈ qs, q.toServer = true := by
    constructor
    · rintro ⟨qs', p', h, hp⟩
      obtain ⟨rfl, hpp⟩ := List.append_inj' h rfl
      obtain rfl : p = p' := by simpa using hpp
      exact hp
    · exact fun h => ⟨qs, p, rfl, h⟩
  rw [hlast, fill_concat, fillStep]
  cases hp : p.toServer with
  | false =>
    rw [if_neg (by simp), if_neg (by simp), ← fill_fst]
    simp
  | true =>
    rw [if_pos rfl, if_pos rfl]
    by_cases hnone : ∀ q ∈ qs, q.toServer = false
    · have hfst : (fill qs).1 = false := by
        rw [← Bool.not_eq_true, fill_fst]
        rintro ⟨q, hq, hto⟩
        rw [hnone q hq] at hto
        exact absurd hto (by simp)
      rw [hfst, Bool.false_and, if_neg (by simp), Prod.mk.injEq]
      exact ⟨fun h => ⟨(fill_snd hnone).mp h.2, hnone⟩, fun h => ⟨rfl, (fill_snd hnone).mpr h.1⟩⟩
    · have hfst : (fill qs).1 = true := (fill_fst qs).mpr (by simpa using hnone)
      refine iff_of_false ?_ fun h => hnone h.2
      rw [hfst]
      cases (fill qs).2 <;> simp

/-! ## Sessions -/

namespace Ledger

/-- The session is filled as its packets since it was opened or swept say. -/
structure Filled (l : Ledger) : Prop where
  /-- Every packet filed since the last call of `Parse` has payload. -/
  data : ∀ p ∈ l.since, p.payload ≠ []
  /-- The directions of these packets. -/
  fill : HttpDecoder.fill l.unswept =
    (l.since.any CFormatPacket.toServer, l.since.any fun p => !p.toServer)

variable {B : Boost} {l : Ledger}

/-- The packets that go one way have bytes if there is one. -/
theorem flatMap_payload_ne_nil (d : CFormatPacket → Bool) {ps : List CFormatPacket}
    (h : ∀ p ∈ ps, p.payload ≠ []) :
    (ps.filter d).flatMap CFormatPacket.payload ≠ [] ↔ ps.any d = true := by
  rw [ne_eq, List.flatMap_eq_nil_iff, List.any_eq_true]
  constructor
  · intro hne
    by_contra hnone
    refine hne fun p hp => ?_
    obtain ⟨hps, hd⟩ := List.mem_filter.mp hp
    exact absurd ⟨p, hps, hd⟩ hnone
  · rintro ⟨p, hp, hd⟩ hnil
    exact h p hp (hnil p (List.mem_filter.mpr ⟨hp, hd⟩))

theorem requestOf_ne_nil {ps : List CFormatPacket} (h : ∀ p ∈ ps, p.payload ≠ []) :
    requestOf ps ≠ [] ↔ ps.any CFormatPacket.toServer = true :=
  flatMap_payload_ne_nil CFormatPacket.toServer h

theorem responseOf_ne_nil {ps : List CFormatPacket} (h : ∀ p ∈ ps, p.payload ≠ []) :
    responseOf ps ≠ [] ↔ (ps.any fun p => !p.toServer) = true :=
  flatMap_payload_ne_nil (fun p => !p.toServer) h

/-- Both buffers show something exactly if the row of packets is hanging. -/
theorem Filled.both_iff (h : l.Filled) (hb : l.Balanced) :
    (l.ses.reqBuf.contents ≠ [] ∧ l.ses.rspBuf.contents ≠ []) ↔ Hanging l.unswept := by
  rw [hb.since.req, hb.since.rsp, requestOf_ne_nil h.data, responseOf_ne_nil h.data,
    ← fill_eq_both, h.fill, Prod.mk.injEq]

theorem parseFull_isEmpty (B : Boost) (e : ParseEnv) {s : CSession} (hs : s.WF) :
    (parseFull B e s).2.isEmpty = true ↔
      ¬ (s.reqBuf.contents ≠ [] ∧ s.rspBuf.contents ≠ []) := by
  rw [← hs.reqLen_pos_iff, ← hs.rspLen_pos_iff]
  unfold parseFull
  by_cases hfull : s.reqBuf.len > 0 ∧ s.rspBuf.len > 0
  · rw [if_pos hfull]
    exact iff_of_false (by simp) (not_not.mpr hfull)
  · rw [if_neg hfull]
    exact iff_of_true rfl hfull

/-- Before a packet is filed `Parse` is called if it goes to the server and both buffers are
filled. -/
theorem processData_calls_iff (B : Boost) {x : Arrival} {s : CSession} (hs : s.WF) :
    (processData B x.env x.packet (behavior x.packet).matchWay s).calls.isEmpty = true ↔
      ¬ (x.packet.toServer = true ∧ s.reqBuf.contents ≠ [] ∧ s.rspBuf.contents ≠ []) := by
  cases hto : x.packet.toServer with
  | false =>
    rw [processData_toClient B hto]
    simp
  | true =>
    rw [processData_toServer B hto]
    have hfull := parseFull_isEmpty B x.env.parse (hs.setSeq x.packet.seqNo x.packet.ackSeqNo)
    rw [s.setSeq_reqBuf, s.setSeq_rspBuf] at hfull
    simpa using hfull

/-- Filing a packet that `Append` takes fills the session as it says. -/
theorem Filled.file {x : Arrival} (h : l.Filled) (hb : l.Balanced) (he : x.env.append.isSome)
    (hkeep : ¬ (bufferAt x l.ses).Frees x.packet.dataSize) (hdata : x.packet.payload ≠ []) :
    (l.file B x.call (behavior x.packet)).Filled := by
  have hdone := processData_done B he l.ses hkeep
  have hcalls := processData_calls_iff B (x := x) hb.wf
  rw [hb.since.req, hb.since.rsp, requestOf_ne_nil h.data, responseOf_ne_nil h.data] at hcalls
  have hsince : (l.file B x.call (behavior x.packet)).since = (if (processData B x.env x.packet
      (behavior x.packet).matchWay l.ses).calls.isEmpty then l.since else []) ++ [x.packet] := by
    show joined (processData B x.env x.packet (behavior x.packet).matchWay l.ses) l.since
      x.packet = _
    rw [joined, if_pos hdone]
  have hunswept : (l.file B x.call (behavior x.packet)).unswept = l.unswept ++ [x.packet] := by
    show l.unswept ++ (if (processData B x.env x.packet (behavior x.packet).matchWay l.ses).done
      then [x.packet] else []) = _
    rw [if_pos hdone]
  constructor
  · intro p hp
    rw [hsince] at hp
    rcases List.mem_append.mp hp with hp | hp
    · split at hp
      · exact h.data p hp
      · exact absurd hp List.not_mem_nil
    · rw [List.mem_singleton.mp hp]
      exact hdata
  · rw [hsince, hunswept, fill_concat, h.fill]
    unfold fillStep
    cases hto : x.packet.toServer with
    | false =>
      rw [if_pos (hcalls.mpr (by simp [hto]))]
      simp [hto]
    | true =>
      by_cases hboth : l.since.any CFormatPacket.toServer = true ∧
          (l.since.any fun p => !p.toServer) = true
      · rw [if_neg (hcalls.not.mpr (not_not.mpr ⟨hto, hboth⟩))]
        simp [hto, hboth]
      · rw [if_pos (hcalls.mpr fun h => hboth h.2)]
        simp only [if_pos]
        rw [if_neg (by simpa using hboth)]
        simp [hto]

/-- A call that is granted its memory keeps sessions filled as they say. -/
theorem Filled.keeps (B : Boost) {x : Arrival} (he : x.env.Granted) :
    Keeps B x (fun l => Countable B x l ∧ x.packet.payload ≠ [])
      fun l => l.Balanced ∧ l.Filled where
  sweep l a b h := ⟨(Balanced.keeps B he.toResets).sweep l a b h.1, fun p hp =>
    absurd hp List.not_mem_nil, rfl⟩
  close l h := ⟨(Balanced.keeps B he.toResets).close l h.1, fun p hp =>
    absurd hp List.not_mem_nil, rfl⟩
  opened o h := by
    refine ⟨(Balanced.keeps B he.toResets).opened o fun l hl => (h l hl).1, ?_⟩
    cases o with
    | none => exact ⟨fun p hp => absurd hp List.not_mem_nil, rfl⟩
    | some l => exact ⟨(h l rfl).2.data, (h l rfl).2.fill⟩
  file l h hf := ⟨(Balanced.keeps B he.toResets).file l h.1 hf.1,
    h.2.file h.1 he.append hf.1.kept hf.2⟩

end Ledger

/-! ## At the end of a capture -/

/-- A frame with data has payload: its length is a 16-bit one. -/
theorem format_payload_ne {msg : Mem} {now : TimeVal}
    (h : (CFormatPacket.format msg now).dataLen ≠ 0) :
    (CFormatPacket.format msg now).payload ≠ [] := by
  obtain ⟨n, hn⟩ : ∃ n, (CFormatPacket.format msg now).dataLen = toInt16 n := ⟨_, rfl⟩
  have hrange : -2 ^ 15 ≤ toInt16 n ∧ toInt16 n < 2 ^ 15 := by
    unfold toInt16
    omega
  rw [← hn] at hrange
  exact payload_ne_of_int16 hrange.1 hrange.2 h

/-- No session in the table holds both a request and a response. -/
def AllReported (h : CHandle) : Prop :=
  ∀ i, ∀ a ∈ h.sesHash.cseshash i, ¬ ((h.sesHash.ses a).reqBuf.contents ≠ [] ∧
    (h.sesHash.ses a).rspBuf.contents ≠ [])

/-- **When no exchange is left at the end of a capture.**  For every file, whatever the array
held before, with sweeps at any times, while every request for memory is granted and the
bytes buffered can be counted: exactly if for no connection the packets filed since its
session was opened or swept are hanging. -/
theorem allReported_iff (B : Boost) (ses : Nat → CSession) (now : Int)
    {supply : Nat → TimeVal × Env} (hgrant : ∀ i, (supply i).2.Granted) (tmp1 : Mem)
    (file : Bytes)
    (hcount : ∀ c, Book.FilesAlong B now c (Ledger.Countable B) Book.empty
      (arrivals supply (workCalls tmp1 file))) :
    AllReported (runCapture B ses now supply tmp1 file) ↔
      ∀ c, ∀ l ∈ (booksOf B now c (arrivals supply (workCalls tmp1 file))).current,
        ¬ Hanging l.unswept := by
  have harrival : ∀ x ∈ arrivals supply (workCalls tmp1 file),
      x.env.Granted ∧ (x.packet.dataLen ≠ 0 → x.packet.payload ≠ []) := by
    intro x hx
    obtain ⟨i, hi, rfl⟩ := List.mem_mapIdx.mp hx
    exact ⟨hgrant i, format_payload_ne⟩
  have hfilled : ∀ c, ∀ l ∈ (booksOf B now c (arrivals supply (workCalls tmp1 file))).current,
      l.Balanced ∧ l.Filled := by
    intro c l hl
    refine Book.keeps_run (fun x hx => Ledger.Filled.keeps B (harrival x hx).1)
      (fun l hl => absurd hl (by simp [Book.ledgers, Book.empty]))
      (Book.filesAlong_and _ (hcount c) (Book.filesAlong_of_accepts (fun x hx l hacc => ?_) _)) l
      (List.mem_append_right _ (Option.mem_toList.mpr hl))
    simp only [Traced.accepts, Bool.and_eq_true, decide_eq_true_eq] at hacc
    exact (harrival x hx).2 hacc.2
  have hw : (runCapture B ses now supply tmp1 file).sesHash.WF :=
    Reachable.wf (B := B) ⟨ses, now, _, rfl⟩
  have hsession : ∀ c, (booksOf B now c (arrivals supply (workCalls tmp1 file))).current.map
      Ledger.ses = (runCapture B ses now supply tmp1 file).sesHash.session c :=
    fun c => (booksOf_run B ses now c _).1
  constructor
  · intro hall c l hl
    have hses := hsession c
    rw [Option.mem_def.mp hl, Option.map_some] at hses
    obtain ⟨a, ha, hla⟩ := Option.map_eq_some_iff.mp hses.symm
    rw [← (hfilled c l hl).2.both_iff (hfilled c l hl).1, ← hla]
    exact hall _ a (CSessionHashTable.mem_of_lookup ha).1
  · intro hnone i a ha
    have hlookup := hw.lookup_iff.mpr ⟨⟨i, ha⟩, rfl⟩
    have hses := hsession ((runCapture B ses now supply tmp1 file).sesHash.key a)
    rw [CSessionHashTable.session_of_lookup hlookup] at hses
    obtain ⟨l, hl, hla⟩ := Option.map_eq_some_iff.mp hses
    rw [← hla, (hfilled _ l hl).2.both_iff (hfilled _ l hl).1]
    exact hnone _ l hl

/-- The frame of a one-byte request. -/
def requestFrame : Bytes :=
  List.replicate 12 0 ++ [0x08, 0x00] ++
    [0x45, 0, 0, 41, 0, 0, 0, 0, 64, 6, 0, 0, 0, 0, 0, 1, 0, 0, 0, 2] ++
    [3, 232, 0, 80, 0, 0, 0, 6, 0, 0, 0, 0, 0x50, 0x18, 0, 0, 0, 0, 0, 0] ++ [71]

/-- The frame of a one-byte response. -/
def responseFrame : Bytes :=
  List.replicate 12 0 ++ [0x08, 0x00] ++
    [0x45, 0, 0, 41, 0, 0, 0, 0, 64, 6, 0, 0, 0, 0, 0, 2, 0, 0, 0, 1] ++
    [0, 80, 3, 232, 0, 0, 0, 9, 0, 0, 0, 0, 0x50, 0x18, 0, 0, 0, 0, 0, 0] ++ [72]

/-- The clock stands still and all memory is granted. -/
def still : Nat → TimeVal × Env := fun _ => (⟨1, 0⟩, Env.granting 0)

/-- A capture of one exchange. -/
theorem allReported_iff_exchange :
    AllReported (runCapture Boost.decimal blankSes 0 still (fun _ => 0)
        (requestFrame ++ responseFrame)) ↔
      ∀ c, ∀ l ∈ (booksOf Boost.decimal 0 c (arrivals still
        (workCalls (fun _ => 0) (requestFrame ++ responseFrame)))).current,
        ¬ Hanging l.unswept := by
  have hcount : payloadBytes ((arrivals still (workCalls (fun _ => 0)
      (requestFrame ++ responseFrame))).map Arrival.call) < 2 ^ 32 := by
    decide +kernel
  exact allReported_iff Boost.decimal blankSes 0 (fun _ => Env.granted_granting 0) _ _
    fun c => countable_of_payload Boost.decimal 0 c Book.typed_empty
      (by simpa [Book.held, Book.empty] using hcount)

/-- Its connection stays open. -/
theorem not_allReported_exchange : ¬ AllReported
    (runCapture Boost.decimal blankSes 0 still (fun _ => 0) (requestFrame ++ responseFrame)) := by
  intro hall
  have hshown : ((runCapture Boost.decimal blankSes 0 still (fun _ => 0)
      (requestFrame ++ responseFrame)).sesHash.session s(⟨1, 1000⟩, ⟨2, 80⟩)).map
        (fun s => (s.reqBuf.contents, s.rspBuf.contents)) = some ([71], [72]) := by
    decide +kernel
  obtain ⟨s, hs, hboth⟩ := Option.map_eq_some_iff.mp hshown
  obtain ⟨a, ha, rfl⟩ := Option.map_eq_some_iff.mp hs
  obtain ⟨hreq, hrsp⟩ := Prod.mk.inj hboth
  exact hall _ a (CSessionHashTable.mem_of_lookup ha).1 ⟨by rw [hreq]; simp, by rw [hrsp]; simp⟩

end HttpDecoder
