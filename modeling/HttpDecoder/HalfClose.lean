import HttpDecoder.RequestHead
import HttpDecoder.Unreported

/-!
# Half-closed connections

The FIN of one side makes `Process` parse the session and remove it; the other side may go
on sending.  What `Parse` gets of an exchange is settled by what the session held when it
was called, so the packets waiting in a session are followed through a run.

* `streamOf` — what the two sides send: their data segments, each once, however often one is
  sent again.
* `Book.waiting`, `Book.Becomes` — the packets filed and not handed to `Parse` yet.
* `Book.step_becomes` — what one call does with them.
* `Book.Gathers` — the call keeps all of them, and files the segment it brings.
* `halfClosed_iff` — **when a half-closed connection is decoded**: nothing new comes after the
  FIN, and everything was gathered before it.
-/

namespace HttpDecoder

open CLib CHandle

/-! ## Data segments -/

/-- A segment of connection `c` with data that closes nothing. -/
def Arrival.isData (c : Conn) (x : Arrival) : Bool :=
  decide (x.packet.conn = c) && !x.packet.closes && decide (x.packet.dataLen ≠ 0)

/-- The data segments of connection `c`. -/
def dataOf (c : Conn) (xs : List Arrival) : List CFormatPacket :=
  (xs.filter (Arrival.isData c)).map Arrival.packet

section Data

variable {c : Conn} {x : Arrival}

@[simp] theorem dataOf_nil (c : Conn) : dataOf c [] = [] := rfl

theorem dataOf_append (c : Conn) (xs ys : List Arrival) :
    dataOf c (xs ++ ys) = dataOf c xs ++ dataOf c ys := by
  unfold dataOf
  rw [List.filter_append, List.map_append]

theorem dataOf_cons (c : Conn) (x : Arrival) (xs : List Arrival) :
    dataOf c (x :: xs) = dataOf c [x] ++ dataOf c xs := dataOf_append c [x] xs

theorem dataOf_pos (h : x.isData c = true) : dataOf c [x] = [x.packet] := by
  unfold dataOf
  rw [List.filter_cons_of_pos h]
  rfl

theorem dataOf_neg (h : x.isData c = false) : dataOf c [x] = [] := by
  unfold dataOf
  rw [List.filter_cons_of_neg (by simp [h])]
  rfl

theorem mem_dataOf {xs : List Arrival} {p : CFormatPacket} :
    p ∈ dataOf c xs ↔ ∃ x ∈ xs, x.isData c = true ∧ x.packet = p := by
  simp [dataOf, and_assoc]

/-- A packet that passes the tests is a data segment. -/
theorem isData_of_accepts (hc : x.packet.conn = c) {s : CSession}
    (h : Traced.accepts x.packet s = true) : x.isData c = true := by
  simp only [Traced.accepts, Bool.and_eq_true] at h
  simp only [Arrival.isData, Bool.and_eq_true, decide_eq_true_eq]
  exact ⟨⟨hc, h.1.1⟩, by simpa using h.2⟩

/-- So a data segment passes them unless it repeats the number filed last. -/
theorem accepts_of_isData (h : x.isData c = true) (s : CSession) :
    x.packet.conn = c ∧ Traced.accepts x.packet s = !repeated x.packet s := by
  simp only [Arrival.isData, Bool.and_eq_true, decide_eq_true_eq] at h
  refine ⟨h.1.1, ?_⟩
  simp [Traced.accepts, h.1.2, h.2]

theorem isData_of_closes (h : x.packet.closes = true) : x.isData c = false := by
  simp [Arrival.isData, h]

end Data

/-! ## Segments that are sent again -/

/-- One segment of a stream: it goes the same way, under the same number and with the same
bytes. -/
def SameSegment (p q : CFormatPacket) : Prop :=
  p.src = q.src ∧ p.dst = q.dst ∧ p.seqNo = q.seqNo ∧ p.payload = q.payload

instance (p q : CFormatPacket) : Decidable (SameSegment p q) := by
  unfold SameSegment
  infer_instance

theorem SameSegment.refl (p : CFormatPacket) : SameSegment p p := ⟨rfl, rfl, rfl, rfl⟩

theorem SameSegment.trans {p q r : CFormatPacket} (h : SameSegment p q) (h' : SameSegment q r) :
    SameSegment p r :=
  ⟨h.1.trans h'.1, h.2.1.trans h'.2.1, h.2.2.1.trans h'.2.2.1, h.2.2.2.trans h'.2.2.2⟩

/-- It goes to the server if the other does. -/
theorem SameSegment.toServer {p q : CFormatPacket} (h : SameSegment p q) :
    p.toServer = q.toServer := by
  unfold CFormatPacket.toServer
  rw [h.2.1]

/-- After the data segments of `seen`, the packet is one of them sent again. -/
def resent (seen : List CFormatPacket) (p : CFormatPacket) : Bool :=
  seen.any fun q => decide (SameSegment q p)

/-- A data segment of connection `c` that was not sent before. -/
def Arrival.isFresh (c : Conn) (seen : List CFormatPacket) (x : Arrival) : Bool :=
  x.isData c && !resent seen x.packet

/-- What the sides of connection `c` send after the data segments of `seen`: each segment once,
where it comes for the first time. -/
def streamOf (c : Conn) (seen : List CFormatPacket) : List Arrival → List CFormatPacket
  | [] => []
  | x :: xs =>
    (if x.isFresh c seen then [x.packet] else []) ++ streamOf c (seen ++ dataOf c [x]) xs

section Stream

variable {c : Conn} {seen : List CFormatPacket} {x : Arrival} {xs ys : List Arrival}

theorem isData_of_isFresh (h : x.isFresh c seen = true) : x.isData c = true := by
  rw [Arrival.isFresh, Bool.and_eq_true] at h
  exact h.1

theorem isFresh_of_closes (h : x.packet.closes = true) : x.isFresh c seen = false := by
  rw [Arrival.isFresh, isData_of_closes h, Bool.false_and]

theorem streamOf_cons (c : Conn) (seen : List CFormatPacket) (x : Arrival) (xs : List Arrival) :
    streamOf c seen (x :: xs) =
      streamOf c seen [x] ++ streamOf c (seen ++ dataOf c [x]) xs := by
  rw [streamOf, streamOf, streamOf, List.append_nil]

theorem streamOf_pos (h : x.isFresh c seen = true) : streamOf c seen [x] = [x.packet] := by
  rw [streamOf, streamOf, if_pos h, List.append_nil]

theorem streamOf_neg (h : x.isFresh c seen = false) : streamOf c seen [x] = [] := by
  rw [streamOf, streamOf, if_neg (by simp [h]), List.append_nil]

theorem streamOf_append (c : Conn) (seen : List CFormatPacket) (xs ys : List Arrival) :
    streamOf c seen (xs ++ ys) = streamOf c seen xs ++ streamOf c (seen ++ dataOf c xs) ys := by
  induction xs generalizing seen with
  | nil => rw [List.nil_append, dataOf_nil, List.append_nil, streamOf, List.nil_append]
  | cons x xs ih =>
    rw [List.cons_append, streamOf_cons, ih, streamOf_cons c seen x xs, dataOf_cons c x xs,
      List.append_assoc, List.append_assoc]

/-- The stream consists of data segments. -/
theorem streamOf_sublist (c : Conn) (seen : List CFormatPacket) (xs : List Arrival) :
    (streamOf c seen xs).Sublist (dataOf c xs) := by
  induction xs generalizing seen with
  | nil => exact List.Sublist.refl _
  | cons x xs ih =>
    rw [streamOf_cons, dataOf_cons c x xs]
    refine List.Sublist.append ?_ (ih _)
    cases hfresh : x.isFresh c seen with
    | true =>
      rw [streamOf_pos hfresh, dataOf_pos (isData_of_isFresh hfresh)]
    | false =>
      rw [streamOf_neg hfresh]
      exact List.nil_sublist _

/-- Every data segment is in it, or was seen before. -/
theorem mem_streamOf {p : CFormatPacket} (hp : p ∈ dataOf c xs) :
    ∃ q ∈ seen ++ streamOf c seen xs, SameSegment q p := by
  induction xs generalizing seen with
  | nil => exact absurd hp List.not_mem_nil
  | cons x xs ih =>
    -- what the first packet brings is in the stream, or was seen
    have hfirst : ∀ q ∈ dataOf c [x],
        ∃ r ∈ seen ++ streamOf c seen [x], SameSegment r q := by
      intro q hq
      cases hdata : x.isData c with
      | false =>
        rw [dataOf_neg hdata] at hq
        exact absurd hq List.not_mem_nil
      | true =>
        rw [dataOf_pos hdata, List.mem_singleton] at hq
        subst hq
        cases hresent : resent seen x.packet with
        | true =>
          obtain ⟨r, hr, hsame⟩ := List.any_eq_true.mp hresent
          exact ⟨r, List.mem_append_left _ hr, of_decide_eq_true hsame⟩
        | false =>
          rw [streamOf_pos (by rw [Arrival.isFresh, hdata, hresent]; rfl)]
          exact ⟨x.packet, List.mem_append_right _ (List.mem_singleton_self _),
            SameSegment.refl _⟩
    have hgrow : ∀ r ∈ seen ++ streamOf c seen [x], r ∈ seen ++ streamOf c seen (x :: xs) := by
      intro r hr
      rw [streamOf_cons, ← List.append_assoc]
      exact List.mem_append_left _ hr
    rw [dataOf_cons] at hp
    rcases List.mem_append.mp hp with hp | hp
    · obtain ⟨r, hr, hsame⟩ := hfirst p hp
      exact ⟨r, hgrow r hr, hsame⟩
    obtain ⟨q, hq, hqp⟩ : ∃ q ∈ (seen ++ dataOf c [x]) ++ streamOf c (seen ++ dataOf c [x]) xs,
        SameSegment q p := ih hp
    rw [List.append_assoc, List.mem_append, List.mem_append] at hq
    rcases hq with hq | hq | hq
    · exact ⟨q, List.mem_append_left _ hq, hqp⟩
    · obtain ⟨r, hr, hsame⟩ := hfirst q hq
      exact ⟨r, hgrow r hr, hsame.trans hqp⟩
    · refine ⟨q, ?_, hqp⟩
      rw [streamOf_cons]
      exact List.mem_append_right _ (List.mem_append_right _ hq)

/-- Where nothing is sent again, a data segment is fresh. -/
theorem not_resent_of_pairwise
    (h : (seen ++ dataOf c (x :: xs)).Pairwise fun p q => ¬ SameSegment p q)
    (hdata : x.isData c = true) : resent seen x.packet = false := by
  rw [resent, List.any_eq_false]
  intro q hq hsame
  rw [dataOf_cons, dataOf_pos hdata] at h
  exact (List.pairwise_append.mp h).2.2 q hq x.packet (by simp) (of_decide_eq_true hsame)

/-- And the stream consists of all the data segments. -/
theorem streamOf_of_pairwise
    (h : (seen ++ dataOf c xs).Pairwise fun p q => ¬ SameSegment p q) :
    streamOf c seen xs = dataOf c xs := by
  induction xs generalizing seen with
  | nil => rfl
  | cons x xs ih =>
    have hrest := h
    rw [dataOf_cons, ← List.append_assoc] at hrest
    rw [streamOf_cons, dataOf_cons c x xs, ih hrest]
    refine congrArg (· ++ dataOf c xs) ?_
    cases hdata : x.isData c with
    | false =>
      rw [dataOf_neg hdata, streamOf_neg (by rw [Arrival.isFresh, hdata, Bool.false_and])]
    | true =>
      have hnew := not_resent_of_pairwise h hdata
      rw [dataOf_pos hdata, streamOf_pos (by rw [Arrival.isFresh, hdata, hnew]; rfl)]

end Stream

/-! ## The packets that wait -/

namespace Book

/-- The packets filed in the session of the table since the last call of `Parse`. -/
def waiting (b : Book) : List CFormatPacket := (b.current.map Ledger.since).getD []

/-- `b'` comes from `b` with calls of `Parse` that got the packets of `out`; those of `w`
wait. -/
def Becomes (b b' : Book) (out : List (List CFormatPacket)) (w : List CFormatPacket) : Prop :=
  (∃ new, b'.handed = b.handed ++ new ∧ new.map Handed.filed = out) ∧ b'.waiting = w

theorem Becomes.trans {b b₁ b₂ : Book} {out₁ out₂ : List (List CFormatPacket)}
    {w₁ w₂ : List CFormatPacket} (h₁ : Becomes b b₁ out₁ w₁) (h₂ : Becomes b₁ b₂ out₂ w₂) :
    Becomes b b₂ (out₁ ++ out₂) w₂ := by
  obtain ⟨⟨new₁, hnew₁, rfl⟩, -⟩ := h₁
  obtain ⟨⟨new₂, hnew₂, rfl⟩, hw₂⟩ := h₂
  refine ⟨⟨new₁ ++ new₂, ?_, List.map_append⟩, hw₂⟩
  rw [hnew₂, hnew₁, List.append_assoc]

/-- What `Parse` got stays in the books. -/
theorem Becomes.handed_subset {b b' : Book} {out : List (List CFormatPacket)}
    {w : List CFormatPacket} (h : Becomes b b' out w) : b.handed ⊆ b'.handed := by
  obtain ⟨⟨new, hnew, -⟩, -⟩ := h
  rw [hnew]
  exact List.subset_append_left _ _

theorem Becomes.mem_handed {b b' : Book} {out : List (List CFormatPacket)}
    {w : List CFormatPacket} (h : Becomes b b' out w) {k : Handed} (hk : k ∈ b'.handed) :
    k ∈ b.handed ∨ k.filed ∈ out := by
  obtain ⟨⟨new, hnew, rfl⟩, -⟩ := h
  rw [hnew] at hk
  exact (List.mem_append.mp hk).imp_right (List.mem_map_of_mem (f := Handed.filed))

theorem Becomes.exists_handed {b b' : Book} {out : List (List CFormatPacket)}
    {w : List CFormatPacket} (h : Becomes b b' out w) {ps : List CFormatPacket} (hps : ps ∈ out) :
    ∃ k ∈ b'.handed, k.filed = ps := by
  obtain ⟨⟨new, hnew, rfl⟩, -⟩ := h
  obtain ⟨k, hk, hfiled⟩ := List.mem_map.mp hps
  refine ⟨k, ?_, hfiled⟩
  rw [hnew]
  exact List.mem_append_right _ hk

end Book

/-- The books of a session balance and every packet that waits has payload. -/
structure Ledger.Solid (l : Ledger) : Prop where
  balanced : l.Balanced
  /-- Nothing empty waits. -/
  data : ∀ p ∈ l.since, p.payload ≠ []

namespace Ledger

variable {B : Boost}

/-- Where something is buffered, something waits. -/
theorem Solid.since_ne {l : Ledger} (h : l.Solid)
    (hlen : l.ses.reqBuf.len > 0 ∨ l.ses.rspBuf.len > 0) : l.since ≠ [] := by
  intro hnil
  have hreq := h.balanced.since.req
  have hrsp := h.balanced.since.rsp
  rw [hnil] at hreq hrsp
  have hreq₀ := h.balanced.wf.req.len_eq_zero_iff.mpr hreq
  have hrsp₀ := h.balanced.wf.rsp.len_eq_zero_iff.mpr hrsp
  omega

/-- Where nothing is buffered, nothing waits. -/
theorem Solid.since_nil {l : Ledger} (h : l.Solid) (hreq : l.ses.reqBuf.len = 0)
    (hrsp : l.ses.rspBuf.len = 0) : l.since = [] := by
  rw [h.balanced.wf.req.len_eq_zero_iff, h.balanced.since.req] at hreq
  rw [h.balanced.wf.rsp.len_eq_zero_iff, h.balanced.since.rsp] at hrsp
  have hno := (requestOf_ne_nil h.data).not.mp (not_not.mpr hreq)
  have hno' := (responseOf_ne_nil h.data).not.mp (not_not.mpr hrsp)
  rw [List.any_eq_true] at hno hno'
  refine List.eq_nil_iff_forall_not_mem.mpr fun p hp => ?_
  cases hto : p.toServer with
  | true => exact hno ⟨p, hp, hto⟩
  | false => exact hno' ⟨p, hp, by simp [hto]⟩

/-- A call in which no constructor or `Reset` is refused its memory keeps ledgers solid. -/
theorem Solid.keeps (B : Boost) {x : Arrival} (he : x.env.Resets) :
    Keeps B x (fun l => Countable B x l ∧ x.packet.payload ≠ []) Solid where
  sweep l a b h := ⟨(Balanced.keeps B he).sweep l a b h.balanced, fun p hp =>
    absurd hp List.not_mem_nil⟩
  close l h := ⟨(Balanced.keeps B he).close l h.balanced, fun p hp =>
    absurd hp List.not_mem_nil⟩
  opened o h := by
    refine ⟨(Balanced.keeps B he).opened o fun l hl => (h l hl).balanced, ?_⟩
    cases o with
    | none => exact fun p hp => absurd hp List.not_mem_nil
    | some l => exact (h l rfl).data
  file l h hf := by
    refine ⟨(Balanced.keeps B he).file l h.balanced hf.1, fun p hp => ?_⟩
    rcases List.mem_append.mp hp with hp | hp
    · split at hp
      · exact h.data p hp
      · exact absurd hp List.not_mem_nil
    · split at hp
      · rw [List.mem_singleton.mp hp]
        exact hf.2
      · exact absurd hp List.not_mem_nil

end Ledger

/-! ## One call -/

namespace Book

variable {B : Boost} {last : Int} {c : Conn} {b : Book} {x : Arrival}

/-- The sweep parses the session. -/
def sweptOut (last : Int) (b : Book) (x : Arrival) : Bool :=
  b.current.any fun l => decide ((hashConn l.ses.conn).toNat < sweepReach last x.env) &&
    sweepParses x.env.timeCheck l.ses

/-- What the sweep makes of one session: if it parses it, it hands out what waits. -/
theorem sweep_some (B : Boost) (e : Env) (reach : Nat) {l : Ledger} (hs : l.Solid) :
    let q := Ledger.sweep B e reach (some l)
    let s := decide ((hashConn l.ses.conn).toNat < reach) && sweepParses e.timeCheck l.ses
    (∃ new, (q.2 ++ q.1.toList).flatMap Ledger.parsed = l.parsed ++ new ∧
        new.map Handed.filed = if s then [l.since] else []) ∧
      (q.1.map Ledger.since).getD [] = if s then [] else l.since := by
  simp only [Ledger.sweep]
  by_cases hin : (hashConn l.ses.conn).toNat < reach
  · simp only [if_pos hin, decide_eq_true hin, Bool.true_and]
    cases hparses : sweepParses e.timeCheck l.ses with
    | true =>
      refine ⟨⟨[⟨l.ses, (parse B (e.sweep l.ses.server l.ses.client) l.ses).2, l.since⟩], ?_, rfl⟩,
        ?_⟩
      · cases sweepExpires e.timeCheck l.ses <;> simp [Ledger.parse]
      · cases sweepExpires e.timeCheck l.ses <;> rfl
    | false =>
      refine ⟨⟨[], ?_, rfl⟩, ?_⟩
      · cases sweepExpires e.timeCheck l.ses <;> simp
      · cases hexpires : sweepExpires e.timeCheck l.ses with
        | true =>
          -- it is erased with both buffers empty
          obtain ⟨hreq, hrsp⟩ := len_of_not_sweepParses (idle_of_sweepExpires hexpires) hparses
          exact (hs.since_nil hreq hrsp).symm
        | false => rfl
  · simp only [if_neg hin, decide_eq_false hin, Bool.false_and]
    exact ⟨⟨[], by simp, rfl⟩, rfl⟩

/-- **The sweep** hands out what waits, if it parses the session. -/
theorem swept_becomes (B : Boost) (last : Int) (x : Arrival) (hs : ∀ l ∈ b.current, l.Solid) :
    Becomes b (b.swept B last x.call) (if b.sweptOut last x then [b.waiting] else [])
      (if b.sweptOut last x then [] else b.waiting) := by
  obtain ⟨closed, current⟩ := b
  cases current with
  | none =>
    refine ⟨⟨[], ?_, rfl⟩, rfl⟩
    simp [handed, ledgers, swept, Ledger.sweep]
  | some l =>
    obtain ⟨⟨new, hnew, hout⟩, hw⟩ := sweep_some B x.env (sweepReach last x.env) (hs l rfl)
    refine ⟨⟨new, ?_, hout⟩, hw⟩
    have hledgers : (swept B last ⟨closed, some l⟩ x.call).ledgers = closed ++
        ((Ledger.sweep B x.env (sweepReach last x.env) (some l)).2 ++
          (Ledger.sweep B x.env (sweepReach last x.env) (some l)).1.toList) :=
      List.append_assoc ..
    have hbefore : handed ⟨closed, some l⟩ = closed.flatMap Ledger.parsed ++ l.parsed := by
      simp [handed, ledgers]
    rw [hbefore, handed, hledgers, List.flatMap_append, hnew, List.append_assoc]

theorem meets_since (B : Boost) (last : Int) (b : Book) (x : Arrival) :
     (b.meets B last x.call (behavior x.packet)).since =
    (b.swept B last x.call).waiting := by
  unfold meets waiting
  cases (b.swept B last x.call).current <;> rfl

theorem meets_parsed (b : Book) (x : Arrival) : (b.meets B last x.call (behavior x.packet)).parsed =
    (b.swept B last x.call).current.toList.flatMap Ledger.parsed := by
  unfold meets
  cases (b.swept B last x.call).current <;> simp [Ledger.opened, Ledger.new]

theorem step_other (hc : x.packet.conn ≠ c) (b : Book) :
    Book.step B last c b x.call = b.swept B last x.call := by
  unfold Book.step
  simp only [Arrival.call_info, if_neg (show ¬ x.call.packet.conn = c from hc)]

theorem step_self (hc : x.packet.conn = c) (b : Book) :
    Book.step B last c b x.call =
      ⟨(b.swept B last x.call).closed ++
          ((b.meets B last x.call (behavior x.packet)).serve B x.call (behavior x.packet)).2,
        ((b.meets B last x.call (behavior x.packet)).serve B x.call (behavior x.packet)).1⟩ := by
  unfold Book.step
  simp only [Arrival.call_info, if_pos (show x.call.packet.conn = c from hc)]

/-- Serving the packet adds what it hands out to the books of the session. -/
theorem serve_becomes (b : Book) {q : Option Ledger × List Ledger} (new : List Handed)
    {out : List (List CFormatPacket)} {w : List CFormatPacket}
    (hparsed : (q.2 ++ q.1.toList).flatMap Ledger.parsed =
      (b.meets B last x.call (behavior x.packet)).parsed ++ new)
    (hout : new.map Handed.filed = out) (hw : (q.1.map Ledger.since).getD [] = w) :
    Becomes (b.swept B last x.call) ⟨(b.swept B last x.call).closed ++ q.2, q.1⟩ out w := by
  refine ⟨⟨new, ?_, hout⟩, hw⟩
  unfold handed ledgers
  rw [List.append_assoc, List.flatMap_append, hparsed, meets_parsed, List.flatMap_append,
    List.append_assoc]

/-- What a call does with what waits. -/
inductive Serves (B : Boost) (c : Conn) (x : Arrival) (l : Ledger) (w : List CFormatPacket) :
    List (List CFormatPacket) → List CFormatPacket → Prop
  /-- The packet is not of the connection, repeated or empty. -/
  | idle : ¬ (x.packet.conn = c ∧ (x.packet.closes = true ∨ Traced.accepts x.packet l.ses = true)) →
      Serves B c x l w [] w
  /-- The packet closes the connection: it is all handed out. -/
  | closed : x.packet.conn = c → x.packet.closes = true → Serves B c x l w [w] []
  /-- The packet is filed, after a call of `Parse` or without one. -/
  | filed (q : Filed) : x.packet.conn = c → Traced.accepts x.packet l.ses = true →
      q = processData B x.env x.packet (behavior x.packet).matchWay l.ses →
      Serves B c x l w (if q.calls.isEmpty then [] else [w]) (joined q w x.packet)

/-- **One call**: the sweep, then the packet. -/
theorem step_becomes (B : Boost) (last : Int) (c : Conn) (x : Arrival)
    (hs : ∀ l ∈ b.current, l.Solid) : ∃ out w,
    Serves B c x (b.meets B last x.call (behavior x.packet))
      (if b.sweptOut last x then [] else b.waiting) out w ∧
    Becomes b (Book.step B last c b x.call)
      ((if b.sweptOut last x then [b.waiting] else []) ++ out) w := by
  have hswept := swept_becomes B last x hs
  have hsince := meets_since B last b x
  rw [hswept.2] at hsince
  generalize (if b.sweptOut last x then [] else b.waiting) = w₁ at hswept hsince ⊢
  by_cases hc : x.packet.conn = c
  rotate_left
  · refine ⟨[], w₁, .idle fun h => hc h.1, ?_⟩
    rw [step_other hc, List.append_nil]
    exact hswept
  rw [step_self hc]
  unfold Ledger.serve
  rw [Arrival.call_packet]
  by_cases hclose : x.packet.closes = true
  · refine ⟨[w₁], [], .closed hc hclose, hswept.trans ?_⟩
    rw [if_pos hclose]
    exact serve_becomes b [⟨(b.meets B last x.call (behavior x.packet)).ses, (parse B x.env.parse
      (b.meets B last x.call (behavior x.packet)).ses).2, _⟩] (by simp [Ledger.parse])
      (congrArg (fun w => [w]) hsince) rfl
  rw [if_neg hclose]
  by_cases hacc : Traced.accepts x.packet (b.meets B last x.call (behavior x.packet)).ses = true
  · refine ⟨_, _, .filed _ hc hacc rfl, hswept.trans ?_⟩
    rw [if_pos hacc]
    refine serve_becomes b ((processData B x.env x.packet (behavior x.packet).matchWay
      (b.meets B last x.call (behavior x.packet)).ses).calls.map fun k => ⟨k.1, k.2,
        (b.meets B last x.call (behavior x.packet)).since⟩) (by simp [Ledger.file]) ?_ ?_
    · rcases processData_calls B x (b.meets B last x.call (behavior x.packet)).ses with
        hcalls | ⟨k, hcalls⟩
      · rw [hcalls]
        rfl
      · rw [hcalls]
        simp [hsince]
    · rw [← hsince]
      rfl
  · refine ⟨[], w₁, .idle fun h => h.2.elim hclose hacc, hswept.trans ?_⟩
    rw [if_neg hacc]
    exact serve_becomes b [] (by simp) rfl hsince

end Book

/-! ## Gathering -/

/-- The buffer that `Append` gets has room for a byte. -/
theorem CSession.WF.bufferAt_free {s : CSession} (hs : s.WF) (x : Arrival) :
    1 ≤ (bufferAt x s).free := by
  unfold bufferAt
  split_ifs
  · exact Nat.le_of_ble_eq_true rfl
  · exact hs.req.free_pos
  · exact hs.rsp.free_pos

/-- `Append` succeeds if the buffer has the room or gets it. -/
theorem processData_done_iff (B : Boost) {x : Arrival} {s : CSession} (hs : s.WF) :
    (processData B x.env x.packet (behavior x.packet).matchWay s).done = true ↔
      x.packet.dataSize < (bufferAt x s).free ∨
        (x.env.append.isSome ∧ ¬ (bufferAt x s).Frees x.packet.dataSize) := by
  have happended := CBuffer.append_fst_iff (hs.bufferAt_free x) x.env.append x.packet.data
    x.packet.dataSize
  cases hto : x.packet.toServer with
  | true => rw [(processData_request B s hto).1, happended]
  | false => rw [(processData_response B s hto).1, happended]

namespace Book

variable {B : Boost} {last : Int} {c : Conn} {seen : List CFormatPacket} {b : Book} {x : Arrival}

/-- A call keeps what waits, and files the segment it brings. -/
structure Gathers (B : Boost) (last : Int) (c : Conn) (seen : List CFormatPacket) (b : Book)
    (x : Arrival) : Prop where
  /-- The sweep does not parse the session. -/
  quiet : b.sweptOut last x = false
  /-- A segment that was not sent before does not carry the number filed last. -/
  fresh : x.isFresh c seen = true →
    repeated x.packet (b.meets B last x.call (behavior x.packet)).ses = false
  /-- If it goes to the server it does not find both a request and a response. -/
  order : x.isFresh c seen = true → x.packet.toServer = true →
    ¬ ((b.meets B last x.call (behavior x.packet)).ses.reqBuf.len > 0 ∧
      (b.meets B last x.call (behavior x.packet)).ses.rspBuf.len > 0)
  /-- Its buffer has the room for it, or gets it. -/
  room : x.isFresh c seen = true →
    x.packet.dataSize <
        (bufferAt x (b.meets B last x.call (behavior x.packet)).ses).free ∨
      (x.env.append.isSome ∧
        ¬ (bufferAt x (b.meets B last x.call (behavior x.packet)).ses).Frees x.packet.dataSize)

/-- A segment that comes again carries the number filed last, so that it is dropped. -/
def Drops (B : Boost) (last : Int) (c : Conn) (seen : List CFormatPacket) (b : Book)
    (x : Arrival) : Prop :=
  x.isData c = true → resent seen x.packet = true →
    repeated x.packet (b.meets B last x.call (behavior x.packet)).ses = true

theorem meets_solid (B : Boost) (last : Int) (hs : ∀ l ∈ b.ledgers, l.Solid) (he : x.env.Resets) :
    (b.meets B last x.call (behavior x.packet)).Solid :=
  Book.keeps_meets last (Ledger.Solid.keeps B he) hs

theorem current_solid (hs : ∀ l ∈ b.ledgers, l.Solid) : ∀ l ∈ b.current, l.Solid :=
  fun l hl => hs l (List.mem_append_right _ (Option.mem_toList.mpr hl))

/-- A session that the sweep parses has something that waits. -/
theorem waiting_ne_of_sweptOut (hs : ∀ l ∈ b.ledgers, l.Solid) (h : b.sweptOut last x = true) :
    b.waiting ≠ [] := by
  have hcurrent := current_solid hs
  unfold sweptOut at h
  unfold waiting
  cases hb : b.current with
  | none =>
    rw [hb] at h
    exact absurd h (by simp)
  | some l =>
    rw [hb, Option.any_some, Bool.and_eq_true] at h
    have hparses := h.2
    simp only [sweepParses, Bool.and_eq_true, Bool.or_eq_true, decide_eq_true_eq] at hparses
    exact (hcurrent l hb).since_ne hparses.1

/-- What waits after the packet waited before, or came with it. -/
theorem Serves.sublist {l : Ledger} {w w' : List CFormatPacket} {out : List (List CFormatPacket)}
    (h : Serves B c x l w out w') {ps : List CFormatPacket}
    (hps : x.packet.conn = c → Traced.accepts x.packet l.ses = true → ps = [x.packet]) :
    w'.Sublist (w ++ ps) := by
  cases h with
  | idle _ => exact List.sublist_append_left _ _
  | closed _ _ => exact List.nil_sublist _
  | filed q hc hacc _ =>
    rw [hps hc hacc]
    refine List.Sublist.append ?_ ?_
    · split
      · exact List.Sublist.refl _
      · exact List.nil_sublist _
    · split
      · exact List.Sublist.refl _
      · exact List.nil_sublist _

/-- A segment that is filed where repetitions are dropped was not sent before. -/
theorem Drops.isFresh (hd : Drops B last c seen b x) (hc : x.packet.conn = c)
    (hacc : Traced.accepts x.packet (b.meets B last x.call (behavior x.packet)).ses = true) :
    x.isFresh c seen = true := by
  have hdata := isData_of_accepts hc hacc
  have hnew := (accepts_of_isData hdata (b.meets B last x.call (behavior x.packet)).ses).2
  rw [hacc, eq_comm, Bool.not_eq_true'] at hnew
  rw [Arrival.isFresh, hdata, Bool.true_and, Bool.not_eq_true']
  by_contra hresent
  rw [Bool.not_eq_false] at hresent
  rw [hd hdata hresent] at hnew
  exact absurd hnew (by simp)

/-- **A call that gathers** leaves everything waiting. -/
theorem waiting_step (hs : ∀ l ∈ b.ledgers, l.Solid) (he : x.env.Resets)
    (hd : Drops B last c seen b x) (hg : Gathers B last c seen b x)
    (hopen : x.packet.conn = c → x.packet.closes = false) :
    (Book.step B last c b x.call).waiting = b.waiting ++ streamOf c seen [x] := by
  obtain ⟨out, w, hserves, -, hw⟩ := step_becomes B last c x (current_solid hs)
  rw [hw]
  rw [hg.quiet] at hserves
  cases hserves with
  | idle hidle =>
    have hfresh : x.isFresh c seen = false := by
      by_contra hfresh
      rw [Bool.not_eq_false] at hfresh
      obtain ⟨hc, hacc⟩ := accepts_of_isData (isData_of_isFresh hfresh)
        (b.meets B last x.call (behavior x.packet)).ses
      rw [hg.fresh hfresh] at hacc
      exact hidle ⟨hc, Or.inr hacc⟩
    rw [streamOf_neg hfresh, List.append_nil]
    rfl
  | closed hc hclose =>
    rw [hopen hc] at hclose
    exact absurd hclose (by simp)
  | filed q hc hacc hq =>
    subst hq
    have hfresh := hd.isFresh hc hacc
    have hwf := (meets_solid B last hs he).balanced.wf
    have hcalls := (Ledger.processData_calls_iff B (x := x) hwf).mpr fun h => hg.order hfresh h.1
      ⟨hwf.reqLen_pos_iff.mpr h.2.1, hwf.rspLen_pos_iff.mpr h.2.2⟩
    rw [joined, if_pos hcalls, if_pos ((processData_done_iff B hwf).mpr (hg.room hfresh)),
      streamOf_pos hfresh]
    rfl

/-- **A call that does not gather** loses something for good. -/
theorem waiting_step_lt (hs : ∀ l ∈ b.ledgers, l.Solid) (he : x.env.Resets)
    (hd : Drops B last c seen b x) (hg : ¬ Gathers B last c seen b x) :
    (Book.step B last c b x.call).waiting.length <
      (b.waiting ++ streamOf c seen [x]).length := by
  obtain ⟨out, w, hserves, -, hw⟩ := step_becomes B last c x (current_solid hs)
  rw [hw]
  have hle := (hserves.sublist fun hc hacc => streamOf_pos (hd.isFresh hc hacc)).length_le
  rw [List.length_append] at hle ⊢
  cases hswept : b.sweptOut last x with
  | true =>
    have hpos := List.length_pos_iff.mpr (waiting_ne_of_sweptOut hs hswept)
    rw [hswept, if_pos rfl, List.length_nil] at hle
    omega
  | false =>
    rw [hswept] at hserves
    have hwf := (meets_solid B last hs he).balanced.wf
    have hfresh : x.isFresh c seen = true := by
      by_contra hno
      exact hg ⟨hswept, fun h => absurd h hno, fun h => absurd h hno, fun h => absurd h hno⟩
    rw [streamOf_pos hfresh, List.length_singleton]
    cases hserves with
    | idle _ => exact Nat.lt_succ_self _
    | closed _ hclose =>
      rw [isFresh_of_closes hclose] at hfresh
      exact absurd hfresh (by simp)
    | filed q hc hacc hq =>
      subst hq
      have hnew := (accepts_of_isData (isData_of_isFresh hfresh)
        (b.meets B last x.call (behavior x.packet)).ses).2
      rw [hacc, eq_comm, Bool.not_eq_true'] at hnew
      have hcalls := Ledger.processData_calls_iff B (x := x) hwf
      rw [← hwf.reqLen_pos_iff, ← hwf.rspLen_pos_iff] at hcalls
      by_cases hboth : x.packet.toServer = true ∧
          (b.meets B last x.call (behavior x.packet)).ses.reqBuf.len > 0 ∧
            (b.meets B last x.call (behavior x.packet)).ses.rspBuf.len > 0
      · -- what waited is handed out
        have hsince := (meets_solid B last hs he).since_ne (Or.inl hboth.2.1)
        rw [meets_since, (swept_becomes B last x (current_solid hs)).2, hswept] at hsince
        have hpos : 0 < b.waiting.length := List.length_pos_iff.mpr hsince
        rw [joined, if_neg (hcalls.not.mpr (not_not.mpr hboth)), List.nil_append]
        split
        · rw [List.length_singleton]
          omega
        · exact Nat.succ_pos _
      · -- the packet is not taken
        have hcalls := hcalls.mpr hboth
        have hdone := (processData_done_iff B hwf).not.mpr fun hroom =>
          hg ⟨hswept, fun _ => hnew, fun _ hto h => hboth ⟨hto, h⟩, fun _ => hroom⟩
        rw [joined, if_pos hcalls, if_neg hdone, List.append_nil]
        exact Nat.lt_succ_self _

/-! ## Runs -/

/-- The books after a run. -/
def run (B : Boost) (last : Int) (c : Conn) (b : Book) (xs : List Arrival) : Book :=
  ((bookMachine B last c).run b (xs.map Arrival.call)).1

theorem run_cons (b : Book) (x : Arrival) (xs : List Arrival) :
    run B last c b (x :: xs) = run B last c (Book.step B last c b x.call) xs := rfl

theorem run_append (b : Book) (xs ys : List Arrival) :
    run B last c b (xs ++ ys) = run B last c (run B last c b xs) ys := by
  unfold run
  rw [List.map_append, Machine.run_append]

/-- Along the run no constructor or `Reset` is refused its memory, what is filed has payload,
and the bytes buffered can be counted. -/
structure Sound (B : Boost) (last : Int) (c : Conn) (b : Book) (xs : List Arrival) : Prop where
  solid : ∀ l ∈ b.ledgers, l.Solid
  /-- The memory is granted. -/
  resets : ∀ x ∈ xs, x.env.Resets
  /-- The packets that are filed. -/
  files : FilesAlong B last c (fun x l => l.Countable B x ∧ x.packet.payload ≠ []) b xs

variable {seen : List CFormatPacket} {xs ys : List Arrival}

theorem Sound.cons (h : Sound B last c b (x :: xs)) :
    x.env.Resets ∧ Sound B last c (Book.step B last c b x.call) xs := by
  have he : x.env.Resets := h.resets x List.mem_cons_self
  exact ⟨he, keeps_step (Ledger.Solid.keeps B he) h.solid h.files.1,
    fun y hy => h.resets y (List.mem_cons_of_mem _ hy), h.files.2⟩

theorem Sound.append (h : Sound B last c b (xs ++ ys)) :
    Sound B last c b xs ∧ Sound B last c (run B last c b xs) ys := by
  induction xs generalizing b with
  | nil => exact ⟨⟨h.solid, fun x hx => absurd hx List.not_mem_nil, trivial⟩, h⟩
  | cons x xs ih =>
    obtain ⟨he, hrest⟩ := h.cons
    obtain ⟨hxs, hys⟩ := ih hrest
    refine ⟨⟨h.solid, fun y hy => ?_, h.files.1, hxs.files⟩, hys⟩
    rcases List.mem_cons.mp hy with rfl | hy
    · exact he
    · exact hxs.resets y hy

/-- The books are solid after the run too. -/
theorem solid_run (h : Sound B last c b xs) : ∀ l ∈ (run B last c b xs).ledgers, l.Solid := by
  induction xs generalizing b with
  | nil => exact h.solid
  | cons x xs ih => exact ih h.cons.2

/-- What waits after a run waited before or came with it, in order. -/
theorem waiting_run_dataOf (h : Sound B last c b xs) :
    (run B last c b xs).waiting.Sublist (b.waiting ++ dataOf c xs) := by
  induction xs generalizing b with
  | nil => exact List.sublist_append_left _ _
  | cons x xs ih =>
    obtain ⟨out, w, hserves, -, hw⟩ := step_becomes B last c x (current_solid h.solid)
    have hstep : w.Sublist (b.waiting ++ dataOf c [x]) := by
      refine (hserves.sublist fun hc hacc => dataOf_pos (isData_of_accepts hc hacc)).trans
        (List.Sublist.append_right ?_ _)
      split
      · exact List.nil_sublist _
      · exact List.Sublist.refl _
    have hrest := ih h.cons.2
    rw [hw] at hrest
    rw [run_cons, dataOf_cons, ← List.append_assoc]
    exact hrest.trans (hstep.append_right _)

/-- After a FIN or RST of the connection only what comes after it can wait. -/
theorem waiting_run_closed (h : Sound B last c b (x :: xs)) (hc : x.packet.conn = c)
    (hclose : x.packet.closes = true) :
    (run B last c b (x :: xs)).waiting.Sublist (dataOf c xs) := by
  obtain ⟨out, w, hserves, -, hw⟩ := step_becomes B last c x (current_solid h.solid)
  have hnil : w = [] := by
    cases hserves with
    | idle hidle => exact absurd ⟨hc, Or.inl hclose⟩ hidle
    | closed _ _ => rfl
    | filed q _ hacc _ =>
      rw [Traced.accepts, hclose] at hacc
      exact absurd hacc (by simp)
  have hrest := waiting_run_dataOf h.cons.2
  rwa [hw, hnil, List.nil_append] at hrest

/-- Along the run every segment that comes again carries the number filed last. -/
def DropsAlong (B : Boost) (last : Int) (c : Conn) :
    List CFormatPacket → Book → List Arrival → Prop
  | _, _, [] => True
  | seen, b, x :: xs => Drops B last c seen b x ∧
      DropsAlong B last c (seen ++ dataOf c [x]) (Book.step B last c b x.call) xs

instance decidableDrops (B : Boost) (last : Int) (c : Conn) (seen : List CFormatPacket) (b : Book)
    (x : Arrival) : Decidable (Drops B last c seen b x) := by
  unfold Drops
  infer_instance

instance decidableDropsAlong (B : Boost) (last : Int) (c : Conn) :
    ∀ seen b xs, Decidable (DropsAlong B last c seen b xs)
  | _, _, [] => isTrue trivial
  | seen, b, x :: xs =>
    have := decidableDropsAlong B last c (seen ++ dataOf c [x]) (Book.step B last c b x.call) xs
    inferInstanceAs (Decidable (_ ∧ _))

/-- So it is where nothing is sent again. -/
theorem dropsAlong_of_pairwise
    (h : (seen ++ dataOf c xs).Pairwise fun p q => ¬ SameSegment p q) :
    DropsAlong B last c seen b xs := by
  induction xs generalizing seen b with
  | nil => trivial
  | cons x xs ih =>
    refine ⟨fun hdata hresent => ?_, ih ?_⟩
    · rw [not_resent_of_pairwise h hdata] at hresent
      exact absurd hresent (by simp)
    · rwa [dataOf_cons, ← List.append_assoc] at h

theorem dropsAlong_append : DropsAlong B last c seen b (xs ++ ys) ↔
    DropsAlong B last c seen b xs ∧
      DropsAlong B last c (seen ++ dataOf c xs) (run B last c b xs) ys := by
  induction xs generalizing seen b with
  | nil =>
    rw [dataOf_nil, List.append_nil]
    exact (iff_of_eq (true_and _)).symm
  | cons x xs ih =>
    rw [List.cons_append, DropsAlong, ih, DropsAlong, and_assoc, dataOf_cons c x xs,
      List.append_assoc, run_cons]

/-- **What waits after a run** in which repetitions are dropped waited before or is part of the
stream, in order. -/
theorem waiting_run_sublist (h : Sound B last c b xs) (hd : DropsAlong B last c seen b xs) :
    (run B last c b xs).waiting.Sublist (b.waiting ++ streamOf c seen xs) := by
  induction xs generalizing seen b with
  | nil => exact List.sublist_append_left _ _
  | cons x xs ih =>
    obtain ⟨out, w, hserves, -, hw⟩ := step_becomes B last c x (current_solid h.solid)
    have hstep : w.Sublist (b.waiting ++ streamOf c seen [x]) := by
      refine (hserves.sublist fun hc hacc => streamOf_pos (hd.1.isFresh hc hacc)).trans
        (List.Sublist.append_right ?_ _)
      split
      · exact List.nil_sublist _
      · exact List.Sublist.refl _
    have hrest := ih h.cons.2 hd.2
    rw [hw] at hrest
    rw [run_cons, streamOf_cons, ← List.append_assoc]
    exact hrest.trans (hstep.append_right _)

/-- As long as segments of the stream remain, the calls gather. -/
def GathersAlong (B : Boost) (last : Int) (c : Conn) :
    List CFormatPacket → Book → List Arrival → Prop
  | _, _, [] => True
  | seen, b, x :: xs =>
    (streamOf c seen (x :: xs) ≠ [] → Gathers B last c seen b x) ∧
      GathersAlong B last c (seen ++ dataOf c [x]) (Book.step B last c b x.call) xs

theorem gathersAlong_of_streamOf (h : streamOf c seen xs = []) :
    GathersAlong B last c seen b xs := by
  induction xs generalizing seen b with
  | nil => trivial
  | cons x xs ih =>
    have hcons := h
    rw [streamOf_cons] at hcons
    exact ⟨fun hne => absurd h hne, ih (List.append_eq_nil_iff.mp hcons).2⟩

/-- **Where nothing is lost everything was gathered.** -/
theorem gathersAlong_of_length (h : Sound B last c b xs) (hd : DropsAlong B last c seen b xs)
    (hys : streamOf c (seen ++ dataOf c xs) ys = [])
    (hall : (b.waiting ++ streamOf c seen xs).length ≤ (run B last c b xs).waiting.length) :
    GathersAlong B last c seen b (xs ++ ys) := by
  induction xs generalizing seen b with
  | nil =>
    rw [dataOf_nil, List.append_nil] at hys
    exact gathersAlong_of_streamOf hys
  | cons x xs ih =>
    obtain ⟨he, hrest⟩ := h.cons
    obtain ⟨hdx, hdrest⟩ := hd
    have hrun := (waiting_run_sublist hrest hdrest).length_le
    have hfirst : Sound B last c b [x] :=
      (Sound.append (show Sound B last c b ([x] ++ xs) from h)).1
    have hstep := (waiting_run_sublist hfirst ⟨hdx, trivial⟩).length_le
    rw [streamOf_cons, run_cons, List.length_append, List.length_append] at hall
    rw [List.length_append] at hrun hstep
    have hone : run B last c b [x] = Book.step B last c b x.call := rfl
    rw [hone] at hstep
    have hg : Gathers B last c seen b x := by
      by_contra hg
      have hlost := waiting_step_lt h.solid he hdx hg
      rw [List.length_append] at hlost
      omega
    rw [dataOf_cons, ← List.append_assoc] at hys
    refine ⟨fun _ => hg, ih hrest hdrest hys ?_⟩
    rw [List.length_append]
    omega

/-- **What is gathered waits**, until no segment of the stream remains. -/
theorem gathered (h : Sound B last c b xs) (hd : DropsAlong B last c seen b xs)
    (hg : GathersAlong B last c seen b xs)
    (hopen : ∀ x ∈ xs, x.packet.conn = c → x.packet.closes = false) :
    ∃ u v, xs = u ++ v ∧ streamOf c (seen ++ dataOf c u) v = [] ∧
      (run B last c b u).waiting = b.waiting ++ streamOf c seen u := by
  induction xs generalizing seen b with
  | nil => exact ⟨[], [], rfl, rfl, (List.append_nil _).symm⟩
  | cons x xs ih =>
    by_cases hnone : streamOf c seen (x :: xs) = []
    · refine ⟨[], x :: xs, rfl, ?_, (List.append_nil _).symm⟩
      rwa [dataOf_nil, List.append_nil]
    obtain ⟨he, hrest⟩ := h.cons
    obtain ⟨hdx, hdrest⟩ := hd
    have hstep := waiting_step h.solid he hdx (hg.1 hnone) (hopen x List.mem_cons_self)
    obtain ⟨u, v, rfl, hv, hu⟩ :=
      ih hrest hdrest hg.2 fun y hy => hopen y (List.mem_cons_of_mem _ hy)
    refine ⟨x :: u, v, rfl, ?_, ?_⟩
    · rwa [dataOf_cons, ← List.append_assoc]
    · rw [run_cons, hu, hstep, streamOf_cons c seen x u, List.append_assoc]

/-- What `Parse` got stays in the books. -/
theorem handed_subset_run (h : Sound B last c b xs) :
    b.handed ⊆ (run B last c b xs).handed := by
  induction xs generalizing b with
  | nil => exact fun k hk => hk
  | cons x xs ih =>
    obtain ⟨out, w, -, hstep⟩ := step_becomes B last c x (current_solid h.solid)
    exact fun k hk => ih h.cons.2 (hstep.handed_subset hk)

/-- Where nothing of the stream comes, what waits goes on waiting or is handed out as it is. -/
theorem handed_or_waiting (h : Sound B last c b xs) (hd : DropsAlong B last c seen b xs)
    (hxs : streamOf c seen xs = []) {ps : List CFormatPacket}
    (hps : (∃ k ∈ b.handed, k.filed = ps) ∨ b.waiting = ps) :
    (∃ k ∈ (run B last c b xs).handed, k.filed = ps) ∨ (run B last c b xs).waiting = ps := by
  induction xs generalizing seen b with
  | nil => exact hps
  | cons x xs ih =>
    rw [streamOf_cons] at hxs
    obtain ⟨hx, hxs⟩ := List.append_eq_nil_iff.mp hxs
    refine ih h.cons.2 hd.2 hxs ?_
    obtain ⟨out, w, hserves, hstep⟩ := step_becomes B last c x (current_solid h.solid)
    rcases hps with ⟨k, hk, hfiled⟩ | hwaiting
    · exact Or.inl ⟨k, hstep.handed_subset hk, hfiled⟩
    rw [hwaiting] at hserves hstep
    cases hswept : b.sweptOut last x with
    | true =>
      rw [hswept] at hstep
      exact Or.inl (hstep.exists_handed (by simp))
    | false =>
      rw [hswept] at hserves hstep
      cases hserves with
      | idle _ => exact Or.inr hstep.2
      | closed _ _ => exact Or.inl (hstep.exists_handed (by simp))
      | filed q hc hacc _ =>
        rw [streamOf_pos (hd.1.isFresh hc hacc)] at hx
        exact absurd hx (by simp)

/-- **What is handed out waited** at some moment of the run. -/
theorem mem_handed_run (h : Sound B last c b xs) {k : Handed}
    (hk : k ∈ (run B last c b xs).handed) : k ∈ b.handed ∨ k.filed = [] ∨
      ∃ u v, xs = u ++ v ∧ k.filed = (run B last c b u).waiting := by
  induction xs generalizing b with
  | nil => exact Or.inl hk
  | cons x xs ih =>
    rcases ih h.cons.2 hk with hk | hnil | ⟨u, v, rfl, hu⟩
    · obtain ⟨out, w, hserves, hstep⟩ := step_becomes B last c x (current_solid h.solid)
      refine (hstep.mem_handed hk).imp_right fun hk => ?_
      have hout : ∀ w₁, k.filed = w₁ → w₁ = (if b.sweptOut last x then [] else b.waiting) →
          k.filed = [] ∨ ∃ u v, x :: xs = u ++ v ∧ k.filed = (run B last c b u).waiting := by
        rintro _ hfiled rfl
        split at hfiled
        · exact Or.inl hfiled
        · exact Or.inr ⟨[], x :: xs, rfl, hfiled⟩
      rcases List.mem_append.mp hk with hk | hk
      · split at hk
        · exact Or.inr ⟨[], x :: xs, rfl, List.mem_singleton.mp hk⟩
        · exact absurd hk List.not_mem_nil
      · cases hserves with
        | idle _ => exact absurd hk List.not_mem_nil
        | closed _ _ => exact hout _ (List.mem_singleton.mp hk) rfl
        | filed q _ _ _ =>
          split at hk
          · exact absurd hk List.not_mem_nil
          · exact hout _ (List.mem_singleton.mp hk) rfl
    · exact Or.inr (Or.inl hnil)
    · exact Or.inr (Or.inr ⟨x :: u, v, rfl, hu⟩)

end Book

/-! ## Half-closed connections -/

/-- Packets with the bytes of others among which they are found are all of them. -/
theorem eq_of_sublist_of_bytes {ps qs : List CFormatPacket} (h : ps.Sublist qs)
    (hdata : ∀ p ∈ qs, p.payload ≠ []) (hreq : (requestOf qs).length ≤ (requestOf ps).length)
    (hrsp : (responseOf qs).length ≤ (responseOf ps).length) : ps = qs := by
  -- a list of packets has as many bytes as both directions together
  have hsize : ∀ l : List CFormatPacket,
      (requestOf l).length + (responseOf l).length = (l.map fun p => p.payload.length).sum := by
    intro l
    induction l with
    | nil => rfl
    | cons p l ih =>
      rw [← List.singleton_append, requestOf_append, responseOf_append, requestOf_single,
        responseOf_single, List.length_append, List.length_append, List.map_append,
        List.sum_append, ← ih, List.map_singleton, List.sum_singleton]
      cases p.toServer <;> simp <;> omega
  have hle : (qs.map fun p => p.payload.length).sum ≤ (ps.map fun p => p.payload.length).sum := by
    rw [← hsize, ← hsize]
    omega
  clear hreq hrsp hsize
  induction h with
  | slnil => rfl
  | cons q hsub ih =>
    have hpos := List.length_pos_iff.mpr (hdata q List.mem_cons_self)
    have hsum := (hsub.map fun p : CFormatPacket => p.payload.length).sum_le_sum fun _ _ =>
      Nat.zero_le _
    rw [List.map_cons, List.sum_cons] at hle
    omega
  | cons_cons q hsub ih =>
    rw [List.map_cons, List.sum_cons, List.map_cons, List.sum_cons] at hle
    rw [ih (fun p hp => hdata p (List.mem_cons_of_mem _ hp)) (by omega)]

/-- During the run `Parse` is called on connection `c` with `R` in `ReqBuf` and `S` in
`RspBuf`. -/
def Decoded (B : Boost) (h : CHandle) (c : Conn) (xs : List Arrival) (R S : Bytes) : Prop :=
  ∃ k ∈ ((handleMachine B).run h (xs.map Arrival.call)).2, k.ses.conn = c ∧
    k.ses.reqBuf.contents = R ∧ k.ses.rspBuf.contents = S

/-- In the books, `Parse` got packets with these bytes. -/
theorem decoded_iff {B : Boost} {h : CHandle} (hw : h.sesHash.WF) {c : Conn}
    (habsent : h.sesHash.session c = none) {xs : List Arrival}
    (hs : Book.Sound B h.lastTimeOutCheck c Book.empty xs) (R S : Bytes) :
    Decoded B h c xs R S ↔ ∃ k ∈ (Book.run B h.lastTimeOutCheck c Book.empty xs).handed,
      requestOf k.filed = R ∧ responseOf k.filed = S := by
  have hcarries : ∀ k ∈ (Book.run B h.lastTimeOutCheck c Book.empty xs).handed,
      k.ses.Carries k.filed := by
    intro k hk
    obtain ⟨l, hl, hkl⟩ := List.mem_flatMap.mp hk
    exact (Book.solid_run hs l hl).balanced.parsed k hkl
  have hbooks : (Book.run B h.lastTimeOutCheck c Book.empty xs).handed.map Ledger.pair =
      ((handleMachine B).run h (xs.map Arrival.call)).2.filterMap (obsConn c) :=
    (booksOf_absent B hw habsent xs).2
  constructor
  · rintro ⟨k, hk, hc, rfl, rfl⟩
    have hobs : (k.ses, k.sent) ∈
        ((handleMachine B).run h (xs.map Arrival.call)).2.filterMap (obsConn c) :=
      List.mem_filterMap.mpr ⟨k, hk, if_pos hc⟩
    rw [← hbooks] at hobs
    obtain ⟨j, hj, hpair⟩ := List.mem_map.mp hobs
    have hses : j.ses = k.ses := congrArg Prod.fst hpair
    refine ⟨j, hj, ?_, ?_⟩
    · rw [← (hcarries j hj).req, hses]
    · rw [← (hcarries j hj).rsp, hses]
  · rintro ⟨j, hj, rfl, rfl⟩
    have hpair := List.mem_map_of_mem (f := Ledger.pair) hj
    rw [hbooks] at hpair
    obtain ⟨k, hk, hobs⟩ := List.mem_filterMap.mp hpair
    unfold obsConn at hobs
    split at hobs
    · rename_i hc
      have hses : k.ses = j.ses := congrArg Prod.fst (Option.some.inj hobs)
      exact ⟨k, hk, hc, by rw [hses, (hcarries j hj).req], by rw [hses, (hcarries j hj).rsp]⟩
    · exact absurd hobs (by simp)

/-- Packets to the client carry no request. -/
theorem requestOf_toClient {ps : List CFormatPacket} (h : ∀ p ∈ ps, p.toServer = false) :
    requestOf ps = [] := by
  unfold requestOf
  rw [List.filter_eq_nil_iff.mpr fun p hp => by simp [h p hp]]
  rfl

/-- A connection on which a request comes before a closing packet and only data to the
client after it. -/
structure HalfClosed (c : Conn) (before : List Arrival) (fin : Arrival) (after : List Arrival) :
    Prop where
  /-- Nothing closes it before. -/
  opens : ∀ x ∈ before, x.packet.conn = c → x.packet.closes = false
  conn : fin.packet.conn = c
  closes : fin.packet.closes = true
  /-- After it only the server sends data. -/
  toClient : ∀ p ∈ dataOf c after, p.toServer = false
  request : requestOf (dataOf c before) ≠ []

namespace HalfClosed

variable {B : Boost} {last : Int} {c : Conn} {before after : List Arrival} {fin : Arrival}

/-- The request was complete when the closing packet came. -/
theorem requestOf_eq (ht : HalfClosed c before fin after) :
    requestOf (streamOf c [] (before ++ after)) = requestOf (streamOf c [] before) := by
  have hafter : ∀ p ∈ streamOf c ([] ++ dataOf c before) after, p.toServer = false :=
    fun p hp => ht.toClient p ((streamOf_sublist ..).subset hp)
  rw [streamOf_append, requestOf_append, requestOf_toClient hafter, List.append_nil]

/-- The stream has a request. -/
theorem request_ne (ht : HalfClosed c before fin after)
    (hdata : ∀ p ∈ dataOf c before, p.payload ≠ []) :
    requestOf (streamOf c [] before) ≠ [] := by
  have hsome := (Ledger.requestOf_ne_nil hdata).mp ht.request
  rw [List.any_eq_true] at hsome
  obtain ⟨p, hp, hto⟩ := hsome
  obtain ⟨q, hq, hsame⟩ : ∃ q ∈ [] ++ streamOf c [] before, SameSegment q p := mem_streamOf hp
  have hmem : ∀ r ∈ streamOf c [] before, r.payload ≠ [] := fun r hr =>
    hdata r ((streamOf_sublist ..).subset hr)
  rw [Ledger.requestOf_ne_nil hmem, List.any_eq_true]
  exact ⟨q, hq, hsame.toServer.trans hto⟩

/-- `Parse` does not get the request after the closing packet. -/
theorem request_before (ht : HalfClosed c before fin after)
    (hs : Book.Sound B last c Book.empty (before ++ fin :: after)) {k : Handed}
    (hk : k ∈ (Book.run B last c Book.empty (before ++ fin :: after)).handed)
    (hne : requestOf k.filed ≠ []) :
    ∃ u v, before = u ++ v ∧ k.filed = (Book.run B last c Book.empty u).waiting := by
  have hfiled : k.filed ≠ [] := fun hnil => hne (by rw [hnil]; rfl)
  obtain ⟨u, v, hsplit, hu⟩ :=
    ((Book.mem_handed_run hs hk).resolve_left List.not_mem_nil).resolve_left hfiled
  rcases List.append_eq_append_iff.mp hsplit with ⟨w, rfl, hw⟩ | ⟨w, hw, -⟩
  · cases w with
    | nil => exact ⟨before, [], (List.append_nil _).symm, by rw [hu, List.append_nil]⟩
    | cons y w =>
      obtain ⟨rfl, rfl⟩ := List.cons.inj hw
      obtain ⟨-, hsafter⟩ := hs.append
      obtain ⟨hsw, -⟩ := Book.Sound.append (show Book.Sound B last c _ (fin :: w ++ v) from hsafter)
      have hlate := Book.waiting_run_closed hsw ht.conn ht.closes
      rw [← Book.run_append, ← hu] at hlate
      have hmem : ∀ p ∈ k.filed, p ∈ dataOf c (w ++ v) := fun p hp => by
        rw [dataOf_append]
        exact List.mem_append_left _ (hlate.subset hp)
      exact absurd (requestOf_toClient fun p hp => ht.toClient p (hmem p hp)) hne
  · exact ⟨u, w, hw, hu⟩

/-- Where `Parse` got everything, everything was gathered before the closing packet. -/
theorem gathersAlong (ht : HalfClosed c before fin after)
    (hs : Book.Sound B last c Book.empty (before ++ fin :: after))
    (hd : Book.DropsAlong B last c [] Book.empty before)
    (hdata : ∀ p ∈ dataOf c (before ++ after), p.payload ≠ []) {k : Handed}
    (hk : k ∈ (Book.run B last c Book.empty (before ++ fin :: after)).handed)
    (hreq : requestOf k.filed = requestOf (streamOf c [] before))
    (hrsp : responseOf k.filed = responseOf (streamOf c [] (before ++ after))) :
    streamOf c (dataOf c before) after = [] ∧
      Book.GathersAlong B last c [] Book.empty before := by
  have hne : requestOf k.filed ≠ [] := by
    rw [hreq]
    refine ht.request_ne fun p hp => hdata p ?_
    rw [dataOf_append]
    exact List.mem_append_left _ hp
  obtain ⟨u, v, rfl, hu⟩ := ht.request_before hs hk hne
  obtain ⟨hsbefore, -⟩ := hs.append
  obtain ⟨hsu, -⟩ := hsbefore.append
  obtain ⟨hdu, -⟩ := Book.dropsAlong_append.mp hd
  have hsub : k.filed.Sublist (streamOf c [] u) := by
    rw [hu]
    exact Book.waiting_run_sublist hsu hdu
  have htotal : streamOf c [] (u ++ v ++ after) =
      streamOf c [] u ++ streamOf c (dataOf c u) v ++ streamOf c (dataOf c (u ++ v)) after := by
    rw [streamOf_append, streamOf_append, List.nil_append, List.nil_append]
  have hall : k.filed = streamOf c [] (u ++ v ++ after) := by
    refine eq_of_sublist_of_bytes ?_ (fun p hp => hdata p ((streamOf_sublist ..).subset hp))
      (le_of_eq ?_) (le_of_eq (by rw [hrsp]))
    · rw [htotal, List.append_assoc]
      exact hsub.trans (List.sublist_append_left _ _)
    · rw [ht.requestOf_eq, hreq]
  have hlength := hsub.length_le
  rw [hall, htotal, List.length_append, List.length_append] at hlength
  refine ⟨List.length_eq_zero_iff.mp (by omega), Book.gathersAlong_of_length hsu hdu
    (List.length_eq_zero_iff.mp ?_) ?_⟩
  · rw [List.nil_append]
    omega
  · have hnothing : Book.empty.waiting = [] := rfl
    rw [← hu, hall, htotal, hnothing, List.nil_append, List.length_append, List.length_append]
    omega

/-- What was gathered before the closing packet is handed out, by the sweep or by that
packet. -/
theorem handed_of_gathersAlong (ht : HalfClosed c before fin after)
    (hs : Book.Sound B last c Book.empty (before ++ fin :: after))
    (hd : Book.DropsAlong B last c [] Book.empty before)
    (hdata : ∀ p ∈ dataOf c before, p.payload ≠ [])
    (hg : Book.GathersAlong B last c [] Book.empty before) :
    ∃ k ∈ (Book.run B last c Book.empty (before ++ fin :: after)).handed,
      k.filed = streamOf c [] before := by
  obtain ⟨hsbefore, hsafter⟩ := hs.append
  obtain ⟨hsfin, hsrest⟩ := Book.Sound.append
    (show Book.Sound B last c (Book.run B last c Book.empty before) ([fin] ++ after) from hsafter)
  obtain ⟨u, v, rfl, hv, hu⟩ := Book.gathered hsbefore hd hg ht.opens
  obtain ⟨-, hsv⟩ := hsbefore.append
  obtain ⟨-, hdv⟩ := Book.dropsAlong_append.mp hd
  have hbefore : streamOf c [] (u ++ v) = streamOf c [] u := by
    rw [streamOf_append, hv, List.append_nil]
  -- it waits or is handed out when the closing packet comes, and that one closes the session
  have hfate := Book.handed_or_waiting hsv hdv hv (Or.inr hu)
  rw [← Book.run_append] at hfate
  have hclosing : streamOf c (dataOf c (u ++ v)) [fin] = [] :=
    streamOf_neg (isFresh_of_closes ht.closes)
  have hdrops : Book.DropsAlong B last c (dataOf c (u ++ v))
      (Book.run B last c Book.empty (u ++ v)) [fin] := by
    refine ⟨fun hdata => ?_, trivial⟩
    rw [isData_of_closes ht.closes] at hdata
    exact absurd hdata (by simp)
  have hclosed := Book.waiting_run_closed hsfin ht.conn ht.closes
  rw [dataOf_nil, List.sublist_nil] at hclosed
  rcases Book.handed_or_waiting hsfin hdrops hclosing hfate with ⟨k, hk, hfiled⟩ | hwaiting
  · refine ⟨k, ?_, by rw [hfiled, hbefore]; rfl⟩
    rw [Book.run_append]
    exact Book.handed_subset_run hsrest hk
  · refine absurd ?_ (ht.request_ne hdata)
    rw [hbefore, show streamOf c [] u = [] from hwaiting.symm.trans hclosed]
    rfl

end HalfClosed

/-- **When a half-closed connection is decoded.**  From any reachable table without a session
for the connection, whatever the other connections send in between, with sweeps at any
times and any answers to `Append`; a segment that comes again is not counted again, and one
that does so before the FIN carries the number filed last.  Some call of `Parse` gets the
request with all of the response exactly if nothing new follows the FIN and everything
before it was gathered. -/
theorem halfClosed_iff (B : Boost) {h : CHandle} (hr : Reachable B h) {c : Conn}
    (habsent : h.sesHash.session c = none) {before after : List Arrival} {fin : Arrival}
    (ht : HalfClosed c before fin after)
    (hdrops : Book.DropsAlong B h.lastTimeOutCheck c [] Book.empty before)
    (he : ∀ x ∈ before ++ fin :: after, x.env.Resets)
    (hshort : ∀ x ∈ before ++ fin :: after,
      -2 ^ 15 ≤ x.packet.dataLen ∧ x.packet.dataLen < 2 ^ 15)
    (hcount : Book.FilesAlong B h.lastTimeOutCheck c (Ledger.Countable B) Book.empty
      (before ++ fin :: after)) :
    Decoded B h c (before ++ fin :: after) (requestOf (streamOf c [] before))
        (responseOf (streamOf c [] (before ++ after))) ↔
      streamOf c (dataOf c before) after = [] ∧
        Book.GathersAlong B h.lastTimeOutCheck c [] Book.empty before := by
  have hdata : ∀ p ∈ dataOf c (before ++ after), p.payload ≠ [] := by
    intro p hp
    obtain ⟨x, hx, hdata, rfl⟩ := mem_dataOf.mp hp
    have hmem : x ∈ before ++ fin :: after := by
      rw [List.mem_append] at hx ⊢
      exact hx.imp_right (List.mem_cons_of_mem _)
    simp only [Arrival.isData, Bool.and_eq_true, decide_eq_true_eq] at hdata
    exact payload_ne_of_int16 (hshort x hmem).1 (hshort x hmem).2 hdata.2
  have hs : Book.Sound B h.lastTimeOutCheck c Book.empty (before ++ fin :: after) := by
    refine ⟨fun l hl => absurd hl (by simp [Book.ledgers, Book.empty]), he,
      Book.filesAlong_and _ hcount (Book.filesAlong_of_accepts (fun x hx l hacc => ?_) _)⟩
    simp only [Traced.accepts, Bool.and_eq_true, decide_eq_true_eq] at hacc
    exact payload_ne_of_int16 (hshort x hx).1 (hshort x hx).2 hacc.2
  rw [decoded_iff hr.wf habsent hs]
  constructor
  · rintro ⟨k, hk, hreq, hrsp⟩
    exact ht.gathersAlong hs hdrops hdata hk hreq hrsp
  · rintro ⟨hnone, hg⟩
    have hbefore : ∀ p ∈ dataOf c before, p.payload ≠ [] := fun p hp => hdata p (by
      rw [dataOf_append]
      exact List.mem_append_left _ hp)
    obtain ⟨k, hk, hfiled⟩ := ht.handed_of_gathersAlong hs hdrops hbefore hg
    refine ⟨k, hk, by rw [hfiled], ?_⟩
    rw [hfiled, streamOf_append, List.nil_append, hnone, List.append_nil]

/-! ## Ordinary exchanges -/

section Ordinary

variable {client server : Endpoint}

/-- The bytes of packets that all go the same way. -/
theorem bytesOf_oneWay {xs : List Arrival} {d : Bool} (h : ∀ x ∈ xs, x.packet.toServer = d) :
    requestOf (xs.map Arrival.packet) = (if d then bytesOf xs else []) ∧
      responseOf (xs.map Arrival.packet) = if d then [] else bytesOf xs := by
  induction xs with
  | nil => cases d <;> exact ⟨rfl, rfl⟩
  | cons x xs ih =>
    obtain ⟨hreq, hrsp⟩ := ih fun y hy => h y (List.mem_cons_of_mem _ hy)
    rw [List.map_cons, ← List.singleton_append, requestOf_append, responseOf_append,
      requestOf_single, responseOf_single, h x List.mem_cons_self, hreq, hrsp, bytesOf_cons]
    cases d <;> exact ⟨rfl, rfl⟩

/-- The data segments of a connection that carries one exchange. -/
theorem Exchange.Between.dataOf_eq {e : Exchange} (he : e.Between client server)
    {xs : List Arrival}
    (htrace : (xs.filter fun x => x.packet.conn = s(client, server)) = e.segments) :
    dataOf s(client, server) xs = e.segments.map Arrival.packet := by
  have hdata : ∀ x ∈ e.segments,
      (!x.packet.closes && decide (x.packet.dataLen ≠ 0)) = true := by
    intro x hx
    rw [Bool.and_eq_true, Bool.not_eq_true', decide_eq_true_eq]
    rcases List.mem_append.mp hx with hx | hx
    · exact ⟨(he.request_to x hx).opens, ne_of_gt (he.request_to x hx).pos⟩
    · exact ⟨(he.response_to x hx).opens, ne_of_gt (he.response_to x hx).pos⟩
  rw [← List.filter_eq_self.mpr hdata, ← htrace, List.filter_filter, dataOf]
  refine congrArg (List.map Arrival.packet) (List.filter_congr fun x _ => ?_)
  rw [Arrival.isData, Bool.and_assoc, Bool.and_comm]

/-- They have payload. -/
theorem Exchange.Between.payload_ne {e : Exchange} (he : e.Between client server) :
    ∀ p ∈ e.segments.map Arrival.packet, p.payload ≠ [] := by
  intro p hp
  obtain ⟨x, hx, rfl⟩ := List.mem_map.mp hp
  rcases List.mem_append.mp hx with hx | hx
  · exact (he.request_to x hx).payload_ne
  · exact (he.response_to x hx).payload_ne

/-- Their bytes are the request and the response. -/
theorem Exchange.Between.bytes_eq (hport : server.port = 80) (hport' : client.port ≠ 80)
    {e : Exchange} (he : e.Between client server) :
    requestOf (e.segments.map Arrival.packet) = bytesOf e.request ∧
      responseOf (e.segments.map Arrival.packet) = bytesOf e.response := by
  obtain ⟨hreq, hrsp⟩ := bytesOf_oneWay fun x hx =>
    show x.packet.toServer = true from decide_eq_true (by rw [(he.request_to x hx).dst, hport])
  obtain ⟨hreq', hrsp'⟩ := bytesOf_oneWay fun x hx =>
    show x.packet.toServer = false from decide_eq_false (by rwa [(he.response_to x hx).dst])
  rw [Exchange.segments, List.map_append, requestOf_append, responseOf_append, hreq, hrsp, hreq',
    hrsp']
  exact ⟨List.append_nil _, rfl⟩

/-- After the segments of an exchange the session in the books shows it, if no two in a row
have the same number, no sweep is due and every request for memory is granted. -/
theorem books_of_exchange (B : Boost) {last : Int} (hport : server.port = 80)
    (hport' : client.port ≠ 80) {e : Exchange} (he : e.Between client server)
    {xs : List Arrival} {n : UInt32}
    (htrace : (xs.filter fun x => x.packet.conn = s(client, server)) = e.segments)
    (hinit : ∀ x ∈ e.segments.head?, x.env.new.seqNo = n) (hfresh : Fresh n e.segments)
    (hgrant : ∀ x ∈ e.segments, x.env.Granted)
    (hquiet : ∀ x ∈ xs, x.env.timeCheck - last < timeoutCheckDur) :
    ∃ l, (Book.run B last s(client, server) Book.empty xs).current = some l ∧
      l.ses.reqBuf.contents = bytesOf e.request ∧ l.ses.rspBuf.contents = bytesOf e.response := by
  obtain ⟨x, ys, hcons⟩ : ∃ x ys, e.segments = x :: ys := by
    obtain ⟨x, ys, hreq⟩ := List.exists_cons_of_ne_nil he.request_ne
    exact ⟨x, ys ++ e.response, by rw [Exchange.segments, hreq, List.cons_append]⟩
  have hx : x.packet.conn = s(client, server) := by
    have hmem : x ∈ xs.filter fun x => x.packet.conn = s(client, server) := by
      rw [htrace, hcons]
      exact List.mem_cons_self
    simpa using (List.mem_filter.mp hmem).2
  -- the flow that the first segment opens
  have hseq : (firstFlow x).seqNo = n := hinit x (by rw [hcons]; rfl)
  obtain ⟨g, out, hrun, -, hcontent, -, hcount⟩ := run_exchange hport hport' he
    (f := firstFlow x) (Or.inl ⟨rfl, rfl⟩) (hseq.symm ▸ hfresh)
  have hstart : runArrivals s(client, server) none e.segments = (some g, out) := by
    rw [← hrun, hcons, runArrivals_cons, arrive_none hx, ← runArrivals_cons]
  have hfits : Countable s(client, server) none e.segments := by
    rw [hcons] at hcount ⊢
    rw [countable_cons, arrive_none hx, ← countable_cons]
    exact hcount
  have hflow : ((connMachine B last s(client, server)).run none (xs.map Arrival.call)).1.map
      CSession.flow = some g :=
    (connMachine_arrivals B htrace hquiet hgrant (o := none) (by simp) hfits).flow.trans
      (congrArg Prod.fst hstart)
  -- the session in the books is the one of the machine
  have hview : (Book.run B last s(client, server) Book.empty xs).current.map Ledger.ses =
      ((connMachine B last s(client, server)).run none (xs.map Arrival.call)).1 :=
    (bookMachine_view B last s(client, server) (xs.map Arrival.call) Book.empty).1
  rw [← hview, Option.map_map] at hflow
  obtain ⟨l, hl, hlg⟩ := Option.map_eq_some_iff.mp hflow
  obtain ⟨hreq, hrsp⟩ := Prod.mk.inj hcontent
  exact ⟨l, hl, (congrArg Flow.req hlg).trans hreq, (congrArg Flow.rsp hlg).trans hrsp⟩

/-- **An ordinary exchange is gathered**: the segments of the request come before those of
the response, none is sent again, no two in a row have the same number, no sweep is due and
every request for memory is granted. -/
theorem gathersAlong_of_exchange (B : Boost) {last : Int} (hport : server.port = 80)
    (hport' : client.port ≠ 80) {e : Exchange} (he : e.Between client server)
    {xs : List Arrival} {n : UInt32}
    (htrace : (xs.filter fun x => x.packet.conn = s(client, server)) = e.segments)
    (honce : (e.segments.map Arrival.packet).Pairwise fun p q => ¬ SameSegment p q)
    (hinit : ∀ x ∈ e.segments.head?, x.env.new.seqNo = n) (hfresh : Fresh n e.segments)
    (hs : Book.Sound B last s(client, server) Book.empty xs)
    (hgrant : ∀ x ∈ e.segments, x.env.Granted)
    (hquiet : ∀ x ∈ xs, x.env.timeCheck - last < timeoutCheckDur) :
    Book.DropsAlong B last s(client, server) [] Book.empty xs ∧
      Book.GathersAlong B last s(client, server) [] Book.empty xs := by
  obtain ⟨l, hl, hreq, hrsp⟩ :=
    books_of_exchange B hport hport' he htrace hinit hfresh hgrant hquiet
  have hsolid := Book.solid_run hs l (List.mem_append_right _ (Option.mem_toList.mpr hl))
  obtain ⟨hreqs, hrsps⟩ := he.bytes_eq hport hport'
  have hdata := he.dataOf_eq htrace
  rw [← hdata] at honce
  have hdrops : Book.DropsAlong B last s(client, server) [] Book.empty xs :=
    Book.dropsAlong_of_pairwise honce
  have hstream : streamOf s(client, server) [] xs = e.segments.map Arrival.packet := by
    rw [streamOf_of_pairwise honce, hdata]
  have hwaiting : (Book.run B last s(client, server) Book.empty xs).waiting = l.since := by
    rw [Book.waiting, hl]
    rfl
  have hsub : l.since.Sublist (e.segments.map Arrival.packet) := by
    rw [← hwaiting, ← hstream]
    exact Book.waiting_run_sublist hs hdrops
  have hsince : l.since = e.segments.map Arrival.packet := by
    apply eq_of_sublist_of_bytes hsub he.payload_ne
    · rw [hreqs, ← hsolid.balanced.since.req, hreq]
    · rw [hrsps, ← hsolid.balanced.since.rsp, hrsp]
  have hall : Book.GathersAlong B last s(client, server) [] Book.empty (xs ++ []) := by
    apply Book.gathersAlong_of_length hs hdrops rfl
    rw [hwaiting, hsince, hstream]
    exact le_refl _
  rw [List.append_nil] at hall
  exact ⟨hdrops, hall⟩

end Ordinary

/-! ## Two closes -/

/-- The request of the client. -/
def halfRequest : Arrival := arrival ⟨1, 1000⟩ ⟨2, 80⟩ 6 (getRoot crlf ++ crlf) false

/-- The status line of the response. -/
def firstHalf : Arrival :=
  arrival ⟨2, 80⟩ ⟨1, 1000⟩ 9
    (httpSlash ++ ascii ['1', '.', '1', ' ', '2', '0', '0', ' ', 'O', 'K'] ++ crlf) false

/-- The FIN of the client. -/
def halfFin : Arrival := arrival ⟨1, 1000⟩ ⟨2, 80⟩ 7 [] true

/-- The empty line of the response. -/
def secondHalf : Arrival := arrival ⟨2, 80⟩ ⟨1, 1000⟩ 26 crlf false

/-- The FIN of the server. -/
def otherFin : Arrival := arrival ⟨2, 80⟩ ⟨1, 1000⟩ 28 [] true

/-- The whole response before the FIN of the client, a segment of either side being sent
again. -/
def inTime : List Arrival :=
  [halfRequest, halfRequest, firstHalf, secondHalf, secondHalf]

theorem halfClosed_iff_inTime :
    Decoded Boost.decimal (init blankSes 0) s(⟨1, 1000⟩, ⟨2, 80⟩) (inTime ++ halfFin :: [otherFin])
        (requestOf (streamOf s(⟨1, 1000⟩, ⟨2, 80⟩) [] inTime))
        (responseOf (streamOf s(⟨1, 1000⟩, ⟨2, 80⟩) [] (inTime ++ [otherFin]))) ↔
      streamOf s(⟨1, 1000⟩, ⟨2, 80⟩) (dataOf s(⟨1, 1000⟩, ⟨2, 80⟩) inTime) [otherFin] = [] ∧
        Book.GathersAlong Boost.decimal 0 s(⟨1, 1000⟩, ⟨2, 80⟩) [] Book.empty inTime := by
  have ht : HalfClosed s(⟨1, 1000⟩, ⟨2, 80⟩) inTime halfFin [otherFin] := by
    refine ⟨by decide, by decide, by decide, by decide, ?_⟩
    decide +kernel
  have hgrant : ∀ x ∈ inTime ++ halfFin :: [otherFin], x.env.Granted := by
    simp [inTime, halfRequest, firstHalf, secondHalf, halfFin, otherFin, arrival,
      Env.granted_granting]
  have hcount : payloadBytes ((inTime ++ halfFin :: [otherFin]).map Arrival.call) < 2 ^ 32 := by
    decide +kernel
  exact halfClosed_iff Boost.decimal ⟨blankSes, 0, [], rfl⟩ (CSessionHashTable.session_init ..) ht
    (by decide +kernel) (fun x hx => (hgrant x hx).toResets) (by decide)
    (countable_of_payload Boost.decimal 0 _ Book.typed_empty
      (by simpa [Book.held, Book.empty] using hcount))

/-- What `Parse` is given during a run from `Init`. -/
def shownToParse (xs : List Arrival) : List (Bytes × Bytes) :=
  ((handleMachine Boost.decimal).run (init blankSes 0) (xs.map Arrival.call)).2.map fun k =>
    (k.ses.reqBuf.contents, k.ses.rspBuf.contents)

/-- The second half of the response after the FIN of the client: no call of `Parse` gets both
halves. -/
theorem not_decoded_halfClosed :
    HalfClosed s(⟨1, 1000⟩, ⟨2, 80⟩) [halfRequest, firstHalf] halfFin [secondHalf, otherFin] ∧
    ¬ Decoded Boost.decimal (init blankSes 0) s(⟨1, 1000⟩, ⟨2, 80⟩)
      ([halfRequest, firstHalf] ++ halfFin :: [secondHalf, otherFin]) halfRequest.packet.payload
      (firstHalf.packet.payload ++ secondHalf.packet.payload) := by
  have hshown : shownToParse [halfRequest, firstHalf, halfFin, secondHalf, otherFin] =
      [(halfRequest.packet.payload, firstHalf.packet.payload),
        ([], secondHalf.packet.payload)] := by
    decide +kernel
  refine ⟨⟨by decide, by decide, by decide, by decide +kernel, by decide +kernel⟩, ?_⟩
  rintro ⟨k, hk, -, hreq, hrsp⟩
  have hmem : (k.ses.reqBuf.contents, k.ses.rspBuf.contents) ∈
      shownToParse [halfRequest, firstHalf, halfFin, secondHalf, otherFin] :=
    List.mem_map_of_mem hk
  rw [hshown, hreq, hrsp] at hmem
  exact absurd hmem (by decide +kernel)

end HttpDecoder
