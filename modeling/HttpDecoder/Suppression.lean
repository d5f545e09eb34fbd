import HttpDecoder.Trace

/-!
# One number for two directions

A session keeps one sequence number, that of the packet filed last, whichever end
sent it.  To compare that with what each direction has sent, the machine of a
connection is run with a record of the packets it accepted (`Traced`).

* `tracedMachine_view` — the record does not disturb the machine.
* `Traced.seqNo_eq` — the number a session keeps is that of the last packet of the
  record.
* `Isolated` — the peer's packets play no part in what happens to a packet.
* `isolated_iff` — **when that is so**.
-/

namespace HttpDecoder

open CLib CHandle

/-! ## The machine with its record -/

/-- A session with the packets it accepted. -/
structure Traced where
  ses : CSession
  /-- What the memory of `SeqNo` held when the session was created. -/
  initial : UInt32
  /-- Sender and number of the packets filed since then, the oldest first. -/
  history : List (Endpoint × UInt32)

namespace Traced

/-- The packet passes the tests of `Process` and is filed. -/
def accepts (p : CFormatPacket) (s : CSession) : Bool :=
  !p.closes && !repeated p s && decide (p.dataLen ≠ 0)

theorem accepts_iff {p : CFormatPacket} {s : CSession} :
    accepts p s = true ↔ p.closes = false ∧ s.seqNo ≠ p.seqNo ∧ p.dataLen ≠ 0 := by
  unfold accepts repeated
  simp [and_assoc]

/-- A packet that passes the tests is filed. -/
theorem serve_of_accepts {B : Boost} {x : Call} {info : CSharedBehaviorInfo} {s : CSession}
    (h : accepts x.packet s = true) : CHandle.serve B x info s =
      (some (processData B x.env x.packet info.matchWay s).ses,
        (processData B x.env x.packet info.matchWay s).calls) := by
  obtain ⟨hopen, hnew, hdata⟩ := accepts_iff.mp h
  exact serve_filed hopen hdata (decide_eq_false hnew)

/-- Any other packet that closes nothing leaves the session as it is. -/
theorem serve_of_not_accepts {B : Boost} {x : Call} {info : CSharedBehaviorInfo} {s : CSession}
    (hopen : x.packet.closes = false) (h : accepts x.packet s = false) :
    CHandle.serve B x info s = (some s, []) := by
  unfold accepts at h
  rcases served_cases x.packet s with hclose | ⟨-, hdrop⟩ | ⟨-, hdata, hnew⟩
  · rw [hopen] at hclose
    cases hclose
  · exact serve_left hopen hdrop
  · simp [hopen, hdata, hnew] at h

/-- The session is opened, with an empty record if it is new. -/
def opened (x : Call) (info : CSharedBehaviorInfo) : Option Traced → Traced
  | some t => { t with ses := CHandle.opened x info (some t.ses) }
  | none => ⟨CHandle.opened x info none, x.env.new.seqNo, []⟩

/-- The sweep keeps the record. -/
def sweep (B : Boost) (e : Env) (reach : Nat) (o : Option Traced) : Option Traced :=
  o.bind fun t => (sweepConn B e reach (some t.ses)).1.map fun s => { t with ses := s }

/-- Serving a packet adds it to the record if it is filed. -/
def serve (B : Boost) (x : Call) (info : CSharedBehaviorInfo) (t : Traced) : Option Traced :=
  (CHandle.serve B x info t.ses).1.map fun s =>
    { t with
      ses := s
      history := if accepts x.packet t.ses then t.history ++ [(x.packet.src, x.packet.seqNo)]
        else t.history }

/-- One call of `Process` as connection `c` sees it, with the record. -/
def step (B : Boost) (last : Int) (c : Conn) (o : Option Traced) (x : Call) : Option Traced :=
  let o₁ := sweep B x.env (sweepReach last x.env) o
  match x.info with
  | none => o₁
  | some info => if x.packet.conn = c then serve B x info (opened x info o₁) else o₁

theorem opened_ses (x : Call) (info : CSharedBehaviorInfo) (o : Option Traced) :
    (opened x info o).ses = CHandle.opened x info (o.map Traced.ses) := by
  cases o <;> rfl

theorem sweep_ses (B : Boost) (e : Env) (reach : Nat) (o : Option Traced) :
    (sweep B e reach o).map Traced.ses = (sweepConn B e reach (o.map Traced.ses)).1 := by
  cases o with
  | none => rfl
  | some t =>
    show ((sweepConn B e reach (some t.ses)).1.map _).map _ = _
    rw [Option.map_map]
    exact congrFun Option.map_id _

theorem serve_ses (B : Boost) (x : Call) (info : CSharedBehaviorInfo) (t : Traced) :
    (serve B x info t).map Traced.ses = (CHandle.serve B x info t.ses).1 := by
  unfold serve
  rw [Option.map_map]
  exact congrFun Option.map_id _

/-- Forgetting the record gives the step of the connection. -/
theorem step_ses (B : Boost) (last : Int) (c : Conn) (o : Option Traced) (x : Call) :
    (step B last c o x).map Traced.ses = (connStep B last c (o.map Traced.ses) x).1 := by
  have hsweep := sweep_ses B x.env (sweepReach last x.env) o
  unfold step connStep
  cases x.info with
  | none => exact hsweep
  | some info =>
    by_cases hc : x.packet.conn = c
    · simp only [if_pos hc]
      rw [serve_ses, opened_ses, hsweep]
    · simp only [if_neg hc]
      exact hsweep

end Traced

/-- The machine of connection `c` with its record. -/
def tracedMachine (B : Boost) (last : Int) (c : Conn) :
    Machine (Option Traced) Call (CSession × Option Record) where
  step o x := (Traced.step B last c o x, (connStep B last c (o.map Traced.ses) x).2)

/-- **The record does not disturb the machine.** -/
theorem tracedMachine_view (B : Boost) (last : Int) (c : Conn) (xs : List Call)
    (o : Option Traced) : ((tracedMachine B last c).run o xs).1.map Traced.ses =
      ((connMachine B last c).run (o.map Traced.ses) xs).1 := by
  refine ((tracedMachine B last c).run_view (connMachine B last c) (Option.map Traced.ses) some
    (I := fun _ => True) (A := fun _ => True) (fun _ _ _ _ => trivial) ?_ ?_ xs o trivial
      fun _ _ => trivial).1
  · intro o x _ _
    exact Traced.step_ses B last c o x
  · intro o x _ _
    exact List.filterMap_some

/-! ## The number a session keeps -/

namespace Traced

/-- The number of the last packet of the record, or the initial one. -/
def lastNumber (t : Traced) : UInt32 :=
  (t.history.getLast?.map Prod.snd).getD t.initial

/-- The session keeps that number. -/
def Agrees (t : Traced) : Prop := t.ses.seqNo = t.lastNumber

theorem sweptSes_seqNo (B : Boost) (e : Env) (s : CSession) : (sweptSes B e s).seqNo = s.seqNo := by
  unfold sweptSes
  split
  · rw [parse_fst]
    rfl
  · rfl

theorem processData_seqNo (B : Boost) (e : Env) (p : CFormatPacket) (way : UInt32)
    (s : CSession) : (processData B e p way s).ses.seqNo = p.seqNo := by
  have hfull : ∀ s₀ : CSession, (parseFull B e.parse s₀).1.seqNo = s₀.seqNo := by
    intro s₀
    unfold parseFull
    split
    · rw [parse_fst]
      rfl
    · rfl
  unfold processData
  generalize hs₀ : s.setSeq p.seqNo p.ackSeqNo = s₀
  have h₀ : s₀.seqNo = p.seqNo := by rw [← hs₀, CSession.setSeq_seqNo]
  rw [← h₀]
  split
  · rfl
  split
  · exact (stampRequest_fields p _).2.2.1.trans (hfull _)
  split
  · exact (stampResponse_fields p _).2.2.1
  · rfl

theorem sweepConn_seqNo (B : Boost) (e : Env) (reach : Nat) (s : CSession) :
    ∀ s' ∈ (sweepConn B e reach (some s)).1, s'.seqNo = s.seqNo := by
  intro s' hs'
  rcases sweepConn_cases B e reach s s' hs' with rfl | rfl
  · exact sweptSes_seqNo B e s
  · rfl

theorem Agrees.sweep {B : Boost} {e : Env} {reach : Nat} {o : Option Traced}
    (h : ∀ t ∈ o, t.Agrees) : ∀ t ∈ Traced.sweep B e reach o, t.Agrees := by
  intro t' ht'
  obtain ⟨t, ht, hmap⟩ := Option.bind_eq_some_iff.mp ht'
  obtain ⟨s, hs, rfl⟩ := Option.map_eq_some_iff.mp hmap
  exact (sweepConn_seqNo B e reach t.ses s hs).trans (h t ht)

theorem Agrees.opened {x : Call} {info : CSharedBehaviorInfo} {o : Option Traced}
    (h : ∀ t ∈ o, t.Agrees) : (Traced.opened x info o).Agrees := by
  cases o with
  | none =>
    show (CSessionHashTable.newSession ..).seqNo = x.env.new.seqNo
    unfold CSessionHashTable.newSession
    split <;> rfl
  | some t => exact h t rfl

/-- A packet that is not filed leaves the session as it is. -/
theorem serve_dropped {B : Boost} {x : Call} {info : CSharedBehaviorInfo} {t : Traced}
    (hopen : x.packet.closes = false) (h : accepts x.packet t.ses = false) :
    Traced.serve B x info t = some t := by
  unfold Traced.serve
  rw [serve_of_not_accepts hopen h, h]
  rfl

/-- A packet that is filed joins the record. -/
theorem serve_accepted {B : Boost} {x : Call} {info : CSharedBehaviorInfo} {t : Traced}
    (h : accepts x.packet t.ses = true) :
    Traced.serve B x info t = some ⟨(processData B x.env x.packet info.matchWay t.ses).ses,
      t.initial, t.history ++ [(x.packet.src, x.packet.seqNo)]⟩ := by
  unfold Traced.serve
  rw [serve_of_accepts h, h]
  rfl

theorem serve_closes {B : Boost} {x : Call} {info : CSharedBehaviorInfo} {t : Traced}
    (h : x.packet.closes = true) : Traced.serve B x info t = none := by
  unfold Traced.serve
  rw [serve_closing h]
  rfl

theorem Agrees.serve {B : Boost} {x : Call} {info : CSharedBehaviorInfo} {t : Traced}
    (h : t.Agrees) : ∀ t' ∈ Traced.serve B x info t, t'.Agrees := by
  intro t' ht'
  cases hclose : x.packet.closes with
  | true =>
    rw [serve_closes hclose] at ht'
    exact absurd ht' (by simp)
  | false =>
    cases hacc : accepts x.packet t.ses with
    | false =>
      rw [serve_dropped hclose hacc] at ht'
      exact Option.mem_some_iff.mp ht' ▸ h
    | true =>
      rw [serve_accepted hacc] at ht'
      rw [← Option.some.inj ht']
      show (processData ..).ses.seqNo = ((t.history ++ [(x.packet.src, x.packet.seqNo)]).getLast?.map _).getD _
      rw [processData_seqNo, List.getLast?_concat]
      rfl

theorem Agrees.step {B : Boost} {last : Int} {c : Conn} {o : Option Traced} {x : Call}
    (h : ∀ t ∈ o, t.Agrees) : ∀ t ∈ Traced.step B last c o x, t.Agrees := by
  unfold Traced.step
  cases x.info with
  | none => exact Agrees.sweep h
  | some info =>
    by_cases hc : x.packet.conn = c
    · simp only [if_pos hc]
      exact Agrees.serve (Agrees.opened (Agrees.sweep h))
    · simp only [if_neg hc]
      exact Agrees.sweep h

/-- Along every run the session keeps the number of the last packet it accepted. -/
theorem agrees_run (B : Boost) (last : Int) (c : Conn) (xs : List Call) :
    ∀ t ∈ ((tracedMachine B last c).run none xs).1, t.Agrees :=
  (tracedMachine B last c).run_invariant (I := fun o => ∀ t ∈ o, t.Agrees)
    (A := fun _ => True) (fun _ _ ho _ => Agrees.step ho) xs none
    (fun _ ht => absurd ht (by simp)) fun _ _ => trivial

/-! ## One direction and the other -/

section Directions

variable (t : Traced) (p : CFormatPacket)

/-- The part of the record that came from the sender of a packet. -/
def own : List (Endpoint × UInt32) := t.history.filter fun q => q.1 = p.src

/-- The last number accepted from the sender of a packet. -/
def lastOwn : Option UInt32 := (t.own p).getLast?.map Prod.snd

/-- The last packet accepted came from the sender of this one; or it came from the peer
and its number says the same about this packet as the last number of the sender does;
or there was none, and the initial number is another one. -/
structure Undisturbed : Prop where
  /-- Nothing was accepted yet. -/
  first : t.history = [] → t.initial ≠ p.seqNo
  /-- A packet was accepted last. -/
  later : ∀ q ∈ t.history.getLast?,
    q.1 = p.src ∨ (q.2 = p.seqNo ↔ t.lastOwn p = some p.seqNo)

/-- That is, the number of the session stands for the last one of the sender. -/
theorem undisturbed_iff :
    t.Undisturbed p ↔ (t.lastNumber = p.seqNo ↔ t.lastOwn p = some p.seqNo) := by
  rcases List.eq_nil_or_concat t.history with hnil | ⟨l, q, hq⟩
  · have hlast : t.lastNumber = t.initial := by rw [lastNumber, hnil]; rfl
    have hown : t.lastOwn p = none := by rw [lastOwn, own, hnil]; rfl
    rw [hlast, hown]
    constructor
    · intro h
      exact iff_of_false (h.first hnil) (by simp)
    · intro h
      refine ⟨fun _ hinit => absurd (h.mp hinit) (by simp), fun q hq => ?_⟩
      rw [hnil] at hq
      exact absurd hq (by simp)
  · rw [List.concat_eq_append] at hq
    have hlast : t.lastNumber = q.2 := by rw [lastNumber, hq, List.getLast?_concat]; rfl
    have hne : t.history ≠ [] := by rw [hq]; simp
    have hmem : ∀ r, r ∈ t.history.getLast? ↔ r = q := by
      intro r
      rw [hq, List.getLast?_concat, Option.mem_some_iff, eq_comm]
    rw [hlast]
    by_cases hsrc : q.1 = p.src
    · have hown : t.lastOwn p = some q.2 := by
        rw [lastOwn, own, hq, List.filter_append, List.filter_cons_of_pos (by simpa using hsrc),
          List.filter_nil, List.getLast?_concat]
        rfl
      rw [hown, Option.some_inj]
      exact ⟨fun _ => Iff.rfl, fun _ => ⟨fun h => absurd h hne,
        fun r hr => Or.inl ((hmem r).mp hr ▸ hsrc)⟩⟩
    · constructor
      · intro h
        exact (h.later q ((hmem q).mpr rfl)).resolve_left hsrc
      · intro h
        exact ⟨fun h => absurd h hne, fun r hr => Or.inr ((hmem r).mp hr ▸ h)⟩

end Directions

end Traced

/-- `Append` is called for the payload of a packet, on the buffer for its direction or,
when a finished exchange was parsed first, on that buffer after its `Reset`. -/
def AppendsPayload (x : Arrival) (s s' : CSession) : Prop :=
  if x.packet.dst.port = 80 then
    ∃ b, (b = s.reqBuf ∨ b = s.reqBuf.reset x.env.parse.reset.req) ∧
      s'.reqBuf = (b.append x.env.append (some x.packet.data) x.packet.dataSize).2
  else
    s'.rspBuf = (s.rspBuf.append x.env.append (some x.packet.data) x.packet.dataSize).2

theorem processData_appends (B : Boost) (x : Arrival) (s : CSession) :
    AppendsPayload x s (processData B x.env x.packet (behavior x.packet).matchWay s).ses := by
  have hreq₀ : (s.setSeq x.packet.seqNo x.packet.ackSeqNo).reqBuf = s.reqBuf := s.setSeq_reqBuf _ _
  have hrsp₀ : (s.setSeq x.packet.seqNo x.packet.ackSeqNo).rspBuf = s.rspBuf := s.setSeq_rspBuf _ _
  have hreq : ∀ s, (stampRequest x.packet s).reqBuf = s.reqBuf :=
    fun s => (stampRequest_fields x.packet s).2.2.2.1
  have hrsp : ∀ s, (stampResponse x.packet s).rspBuf = s.rspBuf :=
    fun s => (stampResponse_fields x.packet s).2.2.2.2
  unfold AppendsPayload
  by_cases hport : x.packet.dst.port = 80
  · rw [if_pos hport, processData_of_port B hport]
    generalize s.setSeq x.packet.seqNo x.packet.ackSeqNo = s₀ at hreq₀ ⊢
    refine ⟨(parseFull B x.env.parse s₀).1.reqBuf, ?_, ?_⟩
    · unfold parseFull
      split
      · right
        rw [parse_fst, ← hreq₀]
        rfl
      · left
        exact hreq₀
    · unfold CHandle.appendRequest
      simp only [hreq]
  · rw [if_neg hport, processData_of_port_ne B hport]
    unfold CHandle.appendResponse
    simp only [hrsp, hrsp₀]

/-- What happens to a data packet is settled by the packets of its own direction: it is
dropped exactly if its number is the last one accepted from its sender, and it is
filed if its number was never accepted from its sender.  `h'` is the handle after
the packet, `t` the session it met. -/
structure Isolated (h' : CHandle) (x : Arrival) (t : Traced) : Prop where
  /-- Dropped means that the session stays as it was. -/
  dropped_iff : h'.sesHash.session x.packet.conn = some t.ses ↔
    t.lastOwn x.packet = some x.packet.seqNo
  /-- A number that is new in its direction is filed. -/
  fresh_filed : (∀ q ∈ t.own x.packet, q.2 ≠ x.packet.seqNo) →
    ∃ s', h'.sesHash.session x.packet.conn = some s' ∧ AppendsPayload x t.ses s'

/-- A data packet and the session it meets. -/
theorem isolated_iff_undisturbed {B : Boost} {h' : CHandle} {x : Arrival} {t : Traced}
    (hopen : x.packet.closes = false) (hdata : x.packet.dataLen ≠ 0) (ht : t.Agrees)
    (hafter : h'.sesHash.session x.packet.conn =
      (CHandle.serve B x.call (behavior x.packet) t.ses).1) :
    Isolated h' x t ↔ t.Undisturbed x.packet := by
  have hnumber : repeated x.packet t.ses = true ↔ t.lastNumber = x.packet.seqNo := by
    rw [← ht]
    exact decide_eq_true_iff
  unfold CHandle.serve at hafter
  rw [Arrival.call_packet, if_neg (by simp [hopen])] at hafter
  rw [Traced.undisturbed_iff]
  by_cases hrep : t.lastNumber = x.packet.seqNo
  · -- the packet is dropped
    rw [if_pos (hnumber.mpr hrep)] at hafter
    constructor
    · intro h
      exact iff_of_true hrep (h.dropped_iff.mp hafter)
    · intro h
      refine ⟨iff_of_true hafter (h.mp hrep), fun hfresh => ?_⟩
      obtain ⟨q, hq, hqseq⟩ := Option.map_eq_some_iff.mp (h.mp hrep)
      exact absurd hqseq (hfresh q (List.mem_of_mem_getLast? hq))
  · -- the packet is filed
    rw [if_neg (hnumber.not.mpr hrep), if_neg hdata] at hafter
    have hchanged : h'.sesHash.session x.packet.conn ≠ some t.ses := by
      rw [hafter]
      intro heq
      have hseq := congrArg CSession.seqNo (Option.some.inj heq)
      rw [Traced.processData_seqNo] at hseq
      exact hrep (ht.symm.trans hseq.symm)
    constructor
    · intro h
      exact iff_of_false hrep (h.dropped_iff.not.mp hchanged)
    · intro h
      exact ⟨iff_of_false hchanged (h.not.mp hrep),
        fun _ => ⟨_, hafter, processData_appends B x t.ses⟩⟩

/-- The session a packet meets after the calls `xs`, with its record. -/
def met (B : Boost) (now : Int) (xs : List Arrival) (x : Arrival) : Traced :=
  Traced.opened x.call (behavior x.packet) (Traced.sweep B x.env (sweepReach now x.env)
    ((tracedMachine B now x.packet.conn).run none (xs.map Arrival.call)).1)

section Met

variable (B : Boost) (ses : Nat → CSession) (now : Int) (xs : List Arrival) (x : Arrival)

/-- The handle after the calls `xs`. -/
def handleAfter : CHandle := ((handleMachine B).run (init ses now) (xs.map Arrival.call)).1

theorem handleAfter_wf : (handleAfter B ses now xs).sesHash.WF :=
  Reachable.wf ⟨ses, now, xs.map Arrival.call, rfl⟩

/-- It is the session `Process` works on. -/
theorem met_ses : (met B now xs x).ses = CHandle.opened x.call (behavior x.packet)
    (sweepConn B x.env (sweepReach now x.env)
      ((handleAfter B ses now xs).sesHash.session x.packet.conn)).1 := by
  have hses : (handleAfter B ses now xs).sesHash.session x.packet.conn =
      (((tracedMachine B now x.packet.conn).run none (xs.map Arrival.call)).1).map Traced.ses := by
    rw [tracedMachine_view]
    exact (run_conn B (h := init ses now) (CSessionHashTable.wf_init ses) _ _).1
  rw [met, Traced.opened_ses, Traced.sweep_ses, hses]

theorem met_agrees : (met B now xs x).Agrees :=
  Traced.Agrees.opened (Traced.Agrees.sweep (Traced.agrees_run B now _ _))

/-- What the packet makes of it is what the table holds afterwards. -/
theorem process_met :
    ((handleAfter B ses now xs).process B x.call).handle.sesHash.session x.packet.conn =
      (CHandle.serve B x.call (behavior x.packet) (met B now xs x).ses).1 := by
  have hlast : (handleAfter B ses now xs).lastTimeOutCheck = now :=
    run_lastTimeOutCheck B (CSessionHashTable.wf_init ses) _
  rw [((process_conn B (handleAfter_wf B ses now xs) x.call).2.2 x.packet.conn).1, hlast,
    met_ses B ses]
  unfold connStep
  simp only [Arrival.call_info, Arrival.call_packet, Arrival.call_env, if_pos]

end Met

/-- **When the directions do not disturb each other.**  After any run from `Init`, with
any packets, clocks and answers of the allocator: what happens to a data packet is
settled by its own direction exactly if the last packet the session accepted came
from the same end, or says the same about the packet as the last one from that end
does. -/
theorem isolated_iff (B : Boost) (ses : Nat → CSession) (now : Int) (xs : List Arrival)
    {x : Arrival} (hopen : x.packet.closes = false) (hdata : x.packet.dataLen ≠ 0) :
    let h := handleAfter B ses now xs
    (met B now xs x).ses = CHandle.opened x.call (behavior x.packet)
        (sweepConn B x.env (sweepReach now x.env) (h.sesHash.session x.packet.conn)).1 ∧
      (Isolated (h.process B x.call).handle x (met B now xs x) ↔
        (met B now xs x).Undisturbed x.packet) :=
  ⟨met_ses B ses now xs x, isolated_iff_undisturbed (B := B) hopen hdata
    (met_agrees B now xs x) (process_met B ses now xs x)⟩

/-! ## Two streams that meet -/

/-- A response segment whose number is `n`. -/
def peerSegment (n : UInt32) : Arrival := arrival ⟨2, 80⟩ ⟨1, 1000⟩ n [72] false

/-- The first segment of the client. -/
def clientSegment : Arrival := arrival ⟨1, 1000⟩ ⟨2, 80⟩ 5 [71] false

theorem isolated_iff_peerSegment :
    Isolated ((handleAfter Boost.decimal blankSes 0 [peerSegment 6]).process Boost.decimal
        clientSegment.call).handle clientSegment
        (met Boost.decimal 0 [peerSegment 6] clientSegment) ↔
      (met Boost.decimal 0 [peerSegment 6] clientSegment).Undisturbed clientSegment.packet :=
  (isolated_iff Boost.decimal blankSes 0 [peerSegment 6] (x := clientSegment)
    (segment_closes ..) (by decide)).2

/-- The request bytes a run leaves on the connection of the two segments. -/
def requestAfter (xs : List Arrival) : Option Bytes :=
  ((handleAfter Boost.decimal blankSes 0 xs).sesHash.session s(⟨1, 1000⟩, ⟨2, 80⟩)).map
    fun s => s.reqBuf.contents

theorem not_isolated_peerSegment :
    ¬ Isolated ((handleAfter Boost.decimal blankSes 0 [peerSegment 5]).process Boost.decimal
        clientSegment.call).handle clientSegment
        (met Boost.decimal 0 [peerSegment 5] clientSegment) ∧
      requestAfter [peerSegment 5, clientSegment] = some [] ∧
      requestAfter [peerSegment 6, clientSegment] = some [71] := by
  refine ⟨fun h => ?_, by decide +kernel, by decide +kernel⟩
  have hagree := (isolated_iff_undisturbed (B := Boost.decimal) (segment_closes ..) (by decide)
    (met_agrees ..) (process_met ..)).mp h
  have hhistory : (met Boost.decimal 0 [peerSegment 5] clientSegment).history =
      [(⟨2, 80⟩, 5)] := by decide +kernel
  have hlast := hagree.later (⟨2, 80⟩, 5) (by rw [hhistory]; rfl)
  have hown : (met Boost.decimal 0 [peerSegment 5] clientSegment).lastOwn clientSegment.packet =
      none := by decide +kernel
  rw [hown] at hlast
  exact absurd hlast (by decide +kernel)

end HttpDecoder
