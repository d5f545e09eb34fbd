import HttpDecoder.Flow
import HttpDecoder.Segment

/-!
# Connections do not disturb each other

Two runs of the handle are compared: one over packets of any connections, one over
the packets of connection `c` alone.

* `Alike` — the calls that correspond to each other in the two runs.
* `isolation` — **session isolation**: both runs leave the same session for `c` and
  hand the same sessions of `c` to `Parse`, in the same order.

The clocks of the two runs may differ as long as no sweep is due.  The memory the
allocator hands out may differ too, when it answers every request and fewer than
`2 ^ 32` bytes of payload arrive on `c`.
-/

namespace HttpDecoder

open CLib CHandle

/-! ## Calls that correspond to each other -/

/-- The same packet with the same behaviour record, and the same numbers in the
memory of a new session. -/
structure Alike (x y : Call) : Prop where
  packet : x.packet = y.packet
  info : x.info = y.info
  seqNo : x.env.new.seqNo = y.env.new.seqNo
  ackSeqNo : x.env.new.ackSeqNo = y.env.new.ackSeqNo

/-- The allocator gives the same answers during the two calls. -/
structure SameHeap (x y : Call) : Prop where
  new : x.env.new = y.env.new
  append : x.env.append = y.env.append
  parse : x.env.parse = y.env.parse

/-! ## The same heap in both runs -/

/-- The session with other clock values. -/
def CSession.setTimes (s : CSession) (created refreshed : Int) : CSession :=
  { s with createdTime := created, refreshTime := refreshed }

/-- The sessions agree in everything but their clock values. -/
def SameButTimes : Option CSession → Option CSession → Prop :=
  Option.Rel fun s s' => ∃ i j, s' = s.setTimes i j

/-- The calls of `Parse` see the same sessions but for their clock values. -/
def SameCall (k k' : CSession × Option Record) : Prop := k.1.flow = k'.1.flow

/-- Two outcomes that agree but for clock values. -/
def SameOutcome (r r' : Option CSession × List (CSession × Option Record)) : Prop :=
  SameButTimes r.1 r'.1 ∧ List.Forall₂ SameCall r.2 r'.2

theorem parse_setTimes (B : Boost) (e : ParseEnv) (s : CSession) (i j : Int) :
    (parse B e (s.setTimes i j)).1 = (parse B e s).1.setTimes i j := by
  rw [parse_fst, parse_fst]
  rfl

theorem parseFull_setTimes (B : Boost) (e : ParseEnv) (s : CSession) (i j : Int) :
    (parseFull B e (s.setTimes i j)).1 = (parseFull B e s).1.setTimes i j ∧
      List.Forall₂ SameCall (parseFull B e s).2 (parseFull B e (s.setTimes i j)).2 := by
  have hcond : ((s.setTimes i j).reqBuf.len > 0 ∧ (s.setTimes i j).rspBuf.len > 0) ↔
      (s.reqBuf.len > 0 ∧ s.rspBuf.len > 0) := Iff.rfl
  unfold parseFull
  by_cases hf : s.reqBuf.len > 0 ∧ s.rspBuf.len > 0
  · rw [if_pos (hcond.mpr hf), if_pos hf]
    exact ⟨parse_setTimes B e s i j, List.Forall₂.cons rfl List.Forall₂.nil⟩
  · rw [if_neg (hcond.not.mpr hf), if_neg hf]
    exact ⟨rfl, List.Forall₂.nil⟩

theorem stampRequest_setTimes (p : CFormatPacket) (s : CSession) (i j : Int) :
    stampRequest p (s.setTimes i j) = (stampRequest p s).setTimes i j := by
  have hcond : ((s.setTimes i j).reqBuf.len = 0 ∧
      (s.setTimes i j).result.requestTimeStamp = 0) ↔
      (s.reqBuf.len = 0 ∧ s.result.requestTimeStamp = 0) := Iff.rfl
  unfold stampRequest
  by_cases hf : s.reqBuf.len = 0 ∧ s.result.requestTimeStamp = 0
  · rw [if_pos (hcond.mpr hf), if_pos hf]
    rfl
  · rw [if_neg (hcond.not.mpr hf), if_neg hf]

theorem stampResponse_setTimes (p : CFormatPacket) (s : CSession) (i j : Int) :
    stampResponse p (s.setTimes i j) = (stampResponse p s).setTimes i j := by
  have hcond : ((s.setTimes i j).rspBuf.len = 0 ∧
      (s.setTimes i j).result.responseTimeStamp = 0) ↔
      (s.rspBuf.len = 0 ∧ s.result.responseTimeStamp = 0) := Iff.rfl
  unfold stampResponse
  by_cases hf : s.rspBuf.len = 0 ∧ s.result.responseTimeStamp = 0
  · rw [if_pos (hcond.mpr hf), if_pos hf]
    rfl
  · rw [if_neg (hcond.not.mpr hf), if_neg hf]

/-- Filing a packet looks at no clock value. -/
theorem processData_setTimes (B : Boost) {e e' : Env} (happ : e.append = e'.append)
    (hparse : e.parse = e'.parse) (p : CFormatPacket) (way : UInt32) (s : CSession) (i j : Int) :
    (processData B e' p way (s.setTimes i j)).ses = (processData B e p way s).ses.setTimes i j ∧
      List.Forall₂ SameCall (processData B e p way s).calls
        (processData B e' p way (s.setTimes i j)).calls := by
  have h₀ : ∀ n m, (s.setTimes i j).setSeq n m = (s.setSeq n m).setTimes i j := fun _ _ => rfl
  unfold processData
  rw [← hparse, h₀]
  generalize s.setSeq p.seqNo p.ackSeqNo = s₀
  obtain ⟨hfull, hcalls⟩ := parseFull_setTimes B e.parse s₀ i j
  by_cases hunk : way = unkMatch
  · simp only [if_pos hunk]
    exact ⟨trivial, List.Forall₂.nil⟩
  simp only [if_neg hunk]
  by_cases hc2s : way = c2sMatch
  · simp only [if_pos hc2s, hfull, stampRequest_setTimes]
    refine ⟨?_, hcalls⟩
    unfold CHandle.appendRequest
    rw [← happ]
    rfl
  simp only [if_neg hc2s]
  by_cases hs2c : way = s2cMatch
  · simp only [if_pos hs2c, stampResponse_setTimes]
    refine ⟨?_, List.Forall₂.nil⟩
    unfold CHandle.appendResponse
    rw [← happ]
    rfl
  · simp only [if_neg hs2c]
    exact ⟨trivial, List.Forall₂.nil⟩

/-- Neither does serving it. -/
theorem serve_setTimes (B : Boost) {x y : Call} (hxy : Alike x y) (hheap : SameHeap x y)
    (info : CSharedBehaviorInfo) (s : CSession) (i j : Int) :
    SameOutcome (CHandle.serve B x info s) (CHandle.serve B y info (s.setTimes i j)) := by
  have hsame : SameOutcome (some s, []) (some (s.setTimes i j), []) :=
    ⟨Option.Rel.some ⟨i, j, rfl⟩, List.Forall₂.nil⟩
  have hrep : repeated x.packet (s.setTimes i j) = repeated x.packet s := rfl
  rcases served_cases x.packet s with hclose | ⟨hopen, hdrop⟩ | ⟨hopen, hdata, hnew⟩
  · rw [serve_closing hclose, serve_closing (hxy.packet ▸ hclose)]
    exact ⟨Option.Rel.none, List.Forall₂.cons rfl List.Forall₂.nil⟩
  · rw [serve_left hopen hdrop, serve_left (hxy.packet ▸ hopen) (hxy.packet ▸ hrep ▸ hdrop)]
    exact hsame
  · rw [serve_filed hopen hdata hnew, serve_filed (hxy.packet ▸ hopen) (hxy.packet ▸ hdata)
      (hxy.packet ▸ hrep ▸ hnew), ← hxy.packet]
    obtain ⟨hses, hcalls⟩ :=
      processData_setTimes B hheap.append hheap.parse x.packet info.matchWay s i j
    exact ⟨Option.Rel.some ⟨i, j, hses⟩, hcalls⟩

theorem newSession_setTimes (now now' : Int) (e : NewSession) (p : CFormatPacket)
    (info : CSharedBehaviorInfo) : CSessionHashTable.newSession now' e p info =
      (CSessionHashTable.newSession now e p info).setTimes now' now' := by
  unfold CSessionHashTable.newSession
  split <;> rfl

theorem opened_setTimes {x y : Call} (hxy : Alike x y) (hheap : SameHeap x y)
    (info : CSharedBehaviorInfo) {o o' : Option CSession} (h : SameButTimes o o') :
    ∃ i j, CHandle.opened y info o' = (CHandle.opened x info o).setTimes i j := by
  cases h with
  | none =>
    refine ⟨y.env.timeCreate, y.env.timeCreate, ?_⟩
    show CSessionHashTable.newSession y.env.timeCreate y.env.new y.packet info =
      (CSessionHashTable.newSession x.env.timeCreate x.env.new x.packet info).setTimes _ _
    rw [← hxy.packet, ← hheap.new]
    exact newSession_setTimes ..
  | some h =>
    obtain ⟨i, j, rfl⟩ := h
    exact ⟨i, y.env.timeFind % 2 ^ 32, rfl⟩

/-- A step of the connection does not look at clock values while no sweep is due. -/
theorem connStep_setTimes (B : Boost) {last last' : Int} (c : Conn) {x y : Call}
    (hxy : Alike x y) (hheap : SameHeap x y) (hx : x.env.timeCheck - last < timeoutCheckDur)
    (hy : y.env.timeCheck - last' < timeoutCheckDur) {o o' : Option CSession}
    (h : SameButTimes o o') : SameOutcome (connStep B last c o x) (connStep B last' c o' y) := by
  unfold connStep sweepReach
  rw [if_pos hx, if_pos hy, sweepConn_zero, sweepConn_zero, ← hxy.info, ← hxy.packet]
  cases x.info with
  | none => exact ⟨h, List.Forall₂.nil⟩
  | some info =>
    by_cases hc : x.packet.conn = c
    · simp only [if_pos hc, List.nil_append]
      obtain ⟨i, j, hopen⟩ := opened_setTimes hxy hheap info h
      rw [hopen]
      exact serve_setTimes B hxy hheap info _ i j
    · simp only [if_neg hc]
      exact ⟨h, List.Forall₂.nil⟩

/-! ## Different heaps -/

/-- The number of bytes a flow holds. -/
def Flow.size (f : Flow) : Nat := f.req.length + f.rsp.length

/-- The number of bytes a connection holds. -/
def heldBytes (o : Option Flow) : Nat := (o.map Flow.size).getD 0

/-- The number of payload bytes of the calls. -/
def payloadBytes (xs : List Call) : Nat := (xs.map fun x => x.packet.payload.length).sum

/-- Fewer packets carry fewer bytes. -/
theorem payloadBytes_le {xs ys : List Call} (h : xs.Sublist ys) :
    payloadBytes xs ≤ payloadBytes ys :=
  (h.map _).sum_le_sum fun _ _ => Nat.zero_le _

@[simp] theorem Flow.size_setSeq (f : Flow) (n m : UInt32) : (f.setSeq n m).size = f.size := rfl

theorem Flow.size_parseFull_le (f : Flow) : f.parseFull.1.size ≤ f.size := by
  unfold Flow.parseFull
  split
  · exact Nat.zero_le _
  · exact le_refl _

theorem Flow.size_stampRequest (f : Flow) (p : CFormatPacket) :
    (f.stampRequest p).size = f.size := by
  unfold Flow.stampRequest
  split <;> rfl

theorem Flow.size_stampResponse (f : Flow) (p : CFormatPacket) :
    (f.stampResponse p).size = f.size := by
  unfold Flow.stampResponse
  split <;> rfl

/-- Filing a packet adds its payload at most. -/
theorem Flow.size_file_le (f : Flow) (p : CFormatPacket) (way : UInt32) :
    (f.file p way).1.size ≤ f.size + p.payload.length := by
  have h₀ := f.size_setSeq p.seqNo p.ackSeqNo
  unfold Flow.file
  rw [← h₀]
  generalize f.setSeq p.seqNo p.ackSeqNo = f₀
  simp only
  split_ifs
  · exact Nat.le_add_right _ _
  · have hfull := f₀.size_parseFull_le
    have hstamp := Flow.size_stampRequest f₀.parseFull.1 p
    simp only [Flow.appendRequest, Flow.size, List.length_append] at hfull hstamp ⊢
    omega
  · have hstamp := f₀.size_stampResponse p
    simp only [Flow.appendResponse, Flow.size, List.length_append] at hstamp ⊢
    omega
  · exact Nat.le_add_right _ _

/-- A call adds the payload of its packet at most. -/
theorem Flow.heldBytes_step_le (c : Conn) (o : Option Flow) (x : Call) :
    heldBytes (Flow.step c ⟨false, false⟩ o x).1 ≤ heldBytes o + x.packet.payload.length := by
  unfold Flow.step
  simp only [Flow.sweep_quiet]
  cases x.info with
  | none => exact Nat.le_add_right _ _
  | some info =>
    simp only
    split
    · have hopen : (Flow.opened x info o).size = heldBytes o := by
        cases o <;> rfl
      unfold Flow.serve
      rw [← hopen]
      split_ifs
      · exact Nat.zero_le _
      · exact Nat.le_add_right _ _
      · exact Nat.le_add_right _ _
      · exact Flow.size_file_le _ _ _
    · exact Nat.le_add_right _ _

/-- When little enough arrives, the bytes can be counted all along. -/
theorem fitsAlong_of_payload (c : Conn) {xs : List Call} {o : Option Flow}
    (h : heldBytes o + payloadBytes xs < 2 ^ 32) : FitsAlong c o xs := by
  induction xs generalizing o with
  | nil => trivial
  | cons x xs ih =>
    have hstep := Flow.heldBytes_step_le c o x
    have hsum : payloadBytes (x :: xs) = x.packet.payload.length + payloadBytes xs :=
      List.sum_cons
    refine ⟨fun f hf => ?_, ih (o := (Flow.step c ⟨false, false⟩ o x).1) (by omega)⟩
    change (Flow.step c ⟨false, false⟩ o x).1 = some f at hf
    rw [hf] at hstep
    have hsize : heldBytes (some f) = f.req.length + f.rsp.length := rfl
    exact ⟨by omega, by omega⟩

/-- A step of the flow looks at nothing in which like calls differ. -/
theorem Flow.step_alike (c : Conn) (o : Option Flow) {x y : Call} (h : Alike x y) :
    Flow.step c ⟨false, false⟩ o x = Flow.step c ⟨false, false⟩ o y := by
  have hopen : ∀ info o, Flow.opened x info o = Flow.opened y info o := by
    intro info o
    cases o with
    | none =>
      show Flow.create x.env.new x.packet info = Flow.create y.env.new y.packet info
      unfold Flow.create
      rw [h.packet, h.seqNo, h.ackSeqNo]
    | some f => rfl
  unfold Flow.step
  simp only [hopen, h.packet, h.info]

theorem payloadBytes_alike {xs ys : List Call} (h : List.Forall₂ Alike xs ys) :
    payloadBytes xs = payloadBytes ys := by
  induction h with
  | nil => rfl
  | cons hxy _ ih =>
    unfold payloadBytes at *
    rw [List.map_cons, List.map_cons, List.sum_cons, List.sum_cons, hxy.packet, ih]

theorem flowMachine_alike (c : Conn) {xs ys : List Call} (h : List.Forall₂ Alike xs ys)
    (o : Option Flow) : (flowMachine c).run o xs = (flowMachine c).run o ys := by
  obtain ⟨hstate, hcalls⟩ := (flowMachine c).run_sim (flowMachine c) (R := Eq) (E := Alike)
    (O := Eq) (fun o o' x y ho hxy => by
      subst ho
      have hstep : (flowMachine c).step o x = (flowMachine c).step o y :=
        Flow.step_alike c o hxy
      rw [hstep]
      exact ⟨rfl, List.forall₂_refl _⟩) h o o rfl
  exact Prod.ext hstate (List.forall₂_eq_eq_eq ▸ hcalls)

/-! ## Isolation -/

/-- With the same heap the machine of a connection does the same in both runs. -/
theorem connMachine_sameHeap (B : Boost) {last last' : Int} (c : Conn) {xs ys : List Call}
    (hquiet : ∀ x ∈ xs, x.env.timeCheck - last < timeoutCheckDur)
    (hquiet' : ∀ y ∈ ys, y.env.timeCheck - last' < timeoutCheckDur)
    (halike : List.Forall₂ Alike xs ys) (hheap : List.Forall₂ SameHeap xs ys) :
    SameOutcome ((connMachine B last c).run none xs) ((connMachine B last' c).run none ys) := by
  -- what the step lemma asks of two calls, for every pair of calls of the runs
  have hpairs : List.Forall₂ (fun x y => Alike x y ∧ SameHeap x y ∧
      x.env.timeCheck - last < timeoutCheckDur ∧ y.env.timeCheck - last' < timeoutCheckDur)
      xs ys := by
    induction halike with
    | nil => exact List.Forall₂.nil
    | cons hxy _ ih =>
      obtain ⟨hh, hrest⟩ := List.forall₂_cons.mp hheap
      exact List.Forall₂.cons
        ⟨hxy, hh, hquiet _ List.mem_cons_self, hquiet' _ List.mem_cons_self⟩
        (ih (fun x hx => hquiet x (List.mem_cons_of_mem _ hx))
          (fun y hy => hquiet' y (List.mem_cons_of_mem _ hy)) hrest)
  exact (connMachine B last c).run_sim (connMachine B last' c)
    (fun o o' x y ho hxy => connStep_setTimes B c hxy.1 hxy.2.1 hxy.2.2.1 hxy.2.2.2 ho)
    hpairs none none Option.Rel.none

theorem SameOutcome.flow_eq {r r' : Option CSession × List (CSession × Option Record)}
    (h : SameOutcome r r') : r.1.map CSession.flow = r'.1.map CSession.flow ∧
      (r.2.map fun k => k.1.flow) = r'.2.map fun k => k.1.flow := by
  obtain ⟨o, l⟩ := r
  obtain ⟨o', l'⟩ := r'
  obtain ⟨hses, hcalls⟩ := h
  dsimp only at hses hcalls ⊢
  constructor
  · cases hses with
    | none => rfl
    | some h =>
      obtain ⟨i, j, hij⟩ := h
      rw [hij]
      rfl
  · induction hcalls with
    | nil => rfl
    | cons hk _ ih => exact congrArg₂ List.cons hk ih

/-- **Session isolation.**  `xs` are calls of `Process` for packets of any
connections, `ys` the calls for the packets of connection `c` alone, both from
`Init` on and while no sweep is due.  Then both runs leave the same session for
`c`, clock values apart, and hand the same sessions of `c` to `Parse` in the same
order. -/
theorem isolation (B : Boost) (ses ses' : Nat → CSession) (now now' : Int) (c : Conn)
    (xs ys : List Call) (hquiet : ∀ x ∈ xs, x.env.timeCheck - now < timeoutCheckDur)
    (hquiet' : ∀ y ∈ ys, y.env.timeCheck - now' < timeoutCheckDur)
    (halike : List.Forall₂ Alike (ofConn c xs) ys)
    (hheap : List.Forall₂ SameHeap (ofConn c xs) ys ∨
      (∀ x ∈ ofConn c xs, x.env.Granted) ∧ (∀ y ∈ ys, y.env.Granted) ∧
        payloadBytes (ofConn c xs) < 2 ^ 32) :
    let r := (handleMachine B).run (init ses now) xs
    let r' := (handleMachine B).run (init ses' now') ys
    (r.1.sesHash.session c).map CSession.flow = (r'.1.sesHash.session c).map CSession.flow ∧
      ((r.2.filterMap (obsConn c)).map fun k => k.1.flow) =
        (r'.2.filterMap (obsConn c)).map fun k => k.1.flow := by
  intro r r'
  obtain ⟨hses, hcalls⟩ := run_conn B (h := init ses now) (CSessionHashTable.wf_init ses) c xs
  obtain ⟨hses', hcalls'⟩ :=
    run_conn B (h := init ses' now') (CSessionHashTable.wf_init ses') c ys
  have hown : ∀ x ∈ ofConn c xs, x.env.timeCheck - now < timeoutCheckDur :=
    fun x hx => hquiet x (List.mem_of_mem_filter hx)
  rw [show r.1.sesHash.session c = _ from hses, show r.2.filterMap (obsConn c) = _ from hcalls,
    show r'.1.sesHash.session c = _ from hses', show r'.2.filterMap (obsConn c) = _ from hcalls']
  change (((connMachine B now c).run none xs).1.map CSession.flow =
      ((connMachine B now' c).run none ys).1.map CSession.flow) ∧
    (((connMachine B now c).run none xs).2.map fun k => k.1.flow) =
      ((connMachine B now' c).run none ys).2.map fun k => k.1.flow
  rw [connMachine_ofConn B c hquiet none]
  rcases hheap with hheap | ⟨hgrant, hgrant', htotal⟩
  · exact (connMachine_sameHeap B c hown hquiet' halike hheap).flow_eq
  · have hrun := connMachine_flow B (c := c) hown hgrant (o := none) (by simp)
      (fitsAlong_of_payload c (by simpa [heldBytes] using htotal))
    have hrun' := connMachine_flow B (c := c) hquiet' hgrant' (o := none) (by simp)
      (fitsAlong_of_payload c (by
        rw [← payloadBytes_alike halike]
        simpa [heldBytes] using htotal))
    have hsame := flowMachine_alike c halike none
    constructor
    · exact hrun.flow.trans ((congrArg Prod.fst hsame).trans hrun'.flow.symm)
    · exact hrun.calls.trans ((congrArg Prod.snd hsame).trans hrun'.calls.symm)

theorem Alike.refl (x : Call) : Alike x x := ⟨rfl, rfl, rfl, rfl⟩

theorem SameHeap.refl (x : Call) : SameHeap x x := ⟨rfl, rfl, rfl⟩

/-- A call on one of two connections that share a bucket. -/
def nearCall (seqNo : UInt32) : Call := sends ⟨1, 1000⟩ ⟨2, 80⟩ seqNo [71] false

/-- A call on the other. -/
def farCall (seqNo : UInt32) : Call := sends ⟨2, 1000⟩ ⟨1, 80⟩ seqNo [80] false

theorem ofConn_near_far : ofConn s(⟨1, 1000⟩, ⟨2, 80⟩) [nearCall 1, farCall 1, nearCall 2] =
    [nearCall 1, nearCall 2] := by
  have hnear : ∀ n, (nearCall n).packet.conn = s(⟨1, 1000⟩, ⟨2, 80⟩) :=
    fun n => segment_conn ..
  have hfar : ∀ n, (farCall n).packet.conn = s(⟨2, 1000⟩, ⟨1, 80⟩) := fun n => segment_conn ..
  have hne : (s(⟨2, 1000⟩, ⟨1, 80⟩) : Conn) ≠ s(⟨1, 1000⟩, ⟨2, 80⟩) := by decide
  simp [ofConn, hnear, hfar, hne]

theorem isolation_near_far :
    hashConn s(⟨1, 1000⟩, ⟨2, 80⟩) = hashConn s(⟨2, 1000⟩, ⟨1, 80⟩) ∧
      ((((handleMachine Boost.decimal).run (init blankSes 0)
          [nearCall 1, farCall 1, nearCall 2]).1.sesHash.session
            s(⟨1, 1000⟩, ⟨2, 80⟩)).map CSession.flow =
        (((handleMachine Boost.decimal).run (init blankSes 0)
          [nearCall 1, nearCall 2]).1.sesHash.session s(⟨1, 1000⟩, ⟨2, 80⟩)).map CSession.flow) := by
  refine ⟨by decide, (isolation Boost.decimal blankSes blankSes 0 0 s(⟨1, 1000⟩, ⟨2, 80⟩)
    [nearCall 1, farCall 1, nearCall 2] [nearCall 1, nearCall 2] ?_ ?_ ?_ (Or.inl ?_)).1⟩
  · simp [nearCall, farCall, sends_quiet]
  · simp [nearCall, sends_quiet]
  · rw [ofConn_near_far]
    exact List.forall₂_same.mpr fun x _ => Alike.refl x
  · rw [ofConn_near_far]
    exact List.forall₂_same.mpr fun x _ => SameHeap.refl x

end HttpDecoder
