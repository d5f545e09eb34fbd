import HttpDecoder.Trace

/-!
# The end of a connection

What `Process` does with a packet that carries FIN or RST, and with the packets that
follow it.

* `process_session_none_iff` — a packet leaves no session of its connection exactly if it
  carries FIN or RST.
* `teardown_iff` — **when a closed connection leaves no session behind**: the last packet
  of the trace is one of the FINs.
* `handsOut_iff` — **when the payload of a closing segment is part of what `Parse` gets**:
  the buffer ended with the same bytes before.
-/

namespace HttpDecoder

open CLib CHandle

/-! ## What is left of a session -/

/-- A packet leaves no session of its connection exactly if it closes it: every packet
opens a session before the tests. -/
theorem process_session_none_iff (B : Boost) {h : CHandle} (hw : h.sesHash.WF) (x : Arrival) :
    (h.process B x.call).handle.sesHash.session x.packet.conn = none ↔ x.packet.closes = true := by
  rw [((process_conn B hw x.call).2.2 x.packet.conn).1]
  unfold connStep
  simp only [Arrival.call_info, if_pos (show x.call.packet.conn = x.packet.conn from rfl)]
  generalize opened x.call (behavior x.packet) _ = s
  rcases served_cases x.call.packet s with hclose | ⟨hopen, hdrop⟩ | ⟨hopen, hdata, hnew⟩
  · rw [serve_closing hclose]
    exact iff_of_true rfl hclose
  · rw [serve_left hopen hdrop]
    exact iff_of_false (Option.some_ne_none _) (Bool.eq_false_iff.mp hopen)
  · rw [serve_filed hopen hdata hnew]
    exact iff_of_false (Option.some_ne_none _) (Bool.eq_false_iff.mp hopen)

/-- So does the last packet of a run. -/
theorem run_session_none_iff (B : Boost) (ses : Nat → CSession) (now : Int) (xs : List Arrival)
    (x : Arrival) :
    ((handleMachine B).run (CHandle.init ses now) ((xs ++ [x]).map Arrival.call)).1.sesHash.session
      x.packet.conn = none ↔ x.packet.closes = true := by
  have hwf : ((handleMachine B).run (CHandle.init ses now) (xs.map Arrival.call)).1.sesHash.WF :=
    Reachable.wf (B := B) ⟨ses, now, _, rfl⟩
  rw [List.map_append, List.map_singleton, Machine.run_concat]
  exact process_session_none_iff B hwf x

/-- The arrivals of connection `c`. -/
def arrivalsOf (c : Conn) (xs : List Arrival) : List Arrival :=
  xs.filter fun x => x.packet.conn = c

/-- **When a closed connection leaves no session behind.**  From any reachable table, for
any packets whose last one belongs to the connection, and whose packets of the connection
end with a FIN from each side and a segment without payload, FIN or RST, in any order:
exactly if the last packet is one of the FINs. -/
theorem teardown_iff (B : Boost) {h : CHandle} (hr : Reachable B h) {a b : Endpoint}
    {finA finB ack : Arrival}
    (hA : finA.packet.src = a ∧ finA.packet.dst = b ∧ finA.packet.tcphdr.fin = true)
    (hB : finB.packet.src = b ∧ finB.packet.dst = a ∧ finB.packet.tcphdr.fin = true)
    (hack : ack.packet.conn = s(a, b) ∧ ack.packet.closes = false ∧ ack.packet.dataLen = 0)
    {full before tail : List Arrival} (htail : tail.Perm [finA, finB, ack])
    (htrace : arrivalsOf s(a, b) full = before ++ tail)
    (hlast : ∀ x ∈ full.getLast?, x.packet.conn = s(a, b)) :
    ((handleMachine B).run h (full.map Arrival.call)).1.sesHash.session s(a, b) = none ↔
      tail.getLast? ≠ some ack := by
  have hlength : tail.length = 3 := htail.length_eq
  obtain ⟨tail, x, rfl⟩ : ∃ l x, tail = l ++ [x] := by
    refine (List.eq_nil_or_concat tail).elim (fun hnil => ?_) fun ⟨l, x, hl⟩ => ⟨l, x, by simpa using hl⟩
    rw [hnil] at hlength
    exact absurd hlength (by simp)
  -- the last packet of all is the last one of the connection
  obtain ⟨full, y, rfl⟩ : ∃ l y, full = l ++ [y] := by
    refine (List.eq_nil_or_concat full).elim (fun hnil => ?_) fun ⟨l, y, hl⟩ => ⟨l, y, by simpa using hl⟩
    rw [hnil] at htrace
    exact absurd htrace (by simp [arrivalsOf])
  have hy : y.packet.conn = s(a, b) := hlast y (by simp)
  have hyx : y = x := by
    have hends := congrArg List.getLast? htrace
    rw [arrivalsOf, List.filter_append, List.filter_cons_of_pos (by simpa using hy),
      List.filter_nil, List.getLast?_concat, ← List.append_assoc, List.getLast?_concat] at hends
    exact Option.some.inj hends
  subst hyx
  have hmem : y = finA ∨ y = finB ∨ y = ack := by
    have hin := htail.subset (List.mem_append_right _ List.mem_cons_self)
    simpa using hin
  have hcloses : y.packet.closes = true ↔ y ≠ ack := by
    rcases hmem with rfl | rfl | rfl
    · have hfin : y.packet.closes = true := by simp [CFormatPacket.closes, hA.2.2]
      exact iff_of_true hfin fun heq => by simp [heq, hack.2.1] at hfin
    · have hfin : y.packet.closes = true := by simp [CFormatPacket.closes, hB.2.2]
      exact iff_of_true hfin fun heq => by simp [heq, hack.2.1] at hfin
    · exact iff_of_false (by simp [hack.2.1]) (by simp)
  have hw : ((handleMachine B).run h (full.map Arrival.call)).1.sesHash.WF := by
    refine (handleMachine B).run_invariant (I := fun h => h.sesHash.WF) (A := fun _ => True)
      (fun h x hw _ => (process_conn B hw x).1) _ _ hr.wf ?_
    intro _ _
    trivial
  rw [List.map_append, List.map_singleton, Machine.run_concat, List.getLast?_concat, ← hy]
  refine (process_session_none_iff B hw y).trans (hcloses.trans ?_)
  simp

/-! ## The payload of a closing segment -/

/-- What the buffer for packets to `b` shows. -/
def contentsTo (b : Endpoint) (s : CSession) : Bytes :=
  if b.port = 80 then s.reqBuf.contents else s.rspBuf.contents

/-- Less than a minute has passed since a packet of the session, or no sweep looks at it. -/
def Undue (h : CHandle) (e : Env) (s : CSession) : Prop :=
  (hashConn s.conn).toNat < sweepReach h.lastTimeOutCheck e → e.timeCheck - s.refreshTime ≤ 60

/-- Nothing is shown while both lengths are zero. -/
theorem contentsTo_of_len {s : CSession} (hreq : s.reqBuf.len = 0) (hrsp : s.rspBuf.len = 0)
    (b : Endpoint) : contentsTo b s = [] := by
  have hzero : ∀ buf : CBuffer, buf.len = 0 → buf.contents = [] := by
    intro buf hlen
    unfold CBuffer.contents
    rw [hlen]
    cases buf.buf <;> rfl
  unfold contentsTo
  split
  · exact hzero _ hreq
  · exact hzero _ hrsp

/-- A new session shows nothing. -/
theorem contentsTo_new (x : Call) (info : CSharedBehaviorInfo) (b : Endpoint) :
    contentsTo b (opened x info none) = [] := by
  unfold contentsTo
  split
  · exact (opened_none_contents x info).1
  · exact (opened_none_contents x info).2

/-- Nor does a parsed one. -/
theorem contentsTo_parse (B : Boost) (e : ParseEnv) (s : CSession) (b : Endpoint) :
    contentsTo b (parse B e s).1 = [] := by
  unfold contentsTo
  split
  · exact (parse_contents B e s).1
  · exact (parse_contents B e s).2

/-- The sweep leaves an undue session alone. -/
theorem sweepConn_undue (B : Boost) {h : CHandle} {e : Env} {s : CSession} (hu : Undue h e s) :
    (sweepConn B e (sweepReach h.lastTimeOutCheck e) (some s)).1 = some s := by
  rw [sweepConn_not_due B (due_of_recent hu)]

/-- The sweep leaves nothing to show of any other session. -/
theorem sweepConn_overdue (B : Boost) {h : CHandle} {e : Env} {s : CSession}
    (hu : ¬ Undue h e s) (b : Endpoint) :
    ∀ s' ∈ (sweepConn B e (sweepReach h.lastTimeOutCheck e) (some s)).1, contentsTo b s' = [] := by
  unfold Undue at hu
  rw [Classical.not_imp, not_le] at hu
  obtain ⟨hin, hidle⟩ := hu
  intro s' hs'
  simp only [sweepConn, if_pos hin] at hs'
  by_cases hexpires : sweepExpires e.timeCheck s
  · rw [if_pos hexpires] at hs'
    exact absurd hs' (by simp)
  rw [if_neg hexpires] at hs'
  rw [← Option.some.inj hs']
  unfold sweptSes
  by_cases hparses : sweepParses e.timeCheck s
  · rw [if_pos hparses]
    exact contentsTo_parse ..
  · rw [if_neg hparses]
    obtain ⟨hreq, hrsp⟩ := len_of_not_sweepParses hidle (by simpa using hparses)
    exact contentsTo_of_len hreq hrsp b

/-- What the session a packet opens still shows was shown by an undue session. -/
theorem contentsTo_opened (B : Boost) {h : CHandle} (x : Call) (info : CSharedBehaviorInfo)
    (b : Endpoint) (o : Option CSession) {bs : Bytes} (hbs : bs ≠ []) :
    bs <:+ contentsTo b (opened x info (sweepConn B x.env (sweepReach h.lastTimeOutCheck x.env) o).1) ↔
      ∃ s ∈ o, Undue h x.env s ∧ bs <:+ contentsTo b s := by
  have hnil : ∀ t : CSession, contentsTo b t = [] → ¬ bs <:+ contentsTo b t := by
    intro t ht hsuf
    rw [ht] at hsuf
    exact hbs (List.suffix_nil.mp hsuf)
  cases o with
  | none => exact iff_of_false (hnil _ (contentsTo_new ..)) (by simp)
  | some s =>
    simp only [Option.mem_some_iff, exists_eq_left']
    by_cases hu : Undue h x.env s
    · rw [sweepConn_undue B hu]
      exact ⟨fun hsuf => ⟨hu, hsuf⟩, fun hboth => hboth.2⟩
    · refine iff_of_false (hnil _ ?_) fun hboth => hu hboth.1
      have hover := sweepConn_overdue B hu b
      cases hswept : (sweepConn B x.env (sweepReach h.lastTimeOutCheck x.env) (some s)).1 with
      | none => exact contentsTo_new ..
      | some s' => exact hover s' hswept

/-- The call of `Parse` that a packet triggers gets the packet's payload, at the end of the
buffer for its direction. -/
def HandsOut (B : Boost) (h : CHandle) (x : Arrival) : Prop :=
  ∃ k, (h.process B x.call).calls.getLast? = some k ∧
    x.packet.payload <:+ contentsTo x.packet.dst k.ses

/-- A closing packet hands out the session it opened, with the buffers as it found them. -/
theorem process_closing (B : Boost) {h : CHandle} (hw : h.sesHash.WF) {x : Arrival}
    (hclose : x.packet.closes = true) :
    ∃ k, (h.process B x.call).calls.getLast? = some k ∧ k.ses =
      opened x.call (behavior x.packet) (sweepConn B x.env (sweepReach h.lastTimeOutCheck x.env)
        (h.sesHash.session x.packet.conn)).1 := by
  have hsw := timeOutCheck_swept (B := B) (e := x.env) hw
  obtain ⟨-, -, a, hcalls⟩ := process_serve B h x.call (Arrival.call_info x) (hsw.wf hw)
  rw [← hsw.session_eq hw]
  unfold serve at hcalls
  rw [Arrival.call_packet, Arrival.call_env, if_pos hclose] at hcalls
  exact ⟨_, by rw [hcalls, List.map_singleton, List.getLast?_concat], rfl⟩

/-- **When the payload of a closing segment is part of what `Parse` gets.**  For every
packet with FIN and payload, at any reachable table: exactly if the buffer for its
direction ended with the same bytes before, in a session the sweep leaves alone. -/
theorem handsOut_iff (B : Boost) {h : CHandle} (hr : Reachable B h) {x : Arrival}
    (hfin : x.packet.tcphdr.fin = true) (hdata : x.packet.payload ≠ []) :
    HandsOut B h x ↔ ∃ s ∈ h.sesHash.session x.packet.conn, Undue h x.env s ∧
      x.packet.payload <:+ contentsTo x.packet.dst s := by
  obtain ⟨k, hlast, hk⟩ := process_closing B hr.wf (x := x) (by simp [CFormatPacket.closes, hfin])
  have hopened := contentsTo_opened B (h := h) x.call (behavior x.packet) x.packet.dst
    (h.sesHash.session x.packet.conn) hdata
  rw [Arrival.call_env, ← hk] at hopened
  rw [← hopened]
  unfold HandsOut
  rw [hlast]
  constructor
  · rintro ⟨k', hk', hsuf⟩
    rwa [Option.some.inj hk']
  · intro hsuf
    exact ⟨k, rfl, hsuf⟩

/-! ## Closing segments -/

/-- The FIN of the client. -/
def clientFin : Arrival := arrival ⟨1, 1000⟩ ⟨2, 80⟩ 5 [] true

/-- The FIN of the server. -/
def peerFin : Arrival := arrival ⟨2, 80⟩ ⟨1, 1000⟩ 9 [] true

/-- The closing acknowledgement. -/
def closingAck : Arrival := arrival ⟨1, 1000⟩ ⟨2, 80⟩ 6 [] false

theorem clientFin_closes : clientFin.packet.src = ⟨1, 1000⟩ ∧ clientFin.packet.dst = ⟨2, 80⟩ ∧
    clientFin.packet.tcphdr.fin = true := ⟨segment_src .., segment_dst .., rfl⟩

theorem peerFin_closes : peerFin.packet.src = ⟨2, 80⟩ ∧ peerFin.packet.dst = ⟨1, 1000⟩ ∧
    peerFin.packet.tcphdr.fin = true := ⟨segment_src .., segment_dst .., rfl⟩

theorem closingAck_empty : closingAck.packet.conn = s(⟨1, 1000⟩, ⟨2, 80⟩) ∧
    closingAck.packet.closes = false ∧ closingAck.packet.dataLen = 0 :=
  ⟨segment_conn .., segment_closes .., rfl⟩

/-- The last bytes of a response, in the closing segment of the server. -/
def lastBytes : Arrival := arrival ⟨2, 80⟩ ⟨1, 1000⟩ 9 [72] true

theorem lastBytes_payload : lastBytes.packet.payload = [72] := payload_arrival _ _ _ _ (by decide)

/-- The table after a response segment that ends with the same byte. -/
def answered : CHandle :=
  ((handleMachine Boost.decimal).run (init blankSes 0)
    [(arrival ⟨2, 80⟩ ⟨1, 1000⟩ 7 [71, 72] false).call]).1

/-- The segment at that table. -/
theorem handsOut_iff_lastBytes : HandsOut Boost.decimal answered lastBytes := by
  have hshown : (answered.sesHash.session lastBytes.packet.conn).map
      (contentsTo lastBytes.packet.dst) = some [71, 72] := by
    decide +kernel
  obtain ⟨s, hs, hcontents⟩ := Option.map_eq_some_iff.mp hshown
  have hundue : Undue answered lastBytes.env s := by
    -- no sweep is due
    have hnone : sweepReach answered.lastTimeOutCheck lastBytes.env = 0 := by decide +kernel
    intro hin
    rw [hnone] at hin
    exact absurd hin (Nat.not_lt_zero _)
  have hr : Reachable Boost.decimal answered := ⟨blankSes, 0, _, rfl⟩
  refine (handsOut_iff Boost.decimal hr rfl ?_).mpr ⟨s, hs, hundue, ?_⟩
  · rw [lastBytes_payload]
    simp
  · rw [hcontents, lastBytes_payload]
    decide

/-- There its bytes are lost: `Parse` gets a session that is empty. -/
theorem not_handsOut_lastBytes : lastBytes.packet.tcphdr.fin = true ∧
    lastBytes.packet.payload ≠ [] ∧ ¬ HandsOut Boost.decimal (init blankSes 0) lastBytes := by
  refine ⟨rfl, by rw [lastBytes_payload]; simp, ?_⟩
  obtain ⟨k, hlast, hk⟩ := process_closing Boost.decimal (CSessionHashTable.wf_init blankSes)
    (h := init blankSes 0) (x := lastBytes) rfl
  rintro ⟨k', hk', hsuf⟩
  have hsession : (init blankSes 0).sesHash.session lastBytes.packet.conn = none :=
    CSessionHashTable.session_init ..
  rw [hlast] at hk'
  rw [hsession] at hk
  rw [← Option.some.inj hk', hk, lastBytes_payload] at hsuf
  change [72] <:+ contentsTo lastBytes.packet.dst (opened lastBytes.call
    (behavior lastBytes.packet) none) at hsuf
  rw [contentsTo_new] at hsuf
  exact absurd hsuf (by decide)

/-- The acknowledgement before the second FIN. -/
theorem teardown_iff_finLast :
    ((handleMachine Boost.decimal).run (init blankSes 0)
      ([clientFin, closingAck, peerFin].map Arrival.call)).1.sesHash.session
        s(⟨1, 1000⟩, ⟨2, 80⟩) = none ↔
      [clientFin, closingAck, peerFin].getLast? ≠ some closingAck := by
  have htrace : arrivalsOf s(⟨1, 1000⟩, ⟨2, 80⟩) [clientFin, closingAck, peerFin] =
      [] ++ [clientFin, closingAck, peerFin] := by
    refine List.filter_eq_self.mpr fun x hx => decide_eq_true ?_
    simp only [List.mem_cons, List.not_mem_nil, or_false] at hx
    rcases hx with rfl | rfl | rfl
    · exact segment_conn ..
    · exact closingAck_empty.1
    · exact (segment_conn ..).trans Sym2.eq_swap
  refine teardown_iff Boost.decimal ⟨blankSes, 0, [], rfl⟩ clientFin_closes peerFin_closes
    closingAck_empty ((List.Perm.swap ..).cons _) htrace ?_
  intro x hx
  rw [← Option.some.inj hx]
  exact (segment_conn ..).trans Sym2.eq_swap

/-- The acknowledgement after both FINs opens a session that stays. -/
theorem not_teardown_ackLast : ¬ ((handleMachine Boost.decimal).run (init blankSes 0)
    ([clientFin, peerFin, closingAck].map Arrival.call)).1.sesHash.session
      s(⟨1, 1000⟩, ⟨2, 80⟩) = none := by
  rw [← Option.not_isSome_iff_eq_none, not_not]
  decide +kernel

end HttpDecoder
