import HttpDecoder.Isolation
import HttpDecoder.Trace

/-!
# Retransmissions in one direction

`Process` compares the sequence number of a packet with that of the packet filed
last, and with no other.  This file says what that means for a stream of segments
in one direction.

* `Stream` — fresh segments in order, with earlier ones sent again at any point.
* `accepted` — the segments that pass the test; `run_stream`, `holdsStream_iff` — their bytes
  are what is buffered, whatever sweeps are due.
* `duplicates_iff` — **the session holds the stream exactly when every
  retransmission directly follows a segment with the same number**, if its first number is
  another one than the session keeps.
-/

namespace HttpDecoder

open CLib CHandle

/-! ## Streams with retransmissions -/

/-- `Stream fresh sent`: the segments of `fresh`, all with different numbers, are sent in
order, and between them segments sent before are sent again. -/
inductive Stream : List Arrival → List Arrival → Prop
  | nil : Stream [] []
  /-- The next segment. -/
  | next {fresh sent} (x : Arrival) : Stream fresh sent →
      (∀ y ∈ fresh, y.packet.seqNo ≠ x.packet.seqNo) → Stream (fresh ++ [x]) (sent ++ [x])
  /-- An earlier segment again. -/
  | again {fresh sent} (x : Arrival) {y : Arrival} : Stream fresh sent → y ∈ fresh →
      x.packet.seqNo = y.packet.seqNo → x.packet.payload = y.packet.payload →
      Stream fresh (sent ++ [x])

/-- Every retransmission directly follows a segment with its number. -/
def ImmediateRepeats (sent : List Arrival) : Prop :=
  ∀ before x after, sent = before ++ x :: after →
    (∃ y ∈ before, y.packet.seqNo = x.packet.seqNo) →
      ∃ z ∈ before.getLast?, z.packet.seqNo = x.packet.seqNo

/-- The segments whose number differs from that of the segment before, `n` coming
before the first. -/
def accepted (n : UInt32) : List Arrival → List Arrival
  | [] => []
  | x :: xs =>
    if n = x.packet.seqNo then accepted n xs else x :: accepted x.packet.seqNo xs

/-- Accepted or not, the first segment leaves its number. -/
theorem accepted_cons (n : UInt32) (x : Arrival) (xs : List Arrival) :
    accepted n (x :: xs) = accepted n [x] ++ accepted x.packet.seqNo xs := by
  by_cases h : n = x.packet.seqNo
  · have hskip : ∀ zs, accepted n (x :: zs) = accepted n zs := fun _ => if_pos h
    rw [hskip, hskip, h]
    rfl
  · have hkeep : ∀ zs, accepted n (x :: zs) = x :: accepted x.packet.seqNo zs :=
      fun _ => if_neg h
    rw [hkeep, hkeep]
    rfl

theorem lastSeq_concat (n : UInt32) (xs : List Arrival) (x : Arrival) :
    lastSeq n (xs ++ [x]) = x.packet.seqNo := by
  rw [lastSeq_append]
  rfl

theorem accepted_concat (n : UInt32) (xs : List Arrival) (x : Arrival) :
    accepted n (xs ++ [x]) =
      accepted n xs ++ if lastSeq n xs = x.packet.seqNo then [] else [x] := by
  induction xs generalizing n with
  | nil =>
    by_cases h : n = x.packet.seqNo
    · simp [accepted, lastSeq, h]
    · simp [accepted, lastSeq, h]
  | cons y ys ih =>
    by_cases h : n = y.packet.seqNo
    · have hskip : ∀ zs, accepted n (y :: zs) = accepted n zs := fun _ => if_pos h
      rw [List.cons_append, hskip, hskip, ih, h]
      rfl
    · have hkeep : ∀ zs, accepted n (y :: zs) = y :: accepted y.packet.seqNo zs :=
        fun _ => if_neg h
      rw [List.cons_append, hkeep, hkeep, ih]
      rfl

/-- After some segments the last number is that of the last one. -/
theorem lastSeq_eq_iff (n m : UInt32) {xs : List Arrival} (hxs : xs ≠ []) :
    lastSeq n xs = m ↔ ∃ z ∈ xs.getLast?, z.packet.seqNo = m := by
  obtain ⟨ys, z, rfl⟩ := (List.eq_nil_or_concat xs).resolve_left hxs
  rw [List.concat_eq_append, lastSeq_concat, List.getLast?_concat]
  simp

theorem immediateRepeats_nil : ImmediateRepeats [] := by
  intro before x after h
  exact absurd h (by simp)

/-- Appending a segment: it must not be a retransmission, or directly follow its
number. -/
theorem immediateRepeats_concat {sent : List Arrival} {x : Arrival} :
    ImmediateRepeats (sent ++ [x]) ↔ ImmediateRepeats sent ∧
      ((∃ y ∈ sent, y.packet.seqNo = x.packet.seqNo) →
        ∃ z ∈ sent.getLast?, z.packet.seqNo = x.packet.seqNo) := by
  constructor
  · intro h
    refine ⟨fun before y after hsent => ?_, h sent x [] rfl⟩
    exact h before y (after ++ [x]) (by rw [hsent, List.append_assoc]; rfl)
  · rintro ⟨hsent, hx⟩ before y after heq
    rcases List.eq_nil_or_concat after with rfl | ⟨after, z, rfl⟩
    · obtain ⟨rfl, hyx⟩ := List.append_inj' heq rfl
      obtain rfl := List.singleton_inj.mp hyx
      exact hx
    · rw [List.concat_eq_append, ← List.cons_append, ← List.append_assoc] at heq
      exact hsent before y after (List.append_inj' heq rfl).1

/-! ## What is accepted of a stream -/

@[simp] theorem bytesOf_append (xs ys : List Arrival) :
    bytesOf (xs ++ ys) = bytesOf xs ++ bytesOf ys := List.flatMap_append

/-- The numbers sent are the numbers of the fresh segments. -/
theorem Stream.mem_iff {fresh sent : List Arrival} (h : Stream fresh sent) (m : UInt32) :
    (∃ y ∈ sent, y.packet.seqNo = m) ↔ ∃ y ∈ fresh, y.packet.seqNo = m := by
  induction h with
  | nil => exact Iff.rfl
  | next x _ _ ih =>
    simp only [List.mem_append, List.mem_singleton, or_and_right, exists_or, ih]
  | again x _ hy hseq _ ih =>
    simp only [List.mem_append, List.mem_singleton, or_and_right, exists_or, ih]
    constructor
    · rintro (h | ⟨z, rfl, hz⟩)
      · exact h
      · exact ⟨_, hy, hseq.symm.trans hz⟩
    · exact Or.inl

/-- **Immediate repetitions are all that the test catches.**  When they are the only ones, the
accepted segments carry the stream; otherwise they carry too much. -/
theorem Stream.accepted_bytes {fresh sent : List Arrival} (h : Stream fresh sent) {n : UInt32}
    (hpos : ∀ x ∈ sent, x.packet.payload ≠ [])
    (hfirst : ∀ x ∈ sent.head?, n ≠ x.packet.seqNo) :
    (ImmediateRepeats sent → bytesOf (accepted n sent) = bytesOf fresh) ∧
      (¬ ImmediateRepeats sent →
        (bytesOf fresh).length < (bytesOf (accepted n sent)).length) := by
  have hhead : ∀ {sent : List Arrival} {x : Arrival}, ∀ y ∈ sent.head?, y ∈ (sent ++ [x]).head? := by
    intro sent x y hy
    rw [List.head?_append, Option.mem_def.mp hy]
    rfl
  induction h with
  | nil => exact ⟨fun _ => rfl, fun h => absurd immediateRepeats_nil h⟩
  | @next fresh sent x hstream hnew ih =>
    obtain ⟨ih₁, ih₂⟩ := ih (fun y hy => hpos y (List.mem_append_left _ hy))
      fun y hy => hfirst y (hhead y hy)
    -- the number has not been sent yet, so it differs from the last one
    have hsent : ¬ ∃ y ∈ sent, y.packet.seqNo = x.packet.seqNo := by
      rw [hstream.mem_iff]
      rintro ⟨y, hy, hyx⟩
      exact hnew y hy hyx
    have hseq : lastSeq n sent ≠ x.packet.seqNo := by
      by_cases hnil : sent = []
      · subst hnil
        exact hfirst x rfl
      · rw [Ne, lastSeq_eq_iff n _ hnil]
        rintro ⟨z, hz, hzx⟩
        exact hsent ⟨z, List.mem_of_mem_getLast? hz, hzx⟩
    rw [accepted_concat, if_neg hseq, immediateRepeats_concat, bytesOf_append, bytesOf_append]
    constructor
    · rintro ⟨h, -⟩
      rw [ih₁ h]
    · intro h
      have hlt := ih₂ fun himm => h ⟨himm, fun hy => absurd hy hsent⟩
      rw [List.length_append, List.length_append]
      omega
  | @again fresh sent x y hstream hy hseq hpayload ih =>
    obtain ⟨ih₁, ih₂⟩ := ih (fun y hy => hpos y (List.mem_append_left _ hy))
      fun y hy => hfirst y (hhead y hy)
    have hsent : ∃ z ∈ sent, z.packet.seqNo = x.packet.seqNo :=
      (hstream.mem_iff _).mpr ⟨y, hy, hseq.symm⟩
    have hne : sent ≠ [] := by
      obtain ⟨z, hz, -⟩ := hsent
      exact List.ne_nil_of_mem hz
    rw [accepted_concat, immediateRepeats_concat, ← lastSeq_eq_iff n _ hne]
    by_cases hlast : lastSeq n sent = x.packet.seqNo
    · rw [if_pos hlast, List.append_nil]
      exact ⟨fun h => ih₁ h.1, fun h => ih₂ fun himm => h ⟨himm, fun _ => hlast⟩⟩
    · -- the retransmission gets through
      have hgain := List.length_pos_iff.mpr (hpos x (by simp))
      rw [if_neg hlast, bytesOf_append, List.length_append, bytesOf_cons, List.length_append]
      refine ⟨fun h => absurd (h.2 hsent) hlast, fun _ => ?_⟩
      by_cases himm : ImmediateRepeats sent
      · rw [ih₁ himm]
        omega
      · have hlt := ih₂ himm
        omega

/-! ## What is buffered -/

/-- The buffer for packets to endpoint `b`. -/
def Flow.bufferTo (b : Endpoint) (f : Flow) : Bytes := if b.port = 80 then f.req else f.rsp

/-- A segment that passes the test and triggers no call of `Parse` is appended. -/
theorem arrive_oneWay {a b : Endpoint} {f : Flow} {x : Arrival} (h : DataSegment a b x.packet)
    (hseq : f.seqNo ≠ x.packet.seqNo) (hquiet : (arrive s(a, b) (some f) x).2 = []) :
    ∃ g, arrive s(a, b) (some f) x = (some g, []) ∧ g.seqNo = x.packet.seqNo ∧
      g.bufferTo b = f.bufferTo b ++ x.packet.payload := by
  unfold Flow.bufferTo
  by_cases hport : b.port = 80
  · obtain ⟨g, out, hstep, hgseq, hreq, -, hout⟩ := arrive_request hport h hseq
    have hnil : out = [] := by
      rw [hstep] at hquiet
      exact hquiet
    -- no call of `Parse` means that no exchange was pending
    have hfull : ¬ (f.req ≠ [] ∧ f.rsp ≠ []) := by
      intro hfull
      rw [Flow.pending, if_pos hfull, hnil] at hout
      exact absurd hout (by simp)
    refine ⟨g, hnil ▸ hstep, hgseq, ?_⟩
    rw [if_pos hport, if_pos hport, hreq, Flow.parseFull, if_neg hfull]
  · have hback : s(a, b) = s(b, a) := Sym2.eq_swap
    obtain ⟨g, hstep, hgseq, -, hrsp⟩ := arrive_response hport h hseq
    refine ⟨g, hback ▸ hstep, hgseq, ?_⟩
    rw [if_neg hport, if_neg hport, hrsp]

/-- So a segment leaves its number in the flow, and its payload if it is accepted. -/
theorem arrive_segment {a b : Endpoint} {f : Flow} {x : Arrival} (h : DataSegment a b x.packet)
    (hquiet : (arrive s(a, b) (some f) x).2 = []) :
    ∃ g, arrive s(a, b) (some f) x = (some g, []) ∧ g.seqNo = x.packet.seqNo ∧
      g.bufferTo b = f.bufferTo b ++ bytesOf (accepted f.seqNo [x]) := by
  by_cases hseq : f.seqNo = x.packet.seqNo
  · have hnone : accepted f.seqNo [x] = [] := if_pos hseq
    refine ⟨f, ?_, hseq, by rw [hnone]; exact (List.append_nil _).symm⟩
    rw [arrive_some h.conn]
    exact Flow.serve_repeated h.opens hseq
  · have hone : accepted f.seqNo [x] = [x] := if_neg hseq
    obtain ⟨g, hstep, hgseq, hbuf⟩ := arrive_oneWay h hseq hquiet
    refine ⟨g, hstep, hgseq, ?_⟩
    rw [hbuf, hone, bytesOf_cons]
    exact congrArg (f.bufferTo b ++ ·) (List.append_nil _).symm

/-! ## Under the sweep -/

/-- The session `Process` works on when the packet comes: the one the table has, unless the sweep
of the same call parses or erases it, or a new one. -/
def served (B : Boost) (h : CHandle) (x : Arrival) : CSession :=
  opened x.call (behavior x.packet)
    (sweepConn B x.env (sweepReach h.lastTimeOutCheck x.env) (h.sesHash.session x.packet.conn)).1

/-- No sweep of the run erases the session of the connection. -/
def NeverErased (B : Boost) (c : Conn) : CHandle → List Arrival → Prop
  | _, [] => True
  | h, x :: xs =>
    (∀ s ∈ h.sesHash.session c,
      (due x.env (sweepReach h.lastTimeOutCheck x.env) (some s)).erase = false) ∧
      NeverErased B c (h.process B x.call).handle xs

/-- **A sweep that calls no `Parse`** leaves alone a session that holds something. -/
theorem not_due_of_silent {B : Boost} {e : Env} {reach : Nat} {s : CSession}
    (hsilent : (sweepConn B e reach (some s)).2 = [])
    (hkeep : (s.reqBuf.len > 0 ∨ s.rspBuf.len > 0) ∨ (due e reach (some s)).erase = false) :
    due e reach (some s) = ⟨false, false⟩ := by
  have hparse : (due e reach (some s)).parse = false := by
    by_contra hparse
    rw [Bool.not_eq_false] at hparse
    obtain ⟨hin, hparses⟩ := Bool.and_eq_true_iff.mp hparse
    simp only [sweepConn, if_pos (of_decide_eq_true hin), if_pos hparses] at hsilent
    exact absurd hsilent (List.cons_ne_nil _ _)
  have herase : (due e reach (some s)).erase = false := by
    refine hkeep.elim (fun hlen => ?_) id
    by_contra herase
    rw [Bool.not_eq_false] at herase
    obtain ⟨hin, hexpires⟩ := Bool.and_eq_true_iff.mp herase
    have hnone : sweepParses e.timeCheck s = false := by
      have hboth : (decide ((hashConn s.conn).toNat < reach) && sweepParses e.timeCheck s) = false :=
        hparse
      rwa [hin, Bool.true_and] at hboth
    obtain ⟨hreq, hrsp⟩ := len_of_not_sweepParses (idle_of_sweepExpires hexpires) hnone
    omega
  exact congrArg₂ Due.mk hparse herase

/-- A session that holds something for `b` is not empty. -/
theorem len_of_bufferTo {s : CSession} (hs : s.WF) {b : Endpoint} (h : s.flow.bufferTo b ≠ []) :
    s.reqBuf.len > 0 ∨ s.rspBuf.len > 0 := by
  unfold Flow.bufferTo at h
  split at h
  · exact Or.inl (hs.reqLen_pos_iff.mpr h)
  · exact Or.inr (hs.rspLen_pos_iff.mpr h)

section Serving

variable {B : Boost} {h : CHandle} {a b : Endpoint} {x : Arrival}

/-- **One segment**, served without a call of `Parse`. -/
theorem process_segment (hw : h.sesHash.WF) (hx : DataSegment a b x.packet) (he : x.env.Granted)
    (hs : ∀ s ∈ h.sesHash.session s(a, b), s.WF)
    (hfit : ∀ f ∈ (arrive s(a, b) (some (served B h x).flow) x).1, f.Fits)
    (hparse : (h.process B x.call).calls.filterMap (obsConn s(a, b)) = []) :
    ∃ s', (h.process B x.call).handle.sesHash.session s(a, b) = some s' ∧ s'.WF ∧
      arrive s(a, b) (some (served B h x).flow) x = (some s'.flow, []) ∧
      s'.flow.seqNo = x.packet.seqNo ∧ s'.flow.bufferTo b =
        (served B h x).flow.bufferTo b ++ bytesOf (accepted (served B h x).flow.seqNo [x]) := by
  obtain ⟨hses, hcalls⟩ := (process_conn B hw x.call).2.2 s(a, b)
  have hstep : connStep B h.lastTimeOutCheck s(a, b) (h.sesHash.session s(a, b)) x.call =
      ((CHandle.serve B x.call (behavior x.packet) (served B h x)).1,
        (sweepConn B x.env (sweepReach h.lastTimeOutCheck x.env)
          (h.sesHash.session s(a, b))).2 ++
          (CHandle.serve B x.call (behavior x.packet) (served B h x)).2) := by
    unfold connStep served
    simp only [Arrival.call_info, Arrival.call_packet, Arrival.call_env, hx.conn, if_true]
  rw [hstep] at hses hcalls
  rw [hparse, eq_comm, List.append_eq_nil_iff] at hcalls
  have hsweep := sweepConn_flow B he (sweepReach h.lastTimeOutCheck x.env) hs
  have hwf : (served B h x).WF := by
    unfold served
    rw [hx.conn]
    exact (opened_flow he (behavior x.packet) hsweep.wf).2
  have harrive : arrive s(a, b) (some (served B h x).flow) x =
      (served B h x).flow.serve x.packet (behavior x.packet) := arrive_some hx.conn _
  have hserve := serve_flow B (x := x.call) he (behavior x.packet) hwf (by
    rw [Arrival.call_packet, ← harrive]
    exact hfit)
  rw [Arrival.call_packet, ← harrive] at hserve
  have hquiet : (arrive s(a, b) (some (served B h x).flow) x).2 = [] := by
    rw [← hserve.calls, hcalls.2]
    rfl
  obtain ⟨g, hg, hgseq, hbuf⟩ := arrive_segment hx hquiet
  have hflow := hserve.flow
  rw [hg] at hflow
  obtain ⟨s', hs', hflow'⟩ := Option.map_eq_some_iff.mp hflow
  exact ⟨s', hses.trans hs', hserve.wf s' hs', by rw [hg, hflow'], by rw [hflow', hgseq],
    by rw [hflow', hbuf]⟩

/-- A call that makes no call of `Parse` on a session makes none in its sweep. -/
theorem sweepConn_silent {last : Int} {c : Conn} {o : Option CSession} {y : Call}
    (h : (connStep B last c o y).2 = []) :
    (sweepConn B y.env (sweepReach last y.env) o).2 = [] := by
  unfold connStep at h
  split at h
  · exact h
  · split at h
    · exact (List.append_eq_nil_iff.mp h).1
    · exact h

/-- A session that is left alone by the sweep is the one that is served. -/
theorem served_flow {s : CSession} (hs : h.sesHash.session x.packet.conn = some s)
    (hdue : due x.env (sweepReach h.lastTimeOutCheck x.env) (some s) = ⟨false, false⟩) :
    (served B h x).flow = s.flow := by
  unfold served
  rw [hs, sweepConn_not_due B hdue]
  rfl

/-- A packet of another connection does not touch a session that the sweep leaves alone. -/
theorem process_other {c : Conn} {s : CSession} (hw : h.sesHash.WF) (hc : x.packet.conn ≠ c)
    (hs : h.sesHash.session c = some s)
    (hdue : due x.env (sweepReach h.lastTimeOutCheck x.env) (some s) = ⟨false, false⟩) :
    (h.process B x.call).handle.sesHash.session c = some s := by
  rw [((process_conn B hw x.call).2.2 c).1, hs]
  unfold connStep
  simp only [Arrival.call_info, Arrival.call_packet, Arrival.call_env, if_neg hc,
    sweepConn_not_due B hdue]

/-- **In one direction and without a call of `Parse`, what is accepted is buffered**, whatever
sweeps are due: they erase a session only if it holds nothing. -/
theorem run_stream (B : Boost) {a b : Endpoint} {ys : List Arrival} :
    ∀ {h : CHandle} {s : CSession}, h.sesHash.WF → h.sesHash.session s(a, b) = some s → s.WF →
      (s.flow.bufferTo b ≠ [] ∨ NeverErased B s(a, b) h ys) →
      (∀ y ∈ ys, y.packet.conn = s(a, b) → DataSegment a b y.packet ∧ y.env.Granted) →
      Countable s(a, b) (some s.flow) (ys.filter fun y => y.packet.conn = s(a, b)) →
      ((handleMachine B).run h (ys.map Arrival.call)).2.filterMap (obsConn s(a, b)) = [] →
      NeverErased B s(a, b) h ys ∧
        ∃ s', ((handleMachine B).run h (ys.map Arrival.call)).1.sesHash.session s(a, b) = some s' ∧
          s'.flow.bufferTo b = s.flow.bufferTo b ++
            bytesOf (accepted s.flow.seqNo (ys.filter fun y => y.packet.conn = s(a, b))) := by
  induction ys with
  | nil =>
    intro h s _ hs _ _ _ _ _
    exact ⟨trivial, s, hs, (List.append_nil _).symm⟩
  | cons y ys ih =>
    intro h s hw hs hwf hkeep hown hfit hparse
    have hrest := fun z hz => hown z (List.mem_cons_of_mem y hz)
    rw [List.map_cons, Machine.run_cons, List.filterMap_append, List.append_eq_nil_iff] at hparse
    obtain ⟨hparse₁, hparse₂⟩ := hparse
    change (h.process B y.call).calls.filterMap (obsConn s(a, b)) = [] at hparse₁
    obtain ⟨hw', -, hview⟩ := process_conn B hw y.call
    -- the sweep leaves the session alone
    have hsilent := sweepConn_silent ((hview s(a, b)).2.symm.trans hparse₁)
    rw [hs] at hsilent
    have hdue := not_due_of_silent hsilent
      (hkeep.imp (len_of_bufferTo hwf) fun hnever => hnever.1 s hs)
    have hlives : ∀ t ∈ h.sesHash.session s(a, b),
        (due y.env (sweepReach h.lastTimeOutCheck y.env) (some t)).erase = false := by
      intro t ht
      obtain rfl := Option.some.inj (hs.symm.trans ht)
      exact congrArg Due.erase hdue
    by_cases hc : y.packet.conn = s(a, b)
    · have hkeepOwn : ((y :: ys).filter fun y => y.packet.conn = s(a, b)) =
          y :: ys.filter fun y => y.packet.conn = s(a, b) :=
        List.filter_cons_of_pos (by simpa using hc)
      rw [hkeepOwn, countable_cons] at hfit
      rw [hkeepOwn, accepted_cons, bytesOf_append]
      obtain ⟨hy, he⟩ := hown y List.mem_cons_self hc
      have hflow := served_flow (B := B) (hc ▸ hs) hdue
      obtain ⟨s', hs', hwf', harrive, hseq, hbuf⟩ := process_segment hw hy he
        (fun t ht => Option.some.inj (hs.symm.trans ht) ▸ hwf) (by rw [hflow]; exact hfit.1) hparse₁
      rw [hflow] at harrive hbuf
      rw [harrive] at hfit
      have hkeep' : s'.flow.bufferTo b ≠ [] ∨
          NeverErased B s(a, b) (h.process B y.call).handle ys := by
        refine hkeep.imp (fun hne hnil => hne ?_) fun hnever => hnever.2
        rw [hbuf] at hnil
        exact (List.append_eq_nil_iff.mp hnil).1
      obtain ⟨hnever, k, hk, hkbuf⟩ := ih hw' hs' hwf' hkeep' hrest hfit.2 hparse₂
      exact ⟨⟨hlives, hnever⟩, k, hk, by rw [hkbuf, hbuf, hseq, List.append_assoc]⟩
    · have hskip : ((y :: ys).filter fun y => y.packet.conn = s(a, b)) =
          ys.filter fun y => y.packet.conn = s(a, b) :=
        List.filter_cons_of_neg (by simpa using hc)
      rw [hskip] at hfit ⊢
      obtain ⟨hnever, hbuffered⟩ := ih hw' (process_other hw hc hs hdue) hwf
        (hkeep.imp_right fun h => h.2) hrest hfit hparse₂
      exact ⟨⟨hlives, hnever⟩, hbuffered⟩

end Serving

/-! ## Exactly when the stream is buffered -/

/-- The session that is served with the first segment `x` holds the stream after the packets `ys`:
no sweep has erased it, and its buffer for packets to `b` has grown by the payloads of the fresh
segments, each once. -/
def HoldsStream (B : Boost) (h : CHandle) (a b : Endpoint) (fresh : List Arrival) (x : Arrival)
    (ys : List Arrival) : Prop :=
  NeverErased B s(a, b) (h.process B x.call).handle ys ∧
    ∃ s, ((handleMachine B).run h ((x :: ys).map Arrival.call)).1.sesHash.session s(a, b) = some s ∧
      s.flow.bufferTo b = (served B h x).flow.bufferTo b ++ bytesOf fresh

/-- Without its first segment the stream is carried only where an earlier segment comes again out
of turn. -/
theorem Stream.not_immediateRepeats {fresh rest : List Arrival} {x : Arrival}
    (h : Stream fresh (x :: rest)) (hpos : ∀ y ∈ x :: rest, y.packet.payload ≠ [])
    (hbytes : bytesOf (accepted x.packet.seqNo rest) = bytesOf fresh) :
    ¬ ImmediateRepeats (x :: rest) := by
  intro himm
  -- with any other number before it the first segment would be accepted
  have hother : x.packet.seqNo + 1 ≠ x.packet.seqNo := by simp
  have hcarried := (h.accepted_bytes (n := x.packet.seqNo + 1) hpos fun y hy => by
    rw [← Option.some.inj hy]
    exact hother).1 himm
  have hone : accepted (x.packet.seqNo + 1) [x] = [x] := if_neg hother
  rw [accepted_cons, bytesOf_append, hone, hbytes] at hcarried
  have hlen := congrArg List.length hcarried
  have hfirst := List.length_pos_iff.mpr (hpos x List.mem_cons_self)
  rw [bytesOf_cons, List.length_append, List.length_append] at hlen
  omega

section Held

variable {B : Boost} {h : CHandle} {a b : Endpoint} {fresh rest ys : List Arrival} {x : Arrival}

/-- **The session holds what is accepted**, if it lives on: it does where the first segment is
accepted, and otherwise if no sweep erases it. -/
theorem holdsStream_iff (hw : h.sesHash.WF) (hwf : ∀ s ∈ h.sesHash.session s(a, b), s.WF)
    (hto : ∀ y ∈ x :: rest, DataSegment a b y.packet)
    (htrace : (ys.filter fun y => y.packet.conn = s(a, b)) = rest)
    (hgrant : ∀ y ∈ x :: rest, y.env.Granted)
    (hfits : Countable s(a, b) (some (served B h x).flow) (x :: rest))
    (hparse : ((handleMachine B).run h ((x :: ys).map Arrival.call)).2.filterMap
      (obsConn s(a, b)) = [])
    (hkeep : (served B h x).flow.seqNo ≠ x.packet.seqNo ∨
      NeverErased B s(a, b) (h.process B x.call).handle ys) :
    HoldsStream B h a b fresh x ys ↔
      bytesOf (accepted (served B h x).flow.seqNo (x :: rest)) = bytesOf fresh := by
  have hx := hto x List.mem_cons_self
  rw [List.map_cons, Machine.run_cons, List.filterMap_append, List.append_eq_nil_iff] at hparse
  obtain ⟨hparse₁, hparse₂⟩ := hparse
  obtain ⟨s, hs, hswf, harrive, hseq, hbuf⟩ := process_segment hw hx
    (hgrant x List.mem_cons_self) hwf (countable_cons.mp hfits).1 hparse₁
  have hfits₂ := (countable_cons.mp hfits).2
  rw [harrive, ← htrace] at hfits₂
  have hown : ∀ y ∈ ys, y.packet.conn = s(a, b) → DataSegment a b y.packet ∧ y.env.Granted := by
    intro y hy hc
    have hmem : y ∈ x :: rest := by
      rw [← htrace]
      exact List.mem_cons_of_mem x (List.mem_filter.mpr ⟨hy, by simpa using hc⟩)
    exact ⟨hto y hmem, hgrant y hmem⟩
  -- a first segment that is accepted is not nothing
  have hkeep' : s.flow.bufferTo b ≠ [] ∨
      NeverErased B s(a, b) (h.process B x.call).handle ys := by
    refine hkeep.imp_left fun hne hnil => ?_
    have hone : accepted (served B h x).flow.seqNo [x] = [x] := if_neg hne
    rw [hbuf, hone, bytesOf_cons] at hnil
    exact hx.payload_ne (List.append_eq_nil_iff.mp (List.append_eq_nil_iff.mp hnil).2).1
  obtain ⟨hnever, k, hk, hkbuf⟩ := run_stream B (process_conn B hw x.call).1 hs hswf hkeep' hown
    hfits₂ hparse₂
  rw [htrace, hbuf, hseq, List.append_assoc, ← bytesOf_append, ← accepted_cons] at hkbuf
  constructor
  · rintro ⟨-, k', hk', hall⟩
    obtain rfl : k = k' := Option.some.inj (hk.symm.trans hk')
    exact List.append_cancel_left (hkbuf.symm.trans hall)
  · intro hbytes
    exact ⟨hnever, k, hk, by rw [hkbuf, hbytes]⟩

end Held

/-- **When no stream byte is buffered twice.**  A session receives, in one direction and before
the next call of `Parse`, a stream with retransmissions; other connections send what they like,
and sweeps are due at any times.  Where the first number is not the one the session keeps, the
stream is buffered exactly if every retransmission directly follows a segment with the same
number.  Where it is, the first segment is dropped, and what is accepted carries the stream only
by coincidence, with retransmissions out of turn in the place of what is missing, if no sweep
erases the session while it is empty. -/
theorem duplicates_iff (B : Boost) {h : CHandle} (hr : Reachable B h) {a b : Endpoint}
    (hwf : ∀ s ∈ h.sesHash.session s(a, b), s.WF) {fresh rest ys : List Arrival} {x : Arrival}
    (hstream : Stream fresh (x :: rest)) (hto : ∀ y ∈ x :: rest, DataSegment a b y.packet)
    (htrace : (ys.filter fun y => y.packet.conn = s(a, b)) = rest)
    (hgrant : ∀ y ∈ x :: rest, y.env.Granted)
    (hfit : (served B h x).flow.size + payloadBytes ((x :: rest).map Arrival.call) < 2 ^ 32)
    (hparse : ((handleMachine B).run h ((x :: ys).map Arrival.call)).2.filterMap
      (obsConn s(a, b)) = []) :
    let start := (served B h x).flow
    (start.seqNo ≠ x.packet.seqNo →
        (HoldsStream B h a b fresh x ys ↔ ImmediateRepeats (x :: rest))) ∧
      (start.seqNo = x.packet.seqNo →
        (HoldsStream B h a b fresh x ys ↔
          NeverErased B s(a, b) (h.process B x.call).handle ys ∧ ¬ ImmediateRepeats (x :: rest) ∧
            bytesOf (accepted x.packet.seqNo rest) = bytesOf fresh)) := by
  intro start
  have hpos : ∀ y ∈ x :: rest, y.packet.payload ≠ [] := fun y hy => (hto y hy).payload_ne
  have hholds : start.seqNo ≠ x.packet.seqNo ∨
      NeverErased B s(a, b) (h.process B x.call).handle ys →
        (HoldsStream B h a b fresh x ys ↔
          bytesOf (accepted start.seqNo (x :: rest)) = bytesOf fresh) :=
    holdsStream_iff hr.wf hwf hto htrace hgrant (fitsAlong_of_payload _ hfit) hparse
  constructor
  · intro hne
    obtain ⟨hcaught, hmissed⟩ := hstream.accepted_bytes (n := start.seqNo) hpos
      fun y hy => Option.some.inj hy ▸ hne
    rw [hholds (Or.inl hne)]
    refine ⟨fun hbytes => ?_, hcaught⟩
    by_contra himm
    have hlt := hmissed himm
    rw [hbytes] at hlt
    exact lt_irrefl _ hlt
  · intro heq
    have hskip : accepted start.seqNo (x :: rest) = accepted x.packet.seqNo rest := by
      rw [accepted_cons, show accepted start.seqNo [x] = [] from if_pos heq, List.nil_append]
    constructor
    · intro hstays
      have hbytes := (hholds (Or.inr hstays.1)).mp hstays
      rw [hskip] at hbytes
      exact ⟨hstays.1, hstream.not_immediateRepeats hpos hbytes, hbytes⟩
    · rintro ⟨hnever, -, hbytes⟩
      rw [hholds (Or.inr hnever), hskip, hbytes]

/-! ## Two segments, one of them sent again -/

/-- The first segment of a request. -/
def segmentA : Arrival := arrival ⟨1, 1000⟩ ⟨2, 80⟩ 5 [65] false

/-- The second. -/
def segmentB : Arrival := arrival ⟨1, 1000⟩ ⟨2, 80⟩ 6 [66] false

theorem dataSegment_ab {p : CFormatPacket} (hp : p = segmentA.packet ∨ p = segmentB.packet) :
    DataSegment ⟨1, 1000⟩ ⟨2, 80⟩ p := by
  rcases hp with rfl | rfl
  · exact dataSegment_arrival _ _ _ (by decide) (by decide)
  · exact dataSegment_arrival _ _ _ (by decide) (by decide)

/-- Both segments in order. -/
theorem stream_ab : Stream [segmentA, segmentB] [segmentA, segmentB] :=
  Stream.next segmentB (Stream.next segmentA Stream.nil (by simp))
    (by simp [segmentA, segmentB, arrival])

/-- What the handle buffers when they are followed by the first one. -/
theorem contents_aba : ((((handleMachine Boost.decimal).run (init blankSes 0)
    ([segmentA, segmentB, segmentA].map Arrival.call)).1.sesHash.session
      s(⟨1, 1000⟩, ⟨2, 80⟩)).map fun s => s.flow.bufferTo ⟨2, 80⟩) = some [65, 66, 65] := by
  decide +kernel

theorem duplicates_aba : Stream [segmentA, segmentB] [segmentA, segmentB, segmentA] ∧
    ((handleMachine Boost.decimal).run (init blankSes 0)
      ([segmentA, segmentB, segmentA].map Arrival.call)).2.length = 0 ∧
    ((((handleMachine Boost.decimal).run (init blankSes 0)
      ([segmentA, segmentB, segmentA].map Arrival.call)).1.sesHash.session
        s(⟨1, 1000⟩, ⟨2, 80⟩)).map fun s => s.flow.bufferTo ⟨2, 80⟩) = some [65, 66, 65] ∧
    ¬ HoldsStream Boost.decimal (init blankSes 0) ⟨1, 1000⟩ ⟨2, 80⟩ [segmentA, segmentB] segmentA
      [segmentB, segmentA] := by
  refine ⟨Stream.again segmentA stream_ab (by simp) rfl rfl, by decide +kernel, contents_aba, ?_⟩
  rintro ⟨-, s, hs, hholds⟩
  have hcontents := contents_aba
  rw [hs, Option.map_some, Option.some_inj, hholds] at hcontents
  exact absurd hcontents (by decide +kernel)

/-- The packet comes at the time `now`. -/
def Arrival.at (x : Arrival) (now : Int) : Arrival :=
  { x with env := { Env.granting 0 with timeCheck := now, timeFind := now, timeCreate := now } }

/-- A packet of another client. -/
def segmentC : Arrival := arrival ⟨3, 1001⟩ ⟨2, 80⟩ 5 [67] false

/-- The second segment comes again, after a packet of another client that sets off a sweep. -/
theorem duplicates_abb :
    HoldsStream Boost.decimal (init blankSes 0) ⟨1, 1000⟩ ⟨2, 80⟩
        [segmentA.at 100, segmentB.at 110] (segmentA.at 100)
        [segmentB.at 110, segmentC.at 130, segmentB.at 131] ↔
      ImmediateRepeats [segmentA.at 100, segmentB.at 110, segmentB.at 131] := by
  have hstream : Stream [segmentA.at 100, segmentB.at 110]
      [segmentA.at 100, segmentB.at 110, segmentB.at 131] :=
    Stream.again (segmentB.at 131) (Stream.next (segmentB.at 110)
      (Stream.next (segmentA.at 100) Stream.nil (by simp))
      (by simp [Arrival.at, segmentA, segmentB, arrival])) (y := segmentB.at 110) (by simp) rfl rfl
  have hto : ∀ y ∈ [segmentA.at 100, segmentB.at 110, segmentB.at 131],
      DataSegment ⟨1, 1000⟩ ⟨2, 80⟩ y.packet := by
    simp only [List.forall_mem_cons, List.not_mem_nil, IsEmpty.forall_iff, implies_true, and_true]
    exact ⟨dataSegment_ab (Or.inl rfl), dataSegment_ab (Or.inr rfl), dataSegment_ab (Or.inr rfl)⟩
  have hgrant : ∀ (y : Arrival) (now : Int), (y.at now).env.Granted := fun y now =>
    { Env.granted_granting 0 with }
  -- what the machine of the connection hands out is what the handle does
  have hconn : ((connMachine Boost.decimal 0 s(⟨1, 1000⟩, ⟨2, 80⟩)).run none
      ([segmentA.at 100, segmentB.at 110, segmentC.at 130, segmentB.at 131].map
        Arrival.call)).2.length = 0 := by
    decide +kernel
  have hquiet := (run_conn Boost.decimal (h := init blankSes 0) (CSessionHashTable.wf_init blankSes)
    s(⟨1, 1000⟩, ⟨2, 80⟩) ([segmentA.at 100, segmentB.at 110, segmentC.at 130,
      segmentB.at 131].map Arrival.call)).2.trans (List.eq_nil_of_length_eq_zero hconn)
  have hown : ([segmentB.at 110, segmentC.at 130, segmentB.at 131].filter fun y =>
      y.packet.conn = s(⟨1, 1000⟩, ⟨2, 80⟩)) = [segmentB.at 110, segmentB.at 131] := by
    rw [List.filter_cons_of_pos (by decide), List.filter_cons_of_neg (by decide),
      List.filter_cons_of_pos (by decide), List.filter_nil]
  exact (duplicates_iff Boost.decimal (h := init blankSes 0) ⟨blankSes, 0, [], rfl⟩
    (fun s hs => absurd hs (Option.not_mem_none s)) hstream hto hown
    (by
      simp only [List.forall_mem_cons, List.not_mem_nil, IsEmpty.forall_iff, implies_true, and_true]
      exact ⟨hgrant _ _, hgrant _ _, hgrant _ _⟩)
    (by decide +kernel) hquiet).1 (by decide +kernel)

end HttpDecoder
