import HttpDecoder.Isolation
import HttpDecoder.Lib.Ticking
import HttpDecoder.RecentActivity

/-!
# Connections under the sweep

The sweep runs with every packet, whosever it is.  What it does to a session hangs on the clock
and on `RefreshTime`, and it does it once: a session that was parsed is empty, and one that was
erased is gone.

* `TimedFlow` — a flow with its refresh time; `TimedFlow.ticking` — as a machine with a clock.
* `connStep_timed` — **refinement**: a step of the connection, with its sweep, is a step of its
  timed flow.
* `swept_isolation` — **a connection does not notice the sweeps that the packets of others set
  off**.
-/

namespace HttpDecoder

open CLib CHandle

/-! ## Timed flows -/

/-- A session without memory, but with the time at which it was refreshed. -/
@[ext] structure TimedFlow where
  /-- The flow. -/
  flow : Flow
  /-- `RefreshTime`. -/
  refreshTime : Int

/-- The timed flow of a session. -/
def CSession.timed (s : CSession) : TimedFlow := ⟨s.flow, s.refreshTime⟩

namespace TimedFlow

/-- It has been quiet for more than a minute, and holds something. -/
def Parses (now : Int) (f : TimedFlow) : Prop :=
  (f.flow.req ≠ [] ∨ f.flow.rsp ≠ []) ∧ 60 < now - f.refreshTime

instance (now : Int) (f : TimedFlow) : Decidable (f.Parses now) :=
  inferInstanceAs (Decidable (_ ∧ _))

/-- It has been quiet for `TIMEOUT` seconds. -/
def Expires (now : Int) (f : TimedFlow) : Prop := timeout ≤ now - f.refreshTime

instance (now : Int) (f : TimedFlow) : Decidable (f.Expires now) :=
  inferInstanceAs (Decidable (_ ≤ _))

/-- The sweep of a bucket on one timed flow. -/
def sweep (now : Int) (f : TimedFlow) : Option TimedFlow × List Flow :=
  (if f.Expires now then none
    else some (if f.Parses now then ⟨f.flow.reset, f.refreshTime⟩ else f),
    if f.Parses now then [f.flow] else [])

/-- The sweep reaches the connection at that time, `last` being the time of `Init`. -/
def Reached (last : Int) (c : Conn) (now : Int) : Prop :=
  (hashConn c).toNat < if now - last < timeoutCheckDur then 0 else 65535

instance (last : Int) (c : Conn) (now : Int) : Decidable (Reached last c now) :=
  inferInstanceAs (Decidable (_ < _))

/-- Time passes for a connection. -/
def tick (last : Int) (c : Conn) (now : Int) : Option TimedFlow → Option TimedFlow × List Flow
  | none => (none, [])
  | some f => if Reached last c now then f.sweep now else (some f, [])

/-- The timed flow `Process` works on. -/
def opened (x : Call) (info : CSharedBehaviorInfo) : Option TimedFlow → TimedFlow
  | some f => ⟨f.flow, x.env.timeFind % 2 ^ 32⟩
  | none => ⟨Flow.create x.env.new x.packet info, x.env.timeCreate⟩

/-- What a call of `Process` does to the connection after the sweep. -/
def act (c : Conn) (o : Option TimedFlow) (x : Call) : Option TimedFlow × List Flow :=
  match x.info with
  | none => (o, [])
  | some info =>
    if x.packet.conn = c then
      let f := opened x info o
      let r := f.flow.serve x.packet info
      (r.1.map fun g => ⟨g, f.refreshTime⟩, r.2)
    else (o, [])

/-- A packet of another connection does nothing. -/
theorem act_other {c : Conn} {x : Call} (h : x.packet.conn ≠ c) (o : Option TimedFlow) :
    act c o x = (o, []) := by
  unfold act
  cases x.info with
  | none => rfl
  | some info => simp only [if_neg h]

/-- Once the sweep reaches a connection it always does. -/
theorem Reached.mono {last : Int} {c : Conn} {i j : Int} (hij : i ≤ j) (h : Reached last c i) :
    Reached last c j := by
  unfold Reached at h ⊢
  split at h
  · exact absurd h (Nat.not_lt_zero _)
  · rw [if_neg (by omega)]
    exact h

/-- **A sweep does not repeat what an earlier one did, nor miss what it left.** -/
theorem sweep_sweep {i j : Int} (hij : i ≤ j) (f : TimedFlow) {last : Int} {c : Conn}
    (hreach : Reached last c j) :
    (tick last c j (f.sweep i).1).1 = (f.sweep j).1 ∧
      (f.sweep i).2 ++ (tick last c j (f.sweep i).1).2 = (f.sweep j).2 := by
  have hparses : f.Parses i → f.Parses j := fun h => ⟨h.1, by have := h.2; omega⟩
  have hexpires : f.Expires i → f.Expires j := fun h => by unfold Expires at h ⊢; omega
  by_cases hexp : f.Expires i
  · -- an erased session is gone, and it had been quiet long enough to be parsed
    have hidle : f.Parses i ↔ f.Parses j := by
      refine ⟨hparses, fun h => ⟨h.1, ?_⟩⟩
      rw [Expires, timeout] at hexp
      omega
    simp only [sweep, if_pos hexp, if_pos (hexpires hexp), hidle]
    exact ⟨rfl, List.append_nil _⟩
  · by_cases hpar : f.Parses i
    · -- a parsed session is empty
      have hempty : ¬ (⟨f.flow.reset, f.refreshTime⟩ : TimedFlow).Parses j := by
        rintro ⟨hreq | hrsp, -⟩
        · exact hreq rfl
        · exact hrsp rfl
      simp only [sweep, if_neg hexp, if_pos hpar, if_pos (hparses hpar), tick, if_pos hreach,
        if_neg hempty]
      exact ⟨rfl, List.append_nil _⟩
    · simp only [sweep, if_neg hexp, if_neg hpar, tick, if_pos hreach]
      exact ⟨trivial, List.nil_append _⟩

/-- So it is for the connection. -/
theorem tick_tick (last : Int) (c : Conn) {i j : Int} (hij : i ≤ j) (o : Option TimedFlow) :
    (tick last c j (tick last c i o).1).1 = (tick last c j o).1 ∧
      (tick last c i o).2 ++ (tick last c j (tick last c i o).1).2 = (tick last c j o).2 := by
  cases o with
  | none => exact ⟨rfl, rfl⟩
  | some f =>
    by_cases hreach : Reached last c i
    · have hreach' := hreach.mono hij
      have hi : tick last c i (some f) = f.sweep i := if_pos hreach
      have hj : tick last c j (some f) = f.sweep j := if_pos hreach'
      rw [hi, hj]
      exact sweep_sweep hij f hreach'
    · have hi : tick last c i (some f) = (some f, []) := if_neg hreach
      rw [hi]
      exact ⟨rfl, List.nil_append _⟩

/-- A connection under the sweep, as a machine with a clock. -/
def ticking (last : Int) (c : Conn) : Ticking (Option TimedFlow) Int Call Flow where
  time x := x.env.timeCheck
  tick := tick last c
  act := act c
  tick_tick := tick_tick last c

end TimedFlow

/-! ## Sessions as timed flows -/

/-- A step of the connection is told by a step of its timed flow. -/
structure TimedRefines (r : Option CSession × List (CSession × Option Record))
    (q : Option TimedFlow × List Flow) : Prop where
  timed : r.1.map CSession.timed = q.1
  calls : (r.2.map fun k => k.1.flow) = q.2
  wf : ∀ s ∈ r.1, s.WF

section Refinement

variable (B : Boost) {s : CSession}

/-- The conditions of the sweep, told by the timed flow. -/
theorem sweep_timed (h : s.WF) (now : Int) :
    (sweepParses now s = true ↔ s.timed.Parses now) ∧
      (sweepExpires now s = true ↔ s.timed.Expires now) := by
  constructor
  · unfold sweepParses TimedFlow.Parses
    rw [Bool.and_eq_true, Bool.or_eq_true, decide_eq_true_iff, decide_eq_true_iff,
      decide_eq_true_iff]
    exact and_congr (or_congr h.reqLen_pos_iff h.rspLen_pos_iff) Iff.rfl
  · unfold sweepExpires
    rw [decide_eq_true_iff]
    exact Iff.rfl

/-- The sweep of a session. -/
theorem sweepConn_timed {e : Env} (he : e.Resets) (last : Int) {c : Conn} {o : Option CSession}
    (h : ∀ s ∈ o, s.WF) (hconn : ∀ s ∈ o, s.conn = c) :
    TimedRefines (sweepConn B e (sweepReach last e) o)
      (TimedFlow.tick last c e.timeCheck (o.map CSession.timed)) := by
  cases o with
  | none => exact ⟨rfl, rfl, fun s hs => absurd hs (Option.not_mem_none s)⟩
  | some s =>
    have hs : s.WF := h s rfl
    obtain ⟨hparses, hexpires⟩ := sweep_timed hs e.timeCheck
    have hsplit : (hashConn s.conn).toNat < sweepReach last e ↔
        TimedFlow.Reached last c e.timeCheck := by
      rw [hconn s rfl]
      exact Iff.rfl
    by_cases hreach : TimedFlow.Reached last c e.timeCheck
    · have htick : TimedFlow.tick last c e.timeCheck (some s.timed) =
          s.timed.sweep e.timeCheck := if_pos hreach
      have hswept : sweepConn B e (sweepReach last e) (some s) =
          (if sweepExpires e.timeCheck s then none else some (sweptSes B e s),
            if sweepParses e.timeCheck s then [(s, (parse B (e.sweep s.server s.client) s).2)]
            else []) := if_pos (hsplit.mpr hreach)
      have hkept : (sweptSes B e s).timed = (if s.timed.Parses e.timeCheck then
          ⟨s.flow.reset, s.refreshTime⟩ else s.timed) ∧ (sweptSes B e s).WF := by
        unfold sweptSes
        by_cases hpar : s.timed.Parses e.timeCheck
        · rw [if_pos (hparses.mpr hpar), if_pos hpar]
          exact ⟨TimedFlow.ext (parse_flow ..) (parse_refreshTime ..),
            parse_wf B hs (he.sweep s.server s.client)⟩
        · rw [if_neg (hparses.not.mpr hpar), if_neg hpar]
          exact ⟨rfl, hs⟩
      rw [Option.map_some, htick, hswept]
      unfold TimedFlow.sweep
      refine ⟨?_, ?_, fun s' hs' => ?_⟩
      · by_cases hexp : s.timed.Expires e.timeCheck
        · rw [if_pos (hexpires.mpr hexp), if_pos hexp]
          rfl
        · rw [if_neg (hexpires.not.mpr hexp), if_neg hexp]
          exact congrArg some hkept.1
      · show List.map _ (if sweepParses e.timeCheck s then _ else _) =
          if s.timed.Parses e.timeCheck then _ else _
        by_cases hpar : s.timed.Parses e.timeCheck
        · rw [if_pos (hparses.mpr hpar), if_pos hpar]
          rfl
        · rw [if_neg (hparses.not.mpr hpar), if_neg hpar]
          rfl
      · by_cases hexp : s.timed.Expires e.timeCheck
        · rw [if_pos (hexpires.mpr hexp)] at hs'
          exact absurd hs' (Option.not_mem_none s')
        · rw [if_neg (hexpires.not.mpr hexp)] at hs'
          exact Option.mem_some_iff.mp hs' ▸ hkept.2
    · have htick : TimedFlow.tick last c e.timeCheck (some s.timed) = (some s.timed, []) :=
        if_neg hreach
      have hswept : sweepConn B e (sweepReach last e) (some s) = (some s, []) :=
        if_neg (hsplit.not.mpr hreach)
      rw [Option.map_some, htick, hswept]
      exact ⟨rfl, rfl, fun s' hs' => Option.mem_some_iff.mp hs' ▸ hs⟩

/-- The session `Process` works on. -/
theorem opened_timed {x : Call} (he : x.env.Granted) (info : CSharedBehaviorInfo)
    {o : Option CSession} (h : ∀ s ∈ o, s.WF) :
    (CHandle.opened x info o).timed = TimedFlow.opened x info (o.map CSession.timed) ∧
      (CHandle.opened x info o).WF := by
  obtain ⟨hflow, hwf⟩ := opened_flow he info h
  refine ⟨TimedFlow.ext ?_ ?_, hwf⟩
  · rw [show (CHandle.opened x info o).timed.flow = _ from hflow]
    cases o <;> rfl
  · cases o with
    | none => exact newSession_refreshTime ..
    | some s => rfl

/-- Serving a packet. -/
theorem serve_timed {x : Call} (he : x.env.Granted) (info : CSharedBehaviorInfo) (h : s.WF)
    (hfit : ∀ f ∈ (s.timed.flow.serve x.packet info).1, f.Fits) :
    TimedRefines (CHandle.serve B x info s)
      ((s.timed.flow.serve x.packet info).1.map fun g => ⟨g, s.timed.refreshTime⟩,
        (s.timed.flow.serve x.packet info).2) := by
  have hserve := serve_flow B he info h hfit
  refine ⟨?_, hserve.calls, hserve.wf⟩
  rw [show (s.timed.flow.serve x.packet info).1 = _ from hserve.flow.symm]
  cases hs : (CHandle.serve B x info s).1 with
  | none => rfl
  | some s' => exact congrArg some (TimedFlow.ext rfl (serve_refreshTime B x info hs))

/-- **A step of the connection, with its sweep, is a step of its timed flow.** -/
theorem connStep_timed (last : Int) {c : Conn} {x : Call} (he : x.env.Granted)
    {o : Option CSession} (h : ∀ s ∈ o, s.WF) (hconn : ∀ s ∈ o, s.conn = c)
    (hfit : ∀ f ∈ ((TimedFlow.ticking last c).machine.step (o.map CSession.timed) x).1,
      f.flow.Fits) :
    TimedRefines (connStep B last c o x)
      ((TimedFlow.ticking last c).machine.step (o.map CSession.timed) x) := by
  have hsweep := sweepConn_timed B he.toResets last h hconn
  have hstep : (TimedFlow.ticking last c).machine.step (o.map CSession.timed) x =
      ((TimedFlow.act c ((sweepConn B x.env (sweepReach last x.env) o).1.map CSession.timed) x).1,
        ((sweepConn B x.env (sweepReach last x.env) o).2.map fun k => k.1.flow) ++
          (TimedFlow.act c ((sweepConn B x.env (sweepReach last x.env) o).1.map
            CSession.timed) x).2) := by
    rw [hsweep.timed, hsweep.calls]
    rfl
  rw [hstep] at hfit ⊢
  unfold connStep
  generalize sweepConn B x.env (sweepReach last x.env) o = q at hsweep hfit ⊢
  have hidle : TimedRefines q (q.1.map CSession.timed, (q.2.map fun k => k.1.flow) ++ []) :=
    ⟨rfl, (List.append_nil _).symm, hsweep.wf⟩
  unfold TimedFlow.act at hfit ⊢
  cases hinfo : x.info with
  | none => exact hidle
  | some info =>
    simp only [hinfo] at hfit ⊢
    by_cases hc : x.packet.conn = c
    · obtain ⟨hopened, hwf⟩ := opened_timed he info hsweep.wf
      simp only [if_pos hc, ← hopened] at hfit ⊢
      have hserve := serve_timed B he info hwf fun f hf => hfit ⟨f, _⟩ (Option.mem_map_of_mem _ hf)
      refine ⟨hserve.timed, ?_, hserve.wf⟩
      rw [List.map_append, hserve.calls]
    · simp only [if_neg hc]
      exact hidle

/-! ## Runs with sweeps -/

/-- The sweep adds no byte, and a packet of the connection its payload at most. -/
theorem heldBytes_timed_le (last : Int) (c : Conn) (o : Option TimedFlow) (x : Call) :
    heldBytes (((TimedFlow.ticking last c).machine.step o x).1.map TimedFlow.flow) ≤
      heldBytes (o.map TimedFlow.flow) + payloadBytes (ofConn c [x]) := by
  have htick : heldBytes ((TimedFlow.tick last c x.env.timeCheck o).1.map TimedFlow.flow) ≤
      heldBytes (o.map TimedFlow.flow) := by
    cases o with
    | none => exact le_refl _
    | some f =>
      by_cases hreach : TimedFlow.Reached last c x.env.timeCheck
      · rw [show TimedFlow.tick last c x.env.timeCheck (some f) = f.sweep x.env.timeCheck from
          if_pos hreach]
        unfold TimedFlow.sweep
        simp only
        split_ifs
        · exact Nat.zero_le _
        · exact Nat.zero_le _
        · exact le_refl _
      · rw [show TimedFlow.tick last c x.env.timeCheck (some f) = (some f, []) from
          if_neg hreach]
  refine le_trans ?_ (Nat.add_le_add_right htick _)
  show heldBytes ((TimedFlow.act c (TimedFlow.tick last c x.env.timeCheck o).1 x).1.map _) ≤ _
  generalize (TimedFlow.tick last c x.env.timeCheck o).1 = o'
  by_cases hc : x.packet.conn = c
  · have hpayload : payloadBytes (ofConn c [x]) = x.packet.payload.length := by
      simp [ofConn, hc, payloadBytes]
    have hact : (TimedFlow.act c o' x).1.map TimedFlow.flow =
        (Flow.step c ⟨false, false⟩ (o'.map TimedFlow.flow) x).1 := by
      unfold TimedFlow.act Flow.step
      rw [Flow.sweep_quiet]
      cases x.info with
      | none => rfl
      | some info =>
        have hopened : (TimedFlow.opened x info o').flow =
            Flow.opened x info (o'.map TimedFlow.flow) := by
          cases o' <;> rfl
        simp only [if_pos hc, Option.map_map, hopened]
        exact Option.map_id'
    rw [hpayload, hact]
    exact Flow.heldBytes_step_le c _ x
  · rw [TimedFlow.act_other hc]
    exact Nat.le_add_right _ _

/-- **A run, with its sweeps, is for every connection a run of its timed flow.** -/
theorem run_timed {c : Conn} {xs : List Call} : ∀ {h : CHandle}, h.sesHash.WF →
    (∀ s ∈ h.sesHash.session c, s.WF) → (∀ x ∈ xs, x.env.Granted) →
    heldBytes ((h.sesHash.session c).map CSession.flow) + payloadBytes (ofConn c xs) < 2 ^ 32 →
    TimedRefines (((handleMachine B).run h xs).1.sesHash.session c,
        ((handleMachine B).run h xs).2.filterMap (obsConn c))
      ((TimedFlow.ticking h.lastTimeOutCheck c).machine.run
        ((h.sesHash.session c).map CSession.timed) xs) := by
  induction xs with
  | nil => exact fun _ hs _ _ => ⟨rfl, rfl, hs⟩
  | cons x xs ih =>
    intro h hw hs hgrant hsmall
    obtain ⟨hw', hlast, hconn⟩ := process_conn B hw x
    obtain ⟨hses, hcalls⟩ := hconn c
    have hflow : (h.sesHash.session c).map CSession.flow =
        ((h.sesHash.session c).map CSession.timed).map TimedFlow.flow := by
      rw [Option.map_map]
      rfl
    have hheld := heldBytes_timed_le h.lastTimeOutCheck c
      ((h.sesHash.session c).map CSession.timed) x
    rw [← hflow] at hheld
    have hsum : payloadBytes (ofConn c (x :: xs)) =
        payloadBytes (ofConn c [x]) + payloadBytes (ofConn c xs) := by
      rw [← List.singleton_append, ofConn, List.filter_append, payloadBytes, List.map_append,
        List.sum_append]
      rfl
    have hstep := connStep_timed B h.lastTimeOutCheck (hgrant x List.mem_cons_self) hs
      (fun s hs => CSessionHashTable.conn_of_session hs) fun f hf => by
        rw [hf] at hheld
        have hsize : heldBytes ((some f).map TimedFlow.flow) =
            f.flow.req.length + f.flow.rsp.length := rfl
        exact ⟨by omega, by omega⟩
    have hpair : connStep B h.lastTimeOutCheck c (h.sesHash.session c) x =
        ((h.process B x).handle.sesHash.session c, (h.process B x).calls.filterMap (obsConn c)) :=
      Prod.ext hses.symm hcalls.symm
    rw [hpair] at hstep
    have hflow' : (((handleMachine B).step h x).1.sesHash.session c).map CSession.flow =
        ((TimedFlow.ticking h.lastTimeOutCheck c).machine.step
          ((h.sesHash.session c).map CSession.timed) x).1.map TimedFlow.flow := by
      rw [← hstep.timed, Option.map_map]
      rfl
    have hrest := ih hw' hstep.wf (fun y hy => hgrant y (List.mem_cons_of_mem _ hy))
      (by rw [show ((h.process B x).handle.sesHash.session c).map CSession.flow = _ from hflow']
          omega)
    rw [hlast, show ((h.process B x).handle.sesHash.session c).map CSession.timed = _
      from hstep.timed] at hrest
    refine ⟨hrest.timed, ?_, hrest.wf⟩
    rw [Machine.run_cons, Machine.run_cons, List.filterMap_append, List.map_append]
    exact congrArg₂ (· ++ ·) hstep.calls hrest.calls

/-- So it is from `Init` on. -/
theorem init_timed (ses : Nat → CSession) (now : Int) {c : Conn} {xs : List Call}
    (hgrant : ∀ x ∈ xs, x.env.Granted) (hsmall : payloadBytes (ofConn c xs) < 2 ^ 32) :
    TimedRefines (((handleMachine B).run (init ses now) xs).1.sesHash.session c,
        ((handleMachine B).run (init ses now) xs).2.filterMap (obsConn c))
      ((TimedFlow.ticking now c).machine.run none xs) := by
  have hnone : (init ses now).sesHash.session c = none := CSessionHashTable.session_init ses c
  have hrun := run_timed B (h := init ses now) (CSessionHashTable.wf_init ses) (c := c)
    (fun s hs => absurd (hnone ▸ hs) (Option.not_mem_none s)) hgrant
    (by rw [hnone]; exact (Nat.zero_add _).trans_lt hsmall)
  rw [hnone] at hrun
  exact hrun

end Refinement

/-- **Isolation under the sweep.**  Take a run from `Init` whose clock does not go back, with
sweeps whenever they are due, and purge it of the packets of all connections but `c`, the last
packet excepted: the same flows of `c` are handed to `Parse`, in the same order, and what is left
of its session is the same, with the same refresh time.  The sweeps that the packets of other
connections set off do nothing to `c` that its own would not. -/
theorem swept_isolation (B : Boost) {ses ses' : Nat → CSession} {now : Int} {c : Conn}
    {xs : List Call} {z : Call}
    (hclock : (xs ++ [z]).Pairwise fun x y => x.env.timeCheck ≤ y.env.timeCheck)
    (hgrant : ∀ x ∈ xs ++ [z], x.env.Granted)
    (hsmall : payloadBytes (ofConn c (xs ++ [z])) < 2 ^ 32) :
    let r := (handleMachine B).run (init ses now) (xs ++ [z])
    let r' := (handleMachine B).run (init ses' now) (ofConn c xs ++ [z])
    (r.1.sesHash.session c).map CSession.timed = (r'.1.sesHash.session c).map CSession.timed ∧
      ((r.2.filterMap (obsConn c)).map fun k => k.1.flow) =
        (r'.2.filterMap (obsConn c)).map fun k => k.1.flow := by
  intro r r'
  have hown : ofConn c (ofConn c xs ++ [z]) = ofConn c (xs ++ [z]) := by
    simp only [List.filter_append, List.filter_filter, Bool.and_self]
  have hsub : (ofConn c xs ++ [z]).Sublist (xs ++ [z]) :=
    (List.append_sublist_append_right _).mpr List.filter_sublist
  have hrun := init_timed B ses now hgrant hsmall
  have hrun' := init_timed B ses' now (fun x hx => hgrant x (hsub.subset hx)) (hown ▸ hsmall)
  have hpurge := (TimedFlow.ticking now c).run_purge_ticks (fun x => decide (x.packet.conn = c))
    (fun o x hx => TimedFlow.act_other (of_decide_eq_false hx) o) hclock none
  constructor
  · exact (hrun.timed.trans (congrArg Prod.fst hpurge)).trans hrun'.timed.symm
  · exact (hrun.calls.trans (congrArg Prod.snd hpurge)).trans hrun'.calls.symm

/-- A call at a given time. -/
def Call.at (x : Call) (now : Int) : Call := { x with env := Env.clock now }

/-- A packet, one of another connection that sets off a sweep, and a packet again. -/
theorem swept_isolation_near_far :
    let r := (handleMachine Boost.decimal).run (init blankSes 0)
      ([(nearCall 1).at 0, (farCall 1).at 3600] ++ [(nearCall 2).at 3700])
    let r' := (handleMachine Boost.decimal).run (init blankSes 0)
      (ofConn s(⟨1, 1000⟩, ⟨2, 80⟩) [(nearCall 1).at 0, (farCall 1).at 3600] ++
        [(nearCall 2).at 3700])
    ((r.2.filterMap (obsConn s(⟨1, 1000⟩, ⟨2, 80⟩))).map fun k => k.1.flow) =
      (r'.2.filterMap (obsConn s(⟨1, 1000⟩, ⟨2, 80⟩))).map fun k => k.1.flow := by
  refine (swept_isolation Boost.decimal (by simp [Call.at, Env.clock]) (fun x hx => ?_)
    (by decide +kernel)).2
  obtain ⟨y, now, rfl⟩ : ∃ y now, x = Call.at y now := by
    simp only [List.cons_append, List.nil_append, List.mem_cons, List.not_mem_nil, or_false] at hx
    rcases hx with rfl | rfl | rfl <;> exact ⟨_, _, rfl⟩
  exact { Env.granted_granting 0 with }

end HttpDecoder
