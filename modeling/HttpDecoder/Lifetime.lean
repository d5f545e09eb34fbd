import HttpDecoder.Lib.Lease
import HttpDecoder.TimedFlow

/-!
# How long a session lives

A session is in the table from the packet that makes it until a FIN or RST, or until a sweep finds
it idle, and every packet of its connection renews it.

* `lease` — the refresh time of a connection's session, as a lease.
* `connStep_lease`, `run_lease` — **refinement**: what the table holds of a connection is its
  lease.
* `live_iff` — **which sessions the table holds after a run**, and what they show.
* `idle_sessions` — **once sweeps are due, every session had a packet within the last hour, and is
  empty if it had none within the last minute**; the last bucket excepted.
-/

namespace HttpDecoder

open CLib CHandle

/-! ## The lease of a connection -/

/-- The packet is looked up for the connection. -/
def Heard (c : Conn) (x : Call) : Prop := x.info.isSome = true ∧ x.packet.conn = c

instance (c : Conn) (x : Call) : Decidable (Heard c x) := inferInstanceAs (Decidable (_ ∧ _))

/-- The sweep before the call erases a session that was refreshed at `t`. -/
def Erases (last : Int) (c : Conn) (x : Call) (t : Int) : Prop :=
  TimedFlow.Reached last c x.env.timeCheck ∧ timeout ≤ x.env.timeCheck - t

instance (last : Int) (c : Conn) (x : Call) (t : Int) : Decidable (Erases last c x t) :=
  inferInstanceAs (Decidable (_ ∧ _))

/-- The refresh time of a connection: packets renew it, FIN and RST end it, and so does a sweep
that comes too late for it. -/
def lease (last : Int) (c : Conn) : Lease Call Int where
  own x := decide (Heard c x)
  expires x t := decide (Erases last c x t)
  grant x o :=
    if x.packet.closes then none
    else some (if o.isSome then x.env.timeFind % 2 ^ 32 else x.env.timeCreate)

/-- What a packet grants. -/
theorem lease_grant {last : Int} {c : Conn} {x : Call} {o : Option Int} {t : Int} :
    (lease last c).grant x o = some t ↔ x.packet.closes = false ∧
      t = if o.isSome then x.env.timeFind % 2 ^ 32 else x.env.timeCreate := by
  show (if x.packet.closes then none else some _) = some t ↔ _
  cases x.packet.closes with
  | true => simp
  | false =>
    simp only [Bool.false_eq_true, if_false, Option.some.injEq, true_and]
    exact eq_comm

/-- The packets that have a say in it. -/
theorem lease_own {last : Int} {c : Conn} {xs : List Call} :
    (∀ x ∈ xs, (lease last c).own x = false) ↔ ∀ x ∈ xs, ¬ Heard c x :=
  forall₂_congr fun _ _ => decide_eq_false_iff_not

/-- A refresh time is that of the last packet. -/
theorem exists_heard {last : Int} {c : Conn} {xs : List Call} {t : Int}
    (h : (lease last c).after none xs = some t) :
    ∃ pre x post, xs = pre ++ x :: post ∧ Heard c x ∧ (∀ y ∈ post, ¬ Heard c y) ∧
      x.packet.closes = false ∧ (t = x.env.timeFind % 2 ^ 32 ∨ t = x.env.timeCreate) := by
  obtain ⟨pre, x, post, rfl, hown, hpost, hgrant, -⟩ :=
    ((lease last c).after_eq_some_iff).mp h
  obtain ⟨hopen, ht⟩ := lease_grant.mp hgrant
  refine ⟨pre, x, post, rfl, of_decide_eq_true hown, lease_own.mp hpost, hopen, ?_⟩
  rw [ht]
  split
  · exact Or.inl rfl
  · exact Or.inr rfl

section Refinement

variable {B : Boost} {last : Int} {c : Conn} {x : Call}

/-- What the sweep leaves of a session is what it leaves of the lease. -/
theorem sweepConn_lease {o : Option CSession} (hconn : ∀ s ∈ o, s.conn = c) :
    (sweepConn B x.env (sweepReach last x.env) o).1.map CSession.refreshTime =
      (lease last c).kept x (o.map CSession.refreshTime) := by
  cases o with
  | none => rfl
  | some s =>
    have hsplit : (hashConn s.conn).toNat < sweepReach last x.env ↔
        TimedFlow.Reached last c x.env.timeCheck := by
      rw [hconn s rfl]
      exact Iff.rfl
    have hswept : (sweptSes B x.env s).refreshTime = s.refreshTime := by
      unfold sweptSes
      split
      · exact parse_refreshTime ..
      · rfl
    rw [Option.map_some]
    unfold sweepConn
    by_cases hreach : TimedFlow.Reached last c x.env.timeCheck
    · simp only [if_pos (hsplit.mpr hreach)]
      by_cases hold : timeout ≤ x.env.timeCheck - s.refreshTime
      · have hexpired : sweepExpires x.env.timeCheck s = true := decide_eq_true hold
        have hout : (lease last c).expires x s.refreshTime = true := decide_eq_true ⟨hreach, hold⟩
        rw [hexpired, Lease.kept_expired _ hout]
        rfl
      · have hlive : sweepExpires x.env.timeCheck s = false := decide_eq_false hold
        have hin : (lease last c).expires x s.refreshTime = false :=
          decide_eq_false fun h => hold h.2
        rw [hlive, Lease.kept_live _ hin]
        exact congrArg some hswept
    · have hin : (lease last c).expires x s.refreshTime = false :=
        decide_eq_false fun h => hreach h.1
      simp only [if_neg (hsplit.not.mpr hreach)]
      rw [Lease.kept_live _ hin]
      rfl

/-- A packet leaves the session it is served by as it was refreshed, or ends it. -/
theorem serve_lease (info : CSharedBehaviorInfo) (s : CSession) :
    (serve B x info s).1.map CSession.refreshTime =
      if x.packet.closes then none else some s.refreshTime := by
  rcases served_cases x.packet s with hclose | ⟨hopen, hdrop⟩ | ⟨hopen, hdata, hnew⟩
  · rw [serve_closing hclose, if_pos hclose]
    rfl
  · rw [serve_left hopen hdrop, if_neg (Bool.eq_false_iff.mp hopen)]
    rfl
  · rw [serve_filed hopen hdata hnew, if_neg (Bool.eq_false_iff.mp hopen)]
    exact congrArg some (processData_refreshTime B x.env x.packet info.matchWay s)

/-- **A step of the connection is a step of its lease.** -/
theorem connStep_lease {o : Option CSession} (hconn : ∀ s ∈ o, s.conn = c) :
    (connStep B last c o x).1.map CSession.refreshTime =
      (lease last c).step (o.map CSession.refreshTime) x := by
  have hsweep : (sweepConn B x.env (sweepReach last x.env) o).1.map CSession.refreshTime =
      (lease last c).kept x (o.map CSession.refreshTime) := sweepConn_lease hconn
  unfold connStep
  generalize sweepConn B x.env (sweepReach last x.env) o = q at hsweep ⊢
  cases hinfo : x.info with
  | none =>
    have hown : (lease last c).own x = false := decide_eq_false fun h => by
      have hsome := h.1
      rw [hinfo] at hsome
      cases hsome
    rw [Lease.step_other _ hown, ← hsweep]
  | some info =>
    by_cases hc : x.packet.conn = c
    · have hown : (lease last c).own x = true := decide_eq_true ⟨by rw [hinfo]; rfl, hc⟩
      rw [Lease.step_own _ hown, ← hsweep]
      simp only [if_pos hc]
      rw [serve_lease]
      cases q.1 with
      | none => simp only [lease, opened, newSession_refreshTime]; rfl
      | some s => rfl
    · have hown : (lease last c).own x = false := decide_eq_false fun h => hc h.2
      rw [Lease.step_other _ hown, ← hsweep]
      simp only [if_neg hc]

/-- **What the table holds of a connection after a run is its lease.** -/
theorem run_lease (B : Boost) (c : Conn) {xs : List Call} : ∀ {h : CHandle}, h.sesHash.WF →
    (((handleMachine B).run h xs).1.sesHash.session c).map CSession.refreshTime =
      (lease h.lastTimeOutCheck c).after
        ((h.sesHash.session c).map CSession.refreshTime) xs := by
  induction xs with
  | nil => exact fun _ => rfl
  | cons x xs ih =>
    intro h hw
    obtain ⟨hw', hlast, hconn⟩ := process_conn B hw x
    have hrest := ih hw'
    rw [hlast, (hconn c).1, connStep_lease fun s hs => CSessionHashTable.conn_of_session hs]
      at hrest
    exact hrest

/-- From `Init` on nothing is held but what packets were granted. -/
theorem init_lease (B : Boost) (ses : Nat → CSession) (now : Int) (xs : List Call) (c : Conn) :
    (((handleMachine B).run (init ses now) xs).1.sesHash.session c).map CSession.refreshTime =
      (lease now c).after none xs := by
  rw [run_lease B c (CSessionHashTable.wf_init ses),
    show (init ses now).sesHash.session c = none from CSessionHashTable.session_init ses c]
  rfl

end Refinement

/-- What a packet of the connection sets `RefreshTime` to, by whether its own sweep leaves it a
session to find. -/
def refreshed (B : Boost) (g : CHandle) (c : Conn) (x : Call) : Int :=
  if ((g.timeOutCheck B x.env).1.sesHash.session c).isSome then x.env.timeFind % 2 ^ 32
  else x.env.timeCreate

/-- **Which sessions the table holds after a run.**  A connection has a session exactly if the last
packet that was looked up for it was neither FIN nor RST, and no sweep since has found the time
out that this packet set; this is the time its session shows. -/
theorem live_iff (B : Boost) (ses : Nat → CSession) (now : Int) (xs : List Call) (c : Conn)
    (t : Int) :
    (((handleMachine B).run (init ses now) xs).1.sesHash.session c).map CSession.refreshTime =
        some t ↔
      ∃ pre x post, xs = pre ++ x :: post ∧ Heard c x ∧ (∀ y ∈ post, ¬ Heard c y) ∧
        x.packet.closes = false ∧
        t = refreshed B ((handleMachine B).run (init ses now) pre).1 c x ∧
        ∀ y ∈ post, ¬ Erases now c y t := by
  rw [init_lease, Lease.after_eq_some_iff]
  refine exists_congr fun pre => exists_congr fun x => exists_congr fun post => ?_
  refine and_congr_right fun _ => ?_
  -- whether the packet finds a session is told by what the sweep before it keeps
  have hw : ((handleMachine B).run (init ses now) pre).1.sesHash.WF :=
    Reachable.wf ⟨ses, now, pre, rfl⟩
  have hlast := run_lastTimeOutCheck B (CSessionHashTable.wf_init ses) pre (h := init ses now)
  have hfound : (lease now c).kept x ((lease now c).after none pre) =
      ((((handleMachine B).run (init ses now) pre).1.timeOutCheck B x.env).1.sesHash.session
        c).map CSession.refreshTime := by
    rw [← init_lease B ses now pre c, (timeOutCheck_swept hw).session_eq hw, hlast]
    exact (sweepConn_lease fun s hs => CSessionHashTable.conn_of_session hs).symm
  have hown : (lease now c).own x = true ↔ Heard c x := decide_eq_true_iff
  have hkept : (∀ y ∈ post, (lease now c).expires y t = false) ↔ ∀ y ∈ post, ¬ Erases now c y t :=
    forall₂_congr fun y _ => decide_eq_false_iff_not
  rw [hown, lease_own, lease_grant, hfound, Option.isSome_map, hkept]
  simp only [and_assoc]
  exact Iff.rfl

/-! ## Idle sessions -/

/-- A session that a sweep looked at and left is empty if it had been quiet for a minute. -/
theorem len_of_swept {B : Boost} {e : Env} {s : CSession}
    (hidle : 60 < e.timeCheck - s.refreshTime) :
    (sweptSes B e s).reqBuf.len = 0 ∧ (sweptSes B e s).rspBuf.len = 0 := by
  cases hparses : sweepParses e.timeCheck s with
  | true =>
    rw [show sweptSes B e s = _ from if_pos hparses, parse_fst]
    exact ⟨rfl, rfl⟩
  | false =>
    rw [show sweptSes B e s = s from if_neg (Bool.eq_false_iff.mp hparses)]
    exact len_of_not_sweepParses hidle hparses

/-- What the sweep leaves of a connection that it reaches. -/
theorem sweepConn_reached {B : Boost} {last : Int} {c : Conn} {e : Env} {o : Option CSession}
    {s : CSession} (hconn : ∀ s ∈ o, s.conn = c) (hreach : TimedFlow.Reached last c e.timeCheck)
    (hs : (sweepConn B e (sweepReach last e) o).1 = some s) :
    ∃ s₀, o = some s₀ ∧ s = sweptSes B e s₀ ∧ e.timeCheck - s₀.refreshTime < timeout := by
  cases o with
  | none => cases hs
  | some s₀ =>
    have hin : (hashConn s₀.conn).toNat < sweepReach last e := by
      rw [hconn s₀ rfl]
      exact hreach
    unfold sweepConn at hs
    simp only [if_pos hin] at hs
    split at hs
    · cases hs
    · rename_i hlive
      exact ⟨s₀, rfl, (Option.some.inj hs).symm, not_le.mp fun h => hlive (decide_eq_true h)⟩

/-- **Once sweeps are due, the table holds recent sessions only.**  After a call that comes
`TIMEOUT_CHECK_DUR` seconds or more after `Init`, every session of another connection, unless it
lies in the last bucket, had a packet that was neither FIN nor RST less than `TIMEOUT` seconds
before, with none of its connection since; and if that was more than a minute ago, both its
buffers are empty. -/
theorem idle_sessions (B : Boost) {ses : Nat → CSession} {now : Int} {xs : List Call} {z : Call}
    {c : Conn} {s : CSession} (hclock : ∀ x ∈ xs, 0 ≤ x.env.timeFind)
    (hdue : timeoutCheckDur ≤ z.env.timeCheck - now) (hother : z.packet.conn ≠ c)
    (hbucket : hashConn c ≠ 65535)
    (hs : ((handleMachine B).run (init ses now) (xs ++ [z])).1.sesHash.session c = some s) :
    ∃ pre x post, xs = pre ++ x :: post ∧ Heard c x ∧ (∀ y ∈ post, ¬ Heard c y) ∧
      x.packet.closes = false ∧ ∃ t, (t = x.env.timeFind ∨ t = x.env.timeCreate) ∧
        z.env.timeCheck - t < timeout ∧
          (60 < z.env.timeCheck - t → s.reqBuf.len = 0 ∧ s.rspBuf.len = 0) := by
  have hreach : TimedFlow.Reached now c z.env.timeCheck := by
    have hlt := (hashConn c).toNat_lt
    have hne : (hashConn c).toNat ≠ 65535 := fun h => hbucket (UInt16.toNat_inj.mp h)
    rw [TimedFlow.Reached, if_neg (by omega)]
    omega
  have hw : ((handleMachine B).run (init ses now) xs).1.sesHash.WF :=
    Reachable.wf ⟨ses, now, xs, rfl⟩
  have hlast := run_lastTimeOutCheck B (CSessionHashTable.wf_init ses) xs (h := init ses now)
  -- the call is a sweep for the connection, and nothing else
  have hswept : (sweepConn B z.env (sweepReach now z.env)
      (((handleMachine B).run (init ses now) xs).1.sesHash.session c)).1 = some s := by
    rw [Machine.run_concat] at hs
    have hstep := ((process_conn B hw z).2.2 c).1.symm.trans hs
    rw [hlast, show (init ses now).lastTimeOutCheck = now from rfl] at hstep
    unfold connStep at hstep
    cases hinfo : z.info with
    | none => simpa only [hinfo] using hstep
    | some info => simpa only [hinfo, if_neg hother] using hstep
  obtain ⟨s₀, hs₀, rfl, hrecent⟩ :=
    sweepConn_reached (fun s hs => CSessionHashTable.conn_of_session hs) hreach hswept
  obtain ⟨pre, x, post, hsplit, hheard, hpost, hopen, ht⟩ :=
    exists_heard ((init_lease B ses now xs c).symm.trans (congrArg (Option.map _) hs₀))
  refine ⟨pre, x, post, hsplit, hheard, hpost, hopen, ?_⟩
  rcases ht with ht | ht
  · -- a session that was found shows a time no later than the packet's
    have hpos := hclock x (by simp [hsplit])
    have hle : s₀.refreshTime ≤ x.env.timeFind := by
      rw [ht]
      omega
    exact ⟨x.env.timeFind, Or.inl rfl, by omega, fun hidle => len_of_swept (by omega)⟩
  · exact ⟨x.env.timeCreate, Or.inr rfl, by omega, fun hidle => len_of_swept (by omega)⟩

/-- A session 200 seconds after its last packet, when one of another connection comes. -/
theorem idle_sessions_near : ∃ s,
    ((handleMachine Boost.decimal).run (init blankSes 0)
      ([(nearCall 1).at 0] ++ [(farCall 1).at 200])).1.sesHash.session
        s(⟨1, 1000⟩, ⟨2, 80⟩) = some s ∧
      ∃ pre x post, [(nearCall 1).at 0] = pre ++ x :: post ∧ Heard s(⟨1, 1000⟩, ⟨2, 80⟩) x ∧
        (∀ y ∈ post, ¬ Heard s(⟨1, 1000⟩, ⟨2, 80⟩) y) ∧ x.packet.closes = false ∧
        ∃ t, (t = x.env.timeFind ∨ t = x.env.timeCreate) ∧ 200 - t < timeout ∧
          (60 < 200 - t → s.reqBuf.len = 0 ∧ s.rspBuf.len = 0) := by
  have hkept : (lease 0 s(⟨1, 1000⟩, ⟨2, 80⟩)).after none
      ([(nearCall 1).at 0] ++ [(farCall 1).at 200]) = some 0 := by decide +kernel
  obtain ⟨s, hs, -⟩ :=
    Option.map_eq_some_iff.mp ((init_lease Boost.decimal blankSes 0 _ _).trans hkept)
  refine ⟨s, hs, idle_sessions Boost.decimal (fun x hx => ?_) (by decide) ?_ (by decide +kernel) hs⟩
  · rw [List.mem_singleton.mp hx]
    exact le_refl (0 : Int)
  · decide +kernel

end HttpDecoder
