import HttpDecoder.Segment

/-!
# How often the sweep runs

`TimeOutCheck` is to walk the table every two minutes, and compares the clock with
`_lastTimeOutCheck` before it does.  `Init` sets that time; nothing sets it again.

* `sweepTimes` — when the calls of a run walk the table; `sweepTimes_eq` reads it off the
  clock alone.
* `sweeps_later` — once a call has walked the table, so does every later one.
* `spaced_iff` — **the sweeps keep the interval exactly if the packets do**, from the end of
  the first interval on.
-/

namespace HttpDecoder

open CHandle

/-- When the calls of a run walk the table. -/
def sweepTimes (B : Boost) : CHandle → List Call → List Int
  | _, [] => []
  | h, x :: xs =>
    let later := sweepTimes B (h.process B x).handle xs
    if h.sweeps x.env then x.env.timeCheck :: later else later

/-- What the clock says in the calls. -/
def checkTimes (xs : List Call) : List Int := xs.map fun x => x.env.timeCheck

theorem sweeps_eq (h : CHandle) (e : Env) :
    h.sweeps e = decide (h.lastTimeOutCheck + timeoutCheckDur ≤ e.timeCheck) := by
  rw [Bool.eq_iff_iff, sweeps_iff, decide_eq_true_eq, not_lt]
  omega

/-- **The sweeps are told by the clock**: they are the calls at least one interval after
`Init`. -/
theorem sweepTimes_eq (B : Boost) {h : CHandle} (hw : h.sesHash.WF) (xs : List Call) :
    sweepTimes B h xs =
      (checkTimes xs).filter fun t => decide (h.lastTimeOutCheck + timeoutCheckDur ≤ t) := by
  induction xs generalizing h with
  | nil => rfl
  | cons x xs ih =>
    obtain ⟨hwf, hlast, -⟩ := process_conn B hw x
    have hrest := ih hwf
    rw [hlast] at hrest
    unfold sweepTimes checkTimes
    simp only [hrest, sweeps_eq, List.map_cons, List.filter_cons]
    rfl

/-- **The first sweep is not the last**: once a call has walked the table, every call that is
not earlier does. -/
theorem sweeps_later (B : Boost) {h : CHandle} (hw : h.sesHash.WF) {x y : Call} (xs : List Call)
    (hx : h.sweeps x.env = true) (hclock : x.env.timeCheck ≤ y.env.timeCheck) :
    ((handleMachine B).run h (x :: xs)).1.sweeps y.env = true := by
  have hlast := run_lastTimeOutCheck B hw (x :: xs)
  rw [sweeps_eq, decide_eq_true_eq] at hx ⊢
  rw [hlast]
  exact le_trans hx hclock

/-- Each of the times is at least one interval after those before it. -/
def Spaced (times : List Int) : Prop := times.Pairwise fun s t => timeoutCheckDur ≤ t - s

instance (times : List Int) : Decidable (Spaced times) := by unfold Spaced; infer_instance

/-- **When the sweeps are `TIMEOUT_CHECK_DUR` apart**: exactly if any two calls are which come
that long after `Init`.  This holds for every run, whatever the clock does. -/
theorem spaced_iff (B : Boost) (ses : Nat → CSession) (now : Int) (xs : List Call) :
    Spaced (sweepTimes B (init ses now) xs) ↔
      (checkTimes xs).Pairwise fun s t =>
        now + timeoutCheckDur ≤ s → now + timeoutCheckDur ≤ t → timeoutCheckDur ≤ t - s := by
  have hlast : (init ses now).lastTimeOutCheck = now := rfl
  rw [Spaced, sweepTimes_eq B (CSessionHashTable.wf_init ses), hlast, List.pairwise_filter]
  simp only [decide_eq_true_eq]

/-- Two packets, one second apart, once the first interval is over. -/
def twoPackets : List Call :=
  [{ sends ⟨1, 1000⟩ ⟨2, 80⟩ 1 [71] false with env := { Env.granting 0 with timeCheck := 120 } },
    { sends ⟨1, 1000⟩ ⟨2, 80⟩ 2 [71] false with env := { Env.granting 0 with timeCheck := 121 } }]

/-- Both walk the table. -/
theorem not_spaced_twoPackets :
    ¬ ∀ (B : Boost) (ses : Nat → CSession) (now : Int) (xs : List Call),
      (now :: checkTimes xs).Pairwise (· ≤ ·) → Spaced (sweepTimes B (init ses now) xs) := by
  intro h
  have hclock : ((0 : Int) :: checkTimes twoPackets).Pairwise (· ≤ ·) := by decide +kernel
  have hspaced := h Boost.decimal blankSes 0 twoPackets hclock
  have hwf : (init blankSes 0).sesHash.WF := CSessionHashTable.wf_init blankSes
  rw [sweepTimes_eq Boost.decimal hwf] at hspaced
  exact absurd hspaced (by decide +kernel)

end HttpDecoder
