import HttpDecoder.Lib.StepMachine

/-!
# Machines with a clock

Before it acts, every event lets the time pass up to its own.  What falls due by then happens
late, when somebody comes by: nobody looks at the clock in between.

* `Ticking` — a machine with a clock.  Letting time pass in two steps is letting it pass in one.
* `Ticking.run_lag` — where events do nothing but let time pass, a run lags behind by that time.
* `Ticking.run_purge_ticks` — **so they can be purged from every run**.
-/

universe u v w t

/-- Events with a time, what passing time does, and what the events do. -/
structure Ticking (σ : Type u) (τ : Type t) [Preorder τ] (ε : Type v) (ω : Type w) where
  /-- The time of an event. -/
  time : ε → τ
  /-- Time passes. -/
  tick : τ → σ → σ × List ω
  /-- An event acts. -/
  act : σ → ε → σ × List ω
  /-- What falls due falls due once, whenever somebody comes by. -/
  tick_tick : ∀ {i j : τ}, i ≤ j → ∀ s,
    (tick j (tick i s).1).1 = (tick j s).1 ∧
      (tick i s).2 ++ (tick j (tick i s).1).2 = (tick j s).2

namespace Ticking

variable {σ : Type u} {τ : Type t} [Preorder τ] {ε : Type v} {ω : Type w}

/-- The machine. -/
def machine (T : Ticking σ τ ε ω) : Machine σ ε ω where
  step s e :=
    let q := T.tick (T.time e) s
    let r := T.act q.1 e
    (r.1, q.2 ++ r.2)

variable (T : Ticking σ τ ε ω)

theorem machine_step (s : σ) (e : ε) : T.machine.step s e =
    ((T.act (T.tick (T.time e) s).1 e).1,
      (T.tick (T.time e) s).2 ++ (T.act (T.tick (T.time e) s).1 e).2) := rfl

/-- An event that does nothing but let time pass. -/
theorem machine_step_idle {s : σ} {e : ε} (h : ∀ s, T.act s e = (s, [])) :
    T.machine.step s e = T.tick (T.time e) s := by
  rw [machine_step, h, List.append_nil]

variable (p : ε → Bool)

/-- **The lag.**  A run without the events that only let time pass has caught up with the full run
as soon as time passes, no matter when: the states are the same then, and so is all that has been
emitted. -/
theorem run_lag (hidle : ∀ s e, p e = false → T.act s e = (s, [])) {es : List ε} :
    es.Pairwise (fun e f => T.time e ≤ T.time f) → ∀ {j : τ}, (∀ e ∈ es, T.time e ≤ j) → ∀ s : σ,
      (T.tick j (T.machine.run s es).1).1 = (T.tick j (T.machine.run s (es.filter p)).1).1 ∧
        (T.machine.run s es).2 ++ (T.tick j (T.machine.run s es).1).2 =
          (T.machine.run s (es.filter p)).2 ++ (T.tick j (T.machine.run s (es.filter p)).1).2 := by
  induction es using List.reverseRecOn with
  | nil => exact fun _ _ _ _ => ⟨rfl, rfl⟩
  | append_singleton es e ih =>
    intro hsorted j hj s
    obtain ⟨hes, -, hbefore⟩ := List.pairwise_append.mp hsorted
    have hej : T.time e ≤ j := hj e (by simp)
    rw [Machine.run_concat, List.filter_append, List.filter_singleton]
    cases hp : p e with
    | false =>
      -- the event falls behind the time that passes later
      obtain ⟨hstate, hout⟩ := ih hes (fun f hf => hj f (List.mem_append_left _ hf)) s
      obtain ⟨htick, htick'⟩ := T.tick_tick hej (T.machine.run s es).1
      rw [T.machine_step_idle fun s => hidle s e hp]
      simp only [cond_false, List.append_nil]
      refine ⟨htick.trans hstate, ?_⟩
      rw [List.append_assoc, htick', hout]
    | true =>
      -- at the time of the event the two runs are level
      obtain ⟨hstate, hout⟩ := ih hes (fun f hf => hbefore f hf e (by simp)) s
      have hsame : T.machine.run s (es ++ [e]) = T.machine.run s (es.filter p ++ [e]) := by
        rw [Machine.run_concat, Machine.run_concat, machine_step, machine_step, hstate,
          ← List.append_assoc, ← List.append_assoc, hout]
      rw [← Machine.run_concat, hsame]
      exact ⟨rfl, rfl⟩

/-- **Events that only let time pass can be purged from a run**, but for the last one, which says
how late it is. -/
theorem run_purge_ticks (hidle : ∀ s e, p e = false → T.act s e = (s, [])) {es : List ε} {e : ε}
    (hsorted : (es ++ [e]).Pairwise fun e f => T.time e ≤ T.time f) (s : σ) :
    T.machine.run s (es ++ [e]) = T.machine.run s (es.filter p ++ [e]) := by
  obtain ⟨hes, -, hbefore⟩ := List.pairwise_append.mp hsorted
  obtain ⟨hstate, hout⟩ := T.run_lag p hidle hes (fun f hf => hbefore f hf e (by simp)) s
  rw [Machine.run_concat, Machine.run_concat, machine_step, machine_step, hstate,
    ← List.append_assoc, ← List.append_assoc, hout]

end Ticking
