import Mathlib

/-!
# Machines with outputs

A machine reads events one by one and emits outputs.  A few rules carry facts
about one step to whole runs.

* `Machine.mem_run` — what a run emits is emitted by a step.
* `Machine.run_invariant` — what every step preserves holds after every run.
* `Machine.run_view` — **unwinding**: if one step of a machine, seen through a
  projection of its state and a filter of its outputs, is a step of a second
  machine, then so is every run.
* `Machine.run_filter` — events on which a machine stutters can be left out.
* `Machine.run_purge` — **noninterference**: events that cannot be told apart from no event, seen
  through a relation between states and a filter of the outputs, can be left out.
* `Machine.run_congr`, `Machine.run_absorb` — a relation that every event preserves is preserved by
  runs, and an event that a state absorbs can be put in.
* `Machine.Along` — a property holds after every event of a run.
* `Machine.run_sim` — two machines fed related events keep related states and
  emit related outputs.
-/

universe u v w u' v' w'

/-- A deterministic machine with outputs. -/
structure Machine (σ : Type u) (ε : Type v) (ω : Type w) where
  /-- The state after an event and what is emitted on the way. -/
  step : σ → ε → σ × List ω

namespace Machine

variable {σ : Type u} {ε : Type v} {ω : Type w}

/-- Feed a list of events and collect the outputs. -/
def run (M : Machine σ ε ω) : σ → List ε → σ × List ω
  | s, [] => (s, [])
  | s, e :: es => ((M.run (M.step s e).1 es).1, (M.step s e).2 ++ (M.run (M.step s e).1 es).2)

variable (M : Machine σ ε ω)

@[simp] theorem run_nil (s : σ) : M.run s [] = (s, []) := rfl

theorem run_cons (s : σ) (e : ε) (es : List ε) :
    M.run s (e :: es) =
      ((M.run (M.step s e).1 es).1, (M.step s e).2 ++ (M.run (M.step s e).1 es).2) := rfl

theorem run_append (s : σ) (es fs : List ε) :
    M.run s (es ++ fs) =
      ((M.run (M.run s es).1 fs).1, (M.run s es).2 ++ (M.run (M.run s es).1 fs).2) := by
  induction es generalizing s with
  | nil => simp
  | cons e es ih => simp [run_cons, ih]

theorem run_concat (s : σ) (es : List ε) (e : ε) :
    M.run s (es ++ [e]) =
      ((M.step (M.run s es).1 e).1, (M.run s es).2 ++ (M.step (M.run s es).1 e).2) := by
  simp [run_append, run_cons]

/-- `P` holds after every event of the run. -/
def Along (P : σ → Prop) : σ → List ε → Prop
  | _, [] => True
  | s, e :: es => P (M.step s e).1 ∧ Along P (M.step s e).1 es

theorem along_cons {P : σ → Prop} {s : σ} {e : ε} {es : List ε} :
    M.Along P s (e :: es) ↔ P (M.step s e).1 ∧ M.Along P (M.step s e).1 es := Iff.rfl

theorem along_append {P : σ → Prop} {s : σ} {es fs : List ε} :
    M.Along P s (es ++ fs) ↔ M.Along P s es ∧ M.Along P (M.run s es).1 fs := by
  induction es generalizing s with
  | nil => simp [Along]
  | cons e es ih =>
    rw [List.cons_append, along_cons, along_cons, ih, and_assoc]
    rfl

/-- What a run emits is emitted by one of its steps. -/
theorem mem_run {o : ω} : ∀ {s : σ} {es : List ε}, o ∈ (M.run s es).2 →
    ∃ pre e post, es = pre ++ e :: post ∧ o ∈ (M.step (M.run s pre).1 e).2 := by
  intro s es
  induction es generalizing s with
  | nil => exact fun h => absurd h List.not_mem_nil
  | cons e es ih =>
    intro h
    rw [run_cons] at h
    rcases List.mem_append.mp h with h | h
    · exact ⟨[], e, es, rfl, h⟩
    · obtain ⟨pre, e', post, rfl, ho⟩ := ih h
      exact ⟨e :: pre, e', post, rfl, ho⟩

/-- **Invariants.**  What holds at the start and is preserved by every allowed
step holds after every run of allowed events. -/
theorem run_invariant {I : σ → Prop} {A : ε → Prop}
    (hstep : ∀ s e, I s → A e → I (M.step s e).1) :
    ∀ (es : List ε) (s : σ), I s → (∀ e ∈ es, A e) → I (M.run s es).1 := by
  intro es
  induction es with
  | nil => intro s hs _; exact hs
  | cons e es ih =>
    intro s hs hok
    exact ih _ (hstep s e hs (hok e List.mem_cons_self))
      fun e' he' => hok e' (List.mem_cons_of_mem _ he')

/-- **Unwinding.**  A projection that commutes with every step commutes with
every run. -/
theorem run_view {τ : Type u'} {ω' : Type w'} (L : Machine τ ε ω') (view : σ → τ)
    (obs : ω → Option ω') {I : σ → Prop} {A : ε → Prop}
    (hinv : ∀ s e, I s → A e → I (M.step s e).1)
    (hview : ∀ s e, I s → A e → view (M.step s e).1 = (L.step (view s) e).1)
    (hobs : ∀ s e, I s → A e →
      (M.step s e).2.filterMap obs = (L.step (view s) e).2) :
    ∀ (es : List ε) (s : σ), I s → (∀ e ∈ es, A e) →
      view (M.run s es).1 = (L.run (view s) es).1 ∧
        (M.run s es).2.filterMap obs = (L.run (view s) es).2 := by
  intro es
  induction es with
  | nil => intro s _ _; exact ⟨rfl, rfl⟩
  | cons e es ih =>
    intro s hs hok
    have he : A e := hok e List.mem_cons_self
    obtain ⟨h₁, h₂⟩ := ih (M.step s e).1 (hinv s e hs he)
      fun e' he' => hok e' (List.mem_cons_of_mem _ he')
    rw [hview s e hs he] at h₁ h₂
    refine ⟨by simpa [run_cons] using h₁, ?_⟩
    rw [run_cons, run_cons, List.filterMap_append, hobs s e hs he, h₂]

/-- **Stuttering.**  Events that change nothing and emit nothing can be left
out. -/
theorem run_filter (p : ε → Bool) {A : ε → Prop}
    (hstep : ∀ s e, A e → p e = false → M.step s e = (s, [])) :
    ∀ (es : List ε) (s : σ), (∀ e ∈ es, A e) → M.run s es = M.run s (es.filter p) := by
  intro es
  induction es with
  | nil => intro s _; rfl
  | cons e es ih =>
    intro s hok
    have hes := fun e' he' => hok e' (List.mem_cons_of_mem _ he')
    cases hp : p e with
    | true => rw [List.filter_cons_of_pos hp, run_cons, run_cons, ih _ hes]
    | false =>
      rw [List.filter_cons_of_neg (by simp [hp]), run_cons,
        hstep s e (hok e List.mem_cons_self) hp, ih _ hes]
      simp

/-- **Noninterference.**  If the events that `p` keeps preserve a relation between states and
emit what `q` tells no difference of, and the others change neither side of it and emit nothing
that `q` lets through, then the others can be purged from every run. -/
theorem run_purge (p : ε → Bool) (q : ω → Bool) {R : σ → σ → Prop} {A : ε → Prop}
    (hkeep : ∀ s t e, R s t → A e → p e = true →
      R (M.step s e).1 (M.step t e).1 ∧ (M.step s e).2.filter q = (M.step t e).2.filter q)
    (hdrop : ∀ s t e, R s t → A e → p e = false →
      R (M.step s e).1 t ∧ (M.step s e).2.filter q = []) :
    ∀ (es : List ε) (s t : σ), R s t → (∀ e ∈ es, A e) →
      R (M.run s es).1 (M.run t (es.filter p)).1 ∧
        (M.run s es).2.filter q = (M.run t (es.filter p)).2.filter q := by
  intro es
  induction es with
  | nil => intro s t h _; exact ⟨h, rfl⟩
  | cons e es ih =>
    intro s t h hok
    have he : A e := hok e List.mem_cons_self
    have hes := fun e' he' => hok e' (List.mem_cons_of_mem _ he')
    cases hp : p e with
    | true =>
      obtain ⟨hR, hout⟩ := hkeep s t e h he hp
      obtain ⟨hR', hout'⟩ := ih _ _ hR hes
      rw [List.filter_cons_of_pos hp, run_cons, run_cons, List.filter_append, List.filter_append,
        hout, hout']
      exact ⟨hR', rfl⟩
    | false =>
      obtain ⟨hR, hout⟩ := hdrop s t e h he hp
      obtain ⟨hR', hout'⟩ := ih _ _ hR hes
      rw [List.filter_cons_of_neg (by simp [hp]), run_cons, List.filter_append, hout, hout']
      exact ⟨hR', rfl⟩

/-- **Congruence.**  A relation between states that every event preserves, with the same visible
outputs on both sides, is preserved by every run. -/
theorem run_congr {ω' : Type w'} (q : ω → Option ω') {R : σ → σ → Prop}
    (hstep : ∀ s t e, R s t →
      R (M.step s e).1 (M.step t e).1 ∧ (M.step s e).2.filterMap q = (M.step t e).2.filterMap q) :
    ∀ (es : List ε) (s t : σ), R s t →
      R (M.run s es).1 (M.run t es).1 ∧
        (M.run s es).2.filterMap q = (M.run t es).2.filterMap q := by
  intro es
  induction es with
  | nil => exact fun s t h => ⟨h, rfl⟩
  | cons e es ih =>
    intro s t h
    obtain ⟨hR, hout⟩ := hstep s t e h
    obtain ⟨hR', hout'⟩ := ih _ _ hR
    rw [run_cons, run_cons, List.filterMap_append, List.filterMap_append, hout, hout']
    exact ⟨hR', rfl⟩

/-- **Absorption.**  An event that some state absorbs, up to such a relation and without a visible
output, can be put into a run where it passes that state. -/
theorem run_absorb {ω' : Type w'} (q : ω → Option ω') {R : σ → σ → Prop}
    (hstep : ∀ s t e, R s t →
      R (M.step s e).1 (M.step t e).1 ∧ (M.step s e).2.filterMap q = (M.step t e).2.filterMap q)
    {s : σ} {pre : List ε} {e : ε} (habsorb : R (M.run s pre).1 (M.step (M.run s pre).1 e).1)
    (hsilent : (M.step (M.run s pre).1 e).2.filterMap q = []) (es : List ε) :
    R (M.run s (pre ++ es)).1 (M.run s (pre ++ e :: es)).1 ∧
      (M.run s (pre ++ es)).2.filterMap q = (M.run s (pre ++ e :: es)).2.filterMap q := by
  obtain ⟨hR, hout⟩ := M.run_congr q hstep es _ _ habsorb
  rw [run_append, run_append, run_cons]
  refine ⟨hR, ?_⟩
  rw [List.filterMap_append, List.filterMap_append, List.filterMap_append, hsilent, hout,
    List.nil_append]

/-- **Simulation.**  Machines that keep related states and emit related outputs
on related events do so along related runs. -/
theorem run_sim {τ : Type u'} {ε' : Type v'} {ω' : Type w'} (L : Machine τ ε' ω')
    {R : σ → τ → Prop} {E : ε → ε' → Prop} {O : ω → ω' → Prop}
    (hstep : ∀ s t e f, R s t → E e f →
      R (M.step s e).1 (L.step t f).1 ∧ List.Forall₂ O (M.step s e).2 (L.step t f).2)
    {es : List ε} {fs : List ε'} (hE : List.Forall₂ E es fs) :
    ∀ (s : σ) (t : τ), R s t →
      R (M.run s es).1 (L.run t fs).1 ∧ List.Forall₂ O (M.run s es).2 (L.run t fs).2 := by
  induction hE with
  | nil => intro s t h; exact ⟨h, List.Forall₂.nil⟩
  | cons he _ ih =>
    intro s t h
    obtain ⟨h₁, h₂⟩ := hstep s t _ _ h he
    obtain ⟨h₃, h₄⟩ := ih _ _ h₁
    exact ⟨h₃, List.rel_append h₂ h₄⟩

end Machine
