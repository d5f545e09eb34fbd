import Mathlib

/-!
# Loops without an exit condition

The body of a `while(true)` loop takes the variables to the next round or returns.  Nothing
says that it ever does.

* `Loop.Returns` — the loop returns, and in which round.
* `Loop.Reaches` — the states in which a round begins; `Loop.Reaches.invariant`.
* `Loop.exists_returns` — **the measure rule**: a quantity that every round but the last
  lowers by `d` bounds the number of rounds.
* `Loop.Returns.eq_of_unfolds` — a function that satisfies the equation of the loop is what it
  returns.
-/

universe u v

/-- A loop with the variables `σ` that returns a `ρ`. -/
structure Loop (σ : Type u) (ρ : Type v) where
  /-- One round: the variables for the next, or what is returned. -/
  body : σ → σ ⊕ ρ

namespace Loop

variable {σ : Type u} {ρ : Type v} (L : Loop σ ρ)

/-- Entered with `s`, the loop returns `r` in its round number `n`. -/
inductive Returns : σ → ℕ → ρ → Prop
  | leave {s : σ} {r : ρ} : L.body s = .inr r → Returns s 1 r
  | again {s s' : σ} {n : ℕ} {r : ρ} : L.body s = .inl s' → Returns s' n r → Returns s (n + 1) r

/-- Entered with `s`, the loop begins a round with `t`. -/
def Reaches (s t : σ) : Prop := Relation.ReflTransGen (fun a b => L.body a = .inl b) s t

variable {L} {s t : σ}

/-- What the rounds keep holds whenever one begins. -/
theorem Reaches.invariant {I : σ → Prop} (hstep : ∀ a b, I a → L.body a = .inl b → I b)
    (h : L.Reaches s t) (hs : I s) : I t := by
  induction h with
  | refl => exact hs
  | tail _ hround ih => exact hstep _ _ ih hround

/-- **The measure rule.**  If every round that does not return keeps `I` and lowers `m` by at
least `d`, the loop returns, in a round that `m` tells beforehand. -/
theorem exists_returns {I : σ → Prop} {m : σ → ℕ} {d : ℕ} (hd : 0 < d)
    (hstep : ∀ a b, I a → L.body a = .inl b → I b ∧ m b + d ≤ m a) :
    ∀ s, I s → ∃ n r, L.Returns s n r ∧ n ≤ m s / d + 1 := by
  intro s
  induction hm : m s using Nat.strong_induction_on generalizing s with
  | _ k ih =>
    intro hs
    cases hbody : L.body s with
    | inr r => exact ⟨1, r, .leave hbody, Nat.le_add_left 1 _⟩
    | inl s' =>
      obtain ⟨hs', hle⟩ := hstep s s' hs hbody
      obtain ⟨n, r, hreturns, hn⟩ := ih (m s') (by omega) s' rfl hs'
      have hdiv : m s' / d + 1 ≤ k / d := by
        rw [← Nat.add_div_right _ hd]
        exact Nat.div_le_div_right (hm ▸ hle)
      exact ⟨n + 1, r, .again hbody hreturns, by omega⟩

/-- A function that goes on as the loop does is what the loop returns. -/
theorem Returns.eq_of_unfolds {f : σ → ρ} (hf : ∀ a, f a = Sum.elim f id (L.body a)) {n : ℕ}
    {r : ρ} (h : L.Returns s n r) : r = f s := by
  induction h with
  | leave hbody => rw [hf, hbody, Sum.elim_inr, id]
  | again hbody _ ih => rw [hf, hbody, Sum.elim_inl, ih]

end Loop
