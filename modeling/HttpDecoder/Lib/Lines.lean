import Mathlib

/-!
# Lists cut into lines

A list is cut at each occurrence of a separator, and some lines count as empty.

* `FirstCut` — a list cut at the first occurrence of an element; the cut is unique
  (`FirstCut.unique`).
* `FirstCut.of_append` — where the first occurrence lies when some occurrence is known;
  `FirstCut.drop` — leaving out the beginning of the first line.
* `AfterEmpty` — the position behind the first empty line, of which there is one at most
  (`AfterEmpty.unique`).
-/

namespace Lines

variable {α : Type*} {t : α} {l w rest : List α}

/-! ## The first occurrence -/

/-- `w` lies before the first `t` of `l`, and `rest` behind it. -/
structure FirstCut (t : α) (l w rest : List α) : Prop where
  eq : l = w ++ t :: rest
  /-- There is none before. -/
  first : t ∉ w

theorem FirstCut.length_eq (h : FirstCut t l w rest) :
    l.length = w.length + (rest.length + 1) := by
  rw [h.eq, List.length_append, List.length_cons]

/-- A list with a `t` in it can be cut. -/
theorem exists_firstCut (h : t ∈ l) : ∃ w rest, FirstCut t l w rest := by
  obtain ⟨w, rest, hl, hw⟩ := List.eq_append_cons_of_mem h
  exact ⟨w, rest, hl, hw⟩

/-- Any occurrence of `t` is the first one, or lies behind it. -/
theorem FirstCut.of_append {a b : List α} (h : FirstCut t l w rest) (hl : l = a ++ t :: b) :
    (a = w ∧ b = rest) ∨ ∃ v, a = w ++ t :: v ∧ rest = v ++ t :: b := by
  have heq : w ++ t :: rest = a ++ t :: b := h.eq.symm.trans hl
  rcases List.append_eq_append_iff.mp heq with ⟨v, ha, hv⟩ | ⟨v, hw, hv⟩
  · cases v with
    | nil =>
      rw [List.append_nil] at ha
      exact Or.inl ⟨ha, (List.cons.inj hv).2.symm⟩
    | cons x v =>
      obtain ⟨rfl, hrest⟩ := List.cons.inj hv
      exact Or.inr ⟨v, ha, hrest⟩
  · cases v with
    | nil =>
      rw [List.append_nil] at hw
      exact Or.inl ⟨hw.symm, (List.cons.inj hv).2⟩
    | cons x v =>
      obtain ⟨rfl, -⟩ := List.cons.inj hv
      exact absurd (hw ▸ List.mem_append_right a List.mem_cons_self) h.first

/-- **The cut is unique.** -/
theorem FirstCut.unique {w' rest' : List α} (h : FirstCut t l w rest)
    (h' : FirstCut t l w' rest') : w = w' ∧ rest = rest' := by
  rcases h.of_append h'.eq with ⟨hw, hrest⟩ | ⟨v, hw, -⟩
  · exact ⟨hw.symm, hrest.symm⟩
  · exact absurd (hw ▸ List.mem_append_right w List.mem_cons_self) h'.first

/-- What lies before no occurrence is not in `w` either. -/
theorem FirstCut.notMem {u : α} {a b : List α} (h : FirstCut t l w rest) (hl : l = a ++ t :: b)
    (hu : u ∉ a) : u ∉ w := by
  rcases h.of_append hl with ⟨rfl, -⟩ | ⟨v, rfl, -⟩
  · exact hu
  · exact fun hw => hu (List.mem_append_left _ hw)

/-- A part without the separator belongs to the first line. -/
theorem FirstCut.drop {p : List α} (h : FirstCut t (p ++ l) w rest) (hp : t ∉ p) :
    ∃ v, w = p ++ v ∧ FirstCut t l v rest := by
  rcases List.append_eq_append_iff.mp h.eq with ⟨v, hw, hl⟩ | ⟨v, hpw, hl⟩
  · exact ⟨v, hw, hl, fun ht => h.first (hw ▸ List.mem_append_right p ht)⟩
  · cases v with
    | nil => exact ⟨[], by simpa using hpw.symm, hl.symm, List.not_mem_nil⟩
    | cons x v =>
      refine absurd ?_ hp
      rw [hpw, (List.cons.inj hl).1]
      exact List.mem_append_right w List.mem_cons_self

/-! ## The first empty line -/

/-- `AfterEmpty t E l n`: the first line of `l` that is empty in the sense of `E` ends,
with its separator, after `n` elements. -/
inductive AfterEmpty (t : α) (E : List α → Prop) : List α → Nat → Prop
  | here {l w rest : List α} : FirstCut t l w rest → E w → AfterEmpty t E l (w.length + 1)
  | later {l w rest : List α} {n : Nat} : FirstCut t l w rest → ¬ E w → AfterEmpty t E rest n →
    AfterEmpty t E l (w.length + 1 + n)

/-- The position lies behind a separator of the list. -/
theorem AfterEmpty.bounds {E : List α → Prop} {n : Nat} (h : AfterEmpty t E l n) :
    1 ≤ n ∧ n ≤ l.length := by
  induction h with
  | here hcut _ =>
    rw [hcut.length_eq]
    omega
  | later hcut _ _ ih =>
    rw [hcut.length_eq]
    omega

/-- **There is one such position at most.** -/
theorem AfterEmpty.unique {E : List α → Prop} {n : Nat} (h : AfterEmpty t E l n) :
    ∀ {n' : Nat}, AfterEmpty t E l n' → n = n' := by
  induction h with
  | here hcut hempty =>
    intro n' h'
    cases h' with
    | here hcut' _ => rw [(hcut.unique hcut').1]
    | later hcut' hfull _ => exact absurd ((hcut.unique hcut').1 ▸ hempty) hfull
  | later hcut hfull _ ih =>
    intro n' h'
    cases h' with
    | here hcut' hempty => exact absurd ((hcut.unique hcut').1 ▸ hempty) hfull
    | later hcut' _ hrest =>
      obtain ⟨rfl, rfl⟩ := hcut.unique hcut'
      rw [ih hrest]

end Lines
