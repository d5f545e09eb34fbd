import Mathlib

/-!
# Lists with distinct keys

A bucket of a chained table is a list searched from the front.  When no two
elements carry the same key (`UniqueKeys`) the first match is the only match:
`lookup` finds exactly the elements of the list (`lookup_eq_some_iff`), and
erasing the first match erases every match (`eraseP_eq_filter`).  Lists that agree on every key
are permutations of each other (`perm_of_filter_eq`).
-/

namespace KeyedList

variable {α : Type*} {κ : Type*} {key : α → κ}

/-- No two elements of the list carry the same key. -/
def UniqueKeys (key : α → κ) (l : List α) : Prop := l.Pairwise fun a b => key a ≠ key b

theorem uniqueKeys_nil : UniqueKeys key [] := List.Pairwise.nil

theorem UniqueKeys.filter {l : List α} (h : UniqueKeys key l) (p : α → Bool) :
    UniqueKeys key (l.filter p) := List.Pairwise.filter p h

theorem UniqueKeys.congr {key' : α → κ} {l : List α} (h : ∀ a ∈ l, key a = key' a) :
    UniqueKeys key l ↔ UniqueKeys key' l := by
  refine List.Pairwise.iff_of_mem fun {a b} ha hb => ?_
  rw [h a ha, h b hb]

theorem UniqueKeys.nodup {l : List α} (h : UniqueKeys key l) : l.Nodup :=
  h.imp fun hab heq => hab (by rw [heq])

theorem UniqueKeys.eq_of_mem {l : List α} (h : UniqueKeys key l) {a b : α} (ha : a ∈ l)
    (hb : b ∈ l) (hab : key a = key b) : a = b := by
  induction l with
  | nil => exact absurd ha List.not_mem_nil
  | cons c l ih =>
    obtain ⟨hc, hl⟩ := List.pairwise_cons.mp h
    rcases List.mem_cons.mp ha with rfl | ha'
    · rcases List.mem_cons.mp hb with rfl | hb'
      · rfl
      · exact absurd hab (hc b hb')
    · rcases List.mem_cons.mp hb with rfl | hb'
      · exact absurd hab.symm (hc a ha')
      · exact ih hl ha' hb'

variable [DecidableEq κ]

/-- The first element with key `k`. -/
def lookup (key : α → κ) (k : κ) (l : List α) : Option α := l.find? fun a => key a = k

theorem lookup_eq_none_iff {k : κ} {l : List α} :
    lookup key k l = none ↔ ∀ a ∈ l, key a ≠ k := by
  simp [lookup]

theorem mem_of_lookup {k : κ} {l : List α} {a : α} (h : lookup key k l = some a) :
    a ∈ l ∧ key a = k :=
  ⟨List.mem_of_find?_eq_some h, by simpa using List.find?_some h⟩

/-- With distinct keys the first match is any match. -/
theorem lookup_eq_some_iff {l : List α} (h : UniqueKeys key l) {k : κ} {a : α} :
    lookup key k l = some a ↔ a ∈ l ∧ key a = k := by
  refine ⟨mem_of_lookup, ?_⟩
  rintro ⟨ha, rfl⟩
  cases hl : lookup key (key a) l with
  | none => exact absurd rfl (lookup_eq_none_iff.mp hl a ha)
  | some b =>
    obtain ⟨hb, hk⟩ := mem_of_lookup hl
    rw [h.eq_of_mem hb ha hk]

theorem lookup_congr {key' : α → κ} {l : List α} (h : ∀ a ∈ l, key a = key' a) (k : κ) :
    lookup key k l = lookup key' k l := by
  induction l with
  | nil => rfl
  | cons a l ih =>
    have ha := h a List.mem_cons_self
    have ih := ih fun b hb => h b (List.mem_cons_of_mem _ hb)
    simp only [lookup, List.find?_cons, ha] at ih ⊢
    rw [ih]

theorem lookup_concat {k : κ} {l : List α} {a : α} :
    lookup key k (l ++ [a]) =
      (lookup key k l).or (if key a = k then some a else none) := by
  unfold lookup
  rw [List.find?_append]
  congr 1
  by_cases h : key a = k <;> simp [h]

theorem lookup_filter {k : κ} {l : List α} {p : α → Bool}
    (h : ∀ a ∈ l, key a = k → p a = true) : lookup key k (l.filter p) = lookup key k l := by
  induction l with
  | nil => rfl
  | cons a l ih =>
    have ih := ih fun b hb => h b (List.mem_cons_of_mem _ hb)
    unfold lookup at ih ⊢
    cases hp : p a with
    | true => rw [List.filter_cons_of_pos hp, List.find?_cons, List.find?_cons, ih]
    | false =>
      have hk : key a ≠ k := fun hk => by simp [h a List.mem_cons_self hk] at hp
      rw [List.filter_cons_of_neg (by simp [hp]), ih, List.find?_cons_of_neg (by simp [hk])]

theorem UniqueKeys.concat {l : List α} (h : UniqueKeys key l) {a : α}
    (ha : lookup key (key a) l = none) : UniqueKeys key (l ++ [a]) := by
  refine List.pairwise_append.mpr ⟨h, List.pairwise_singleton _ _, ?_⟩
  intro b hb c hc
  rw [List.mem_singleton] at hc
  rw [hc]
  exact lookup_eq_none_iff.mp ha b hb

/-- With distinct keys, erasing the first match erases every match. -/
theorem eraseP_eq_filter {l : List α} (h : UniqueKeys key l) (k : κ) :
    l.eraseP (fun a => key a = k) = l.filter fun a => key a ≠ k := by
  induction l with
  | nil => rfl
  | cons a l ih =>
    obtain ⟨hal, hl⟩ := List.pairwise_cons.mp h
    by_cases hk : key a = k
    · rw [List.eraseP_cons_of_pos (by simp [hk]), List.filter_cons_of_neg (by simp [hk])]
      refine (List.filter_eq_self.mpr fun b hb => ?_).symm
      have := hal b hb
      rw [hk] at this
      simpa using this.symm
    · rw [List.eraseP_cons_of_neg (by simp [hk]), List.filter_cons_of_pos (by simp [hk]), ih hl]

variable (key) in
/-- Lists with the same elements for every key, in the same order, are permutations of each
other. -/
theorem perm_of_filter_eq {l l' : List α}
    (h : ∀ k, (l.filter fun a => key a = k) = l'.filter fun a => key a = k) : l.Perm l' := by
  classical
  have hcount : ∀ (l : List α) a, l.count a = (l.filter fun b => key b = key a).count a := by
    intro l a
    rw [List.count_filter (by simp)]
  refine List.perm_iff_count.mpr fun a => ?_
  rw [hcount l, hcount l', h]

end KeyedList
