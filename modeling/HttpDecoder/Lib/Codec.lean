import Mathlib

/-!
# Texts that can be told from what follows them

A text written without its length is read back if its end can be told.  `Readable S enc` says
that this is so for the texts `enc a` of the values in `S`, whatever comes behind them; reading
is then a function, and the texts of a list of values are as readable as each of them.

* `Readable.append`, `Readable.between` — texts made of texts.
* `readable_until` — a text up to a separator that it does not have in it.
* `readable_before` — a text up to a marker of several elements; `before_iff`.
* `readable_span` — a text of one kind of elements, then something of another kind.
* `Readable.rows` — texts in a row, then something that begins in another way.
* `Readable.flatMap_inj` — **a list of values is told by its texts**.
-/

namespace Codec

universe u v w

variable {α : Type u} {β : Type v} {γ : Type w}

/-- The texts of the values in `S` can be told from whatever follows them. -/
def Readable (S : α → Prop) (enc : α → List β) : Prop :=
  ∀ ⦃a b : α⦄ ⦃x y : List β⦄, S a → S b → enc a ++ x = enc b ++ y → a = b ∧ x = y

variable {S : α → Prop} {T : γ → Prop} {enc : α → List β} {enc' : γ → List β}

/-! ## Texts made of texts -/

/-- One text behind the other. -/
theorem Readable.append (h : Readable S enc) (h' : Readable T enc') :
    Readable (fun p : α × γ => S p.1 ∧ T p.2) fun p => enc p.1 ++ enc' p.2 := by
  rintro ⟨a, c⟩ ⟨b, d⟩ x y ⟨ha, hc⟩ ⟨hb, hd⟩ heq
  rw [List.append_assoc, List.append_assoc] at heq
  obtain ⟨rfl, hrest⟩ := h ha hb heq
  obtain ⟨rfl, hxy⟩ := h' hc hd hrest
  exact ⟨rfl, hxy⟩

/-- A text between two others that are always the same. -/
theorem Readable.between (h : Readable S enc) (before after : List β) :
    Readable S fun a => before ++ enc a ++ after := by
  intro a b x y ha hb heq
  simp only [List.append_assoc] at heq
  obtain ⟨rfl, hrest⟩ := h ha hb (List.append_cancel_left heq)
  exact ⟨rfl, List.append_cancel_left hrest⟩

/-- Fewer values. -/
theorem Readable.mono (h : Readable S enc) {S' : α → Prop} (hsub : ∀ a, S' a → S a) :
    Readable S' enc := fun _ _ _ _ ha hb heq => h (hsub _ ha) (hsub _ hb) heq

/-! ## Separators and markers -/

/-- The first `m` in `w ++ m` is the one at its end. -/
def Before (m w : List β) : Prop := ∀ u v, w ++ m = u ++ (m ++ v) → v = []

/-- So it is if there is none before. -/
theorem before_iff {m w : List β} (hm : m ≠ []) : Before m w ↔ ¬ m <:+: (w ++ m).dropLast := by
  have hne : w ++ m ≠ [] := List.append_ne_nil_of_right_ne_nil w hm
  constructor
  · rintro h ⟨u, v, huv⟩
    have hlast := h u (v ++ [(w ++ m).getLast hne]) (by
      rw [← List.append_assoc, ← List.append_assoc, huv, List.dropLast_append_getLast])
    simp at hlast
  · intro h u v huv
    rcases List.eq_nil_or_concat v with rfl | ⟨v', z, rfl⟩
    · rfl
    · refine absurd ⟨u, v', ?_⟩ h
      rw [huv, List.concat_eq_append, ← List.append_assoc, ← List.append_assoc,
        List.dropLast_concat]

instance decidableBefore [DecidableEq β] (m w : List β) : Decidable (Before m w) :=
  if hm : m = [] then
    decidable_of_iff (w = [])
      ⟨by rintro rfl u v huv; subst hm; exact (List.append_eq_nil_iff.mp huv.symm).2,
        fun h => h [] w (by simp [hm])⟩
  else decidable_of_iff _ (before_iff hm).symm

/-- **A text up to a marker.** -/
theorem readable_before (m : List β) : Readable (Before m) fun w => w ++ m := by
  -- the shorter of two texts ends at an occurrence of the marker in the longer one
  have hshort : ∀ {w w' x y : List β}, Before m w' → w ++ m ++ x = w' ++ m ++ y →
      w.length ≤ w'.length → w = w' := by
    intro w w' x y hw' heq hle
    obtain ⟨v, hv⟩ : w ++ m <+: w' ++ m := by
      refine List.prefix_of_prefix_length_le ⟨x, heq⟩ (List.prefix_append _ y) ?_
      rw [List.length_append, List.length_append]
      omega
    have hnil := hw' w v (by rw [← hv, List.append_assoc])
    rw [hnil, List.append_nil] at hv
    exact List.append_cancel_right hv
  intro w w' x y hw hw' heq
  have hsame : w = w' := by
    rcases Nat.le_total w.length w'.length with hle | hle
    · exact hshort hw' heq hle
    · exact (hshort hw heq.symm hle).symm
  subst hsame
  exact ⟨rfl, List.append_cancel_left heq⟩

/-- **A text up to a separator.** -/
theorem readable_until (t : β) : Readable (fun w => t ∉ w) fun w => w ++ [t] := by
  refine (readable_before [t]).mono fun w hw => ?_
  rw [before_iff (List.cons_ne_nil _ _), List.dropLast_concat, List.singleton_infix_iff]
  exact hw

/-- **A text of one kind of elements**, then something that is not of the kind. -/
theorem readable_span (p : β → Prop) {w w' x y : List β} (hw : ∀ b ∈ w, p b)
    (hw' : ∀ b ∈ w', p b) (hx : ∀ b ∈ x.head?, ¬ p b) (hy : ∀ b ∈ y.head?, ¬ p b)
    (heq : w ++ x = w' ++ y) : w = w' ∧ x = y := by
  -- what one of the two has more begins with an element of the kind and of another
  have hnone : ∀ {v r s : List β}, r = v ++ s → (∀ b ∈ v, p b) → (∀ b ∈ r.head?, ¬ p b) →
      v = [] := by
    rintro (_ | ⟨b, v⟩) r s rfl hv hr
    · rfl
    · exact absurd (hv b List.mem_cons_self) (hr b rfl)
  rcases List.append_eq_append_iff.mp heq with ⟨v, rfl, hxv⟩ | ⟨v, rfl, hyv⟩
  · obtain rfl := hnone hxv (fun b hb => hw' b (List.mem_append_right _ hb)) hx
    exact ⟨(List.append_nil _).symm, hxv⟩
  · obtain rfl := hnone hyv (fun b hb => hw b (List.mem_append_right _ hb)) hy
    exact ⟨List.append_nil _, hyv.symm⟩

/-! ## Texts in a row -/

/-- **Texts in a row**, each of which begins with `t`, then something that does not. -/
theorem Readable.rows (h : Readable S enc) {t : β} (ht : ∀ a, S a → (enc a).head? = some t) :
    ∀ {l l' : List α} {x y : List β}, (∀ a ∈ l, S a) → (∀ a ∈ l', S a) → x.head? ≠ some t →
      y.head? ≠ some t → l.flatMap enc ++ x = l'.flatMap enc ++ y → l = l' ∧ x = y := by
  -- a row is not mistaken for what comes behind the rows
  have hrow : ∀ {a : α} {l : List α} {x z : List β}, S a → x.head? ≠ some t →
      (a :: l).flatMap enc ++ z ≠ x := by
    rintro a l x z ha hx rfl
    refine hx ?_
    rw [List.flatMap_cons, List.append_assoc, List.head?_append, ht a ha]
    rfl
  intro l
  induction l with
  | nil =>
    rintro (_ | ⟨b, l'⟩) x y - hl' hx - heq
    · exact ⟨rfl, heq⟩
    · exact absurd heq.symm (hrow (hl' b List.mem_cons_self) hx)
  | cons a l ih =>
    rintro (_ | ⟨b, l'⟩) x y hl hl' hx hy heq
    · exact absurd heq (hrow (hl a List.mem_cons_self) hy)
    · rw [List.flatMap_cons, List.flatMap_cons, List.append_assoc, List.append_assoc] at heq
      obtain ⟨rfl, hrest⟩ := h (hl a List.mem_cons_self) (hl' b List.mem_cons_self) heq
      obtain ⟨rfl, hxy⟩ := ih (fun c hc => hl c (List.mem_cons_of_mem _ hc))
        (fun c hc => hl' c (List.mem_cons_of_mem _ hc)) hx hy hrest
      exact ⟨rfl, hxy⟩

/-- **A list of values is told by its texts**, if none of them is empty. -/
theorem Readable.flatMap_inj (h : Readable S enc) (hne : ∀ a, S a → enc a ≠ []) :
    ∀ {l l' : List α}, (∀ a ∈ l, S a) → (∀ a ∈ l', S a) → l.flatMap enc = l'.flatMap enc →
      l = l' := by
  have hsome : ∀ {a : α} {l : List α}, S a → (a :: l).flatMap enc ≠ [] := by
    intro a l ha
    rw [List.flatMap_cons]
    exact List.append_ne_nil_of_left_ne_nil (hne a ha) _
  intro l
  induction l with
  | nil =>
    rintro (_ | ⟨b, l'⟩) - hl' heq
    · rfl
    · exact absurd heq.symm (hsome (hl' b List.mem_cons_self))
  | cons a l ih =>
    rintro (_ | ⟨b, l'⟩) hl hl' heq
    · exact absurd heq (hsome (hl a List.mem_cons_self))
    · rw [List.flatMap_cons, List.flatMap_cons] at heq
      obtain ⟨rfl, hrest⟩ := h (hl a List.mem_cons_self) (hl' b List.mem_cons_self) heq
      rw [ih (fun c hc => hl c (List.mem_cons_of_mem _ hc))
        (fun c hc => hl' c (List.mem_cons_of_mem _ hc)) hrest]

end Codec
