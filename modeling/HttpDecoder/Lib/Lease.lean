import Mathlib

/-!
# Leases

Something is held until an event ends it: the holder gives it up, or an event of anyone finds that
it has run out.  What is held after a run is told by the last event of the holder.

* `Lease` — which events are the holder's, what they grant, and which ones a lease does not
  outlive.
* `Lease.after_others` — events of others end a lease or leave it.
* `Lease.after_eq_some_iff` — **what is held was granted last, and nothing ended it since**.
-/

universe u v

/-- Leases with a term in `τ`, under events in `ε`. -/
structure Lease (ε : Type u) (τ : Type v) where
  /-- The event is the holder's. -/
  own : ε → Bool
  /-- The event finds that a lease with this term has run out. -/
  expires : ε → τ → Bool
  /-- What the holder is granted, by what it held. -/
  grant : ε → Option τ → Option τ

namespace Lease

variable {ε : Type u} {τ : Type v} (L : Lease ε τ)

/-- What an event leaves of a lease before the holder acts. -/
def kept (e : ε) (o : Option τ) : Option τ := o.filter fun t => !L.expires e t

/-- One event. -/
def step (o : Option τ) (e : ε) : Option τ :=
  if L.own e then L.grant e (L.kept e o) else L.kept e o

/-- What is held after a run. -/
def after (o : Option τ) (es : List ε) : Option τ := es.foldl L.step o

theorem step_own {e : ε} (h : L.own e = true) (o : Option τ) :
    L.step o e = L.grant e (L.kept e o) := if_pos h

theorem step_other {e : ε} (h : L.own e = false) (o : Option τ) : L.step o e = L.kept e o :=
  if_neg (Bool.eq_false_iff.mp h)

@[simp] theorem kept_none (e : ε) : L.kept e none = none := rfl

/-- A lease that has run out is not kept. -/
theorem kept_expired {e : ε} {t : τ} (h : L.expires e t = true) : L.kept e (some t) = none := by
  simp [kept, h]

/-- Any other is. -/
theorem kept_live {e : ε} {t : τ} (h : L.expires e t = false) :
    L.kept e (some t) = some t := by
  simp [kept, h]

theorem kept_eq_some_iff {e : ε} {o : Option τ} {t : τ} :
    L.kept e o = some t ↔ o = some t ∧ L.expires e t = false := by
  rw [kept, Option.filter_eq_some_iff, Bool.not_eq_true']

@[simp] theorem after_nil (o : Option τ) : L.after o [] = o := rfl

theorem after_cons (o : Option τ) (e : ε) (es : List ε) :
    L.after o (e :: es) = L.after (L.step o e) es := rfl

theorem after_append (o : Option τ) (es fs : List ε) :
    L.after o (es ++ fs) = L.after (L.after o es) fs := List.foldl_append

/-- Under events of others a lease lasts exactly if none of them finds that it has run out. -/
theorem after_others {es : List ε} (h : ∀ e ∈ es, L.own e = false) {o : Option τ} {t : τ} :
    L.after o es = some t ↔ o = some t ∧ ∀ e ∈ es, L.expires e t = false := by
  induction es generalizing o with
  | nil => simp
  | cons e es ih =>
    obtain ⟨he, hes⟩ := List.forall_mem_cons.mp h
    rw [after_cons, ih hes, L.step_other he, kept_eq_some_iff, List.forall_mem_cons, and_assoc]

/-- **What is held was granted by the last event of the holder, and nothing ended it since.** -/
theorem after_eq_some_iff {es : List ε} {t : τ} : L.after none es = some t ↔
    ∃ pre e post, es = pre ++ e :: post ∧ L.own e = true ∧ (∀ f ∈ post, L.own f = false) ∧
      L.grant e (L.kept e (L.after none pre)) = some t ∧ ∀ f ∈ post, L.expires f t = false := by
  constructor
  · intro h
    -- the last event of the holder, if there is one
    induction es using List.reverseRecOn generalizing t with
    | nil => cases h
    | append_singleton es e ih =>
      rw [after_append, after_cons, after_nil] at h
      cases he : L.own e with
      | true =>
        rw [L.step_own he] at h
        exact ⟨es, e, [], rfl, he, by simp, h, by simp⟩
      | false =>
        rw [L.step_other he, kept_eq_some_iff] at h
        obtain ⟨pre, f, post, rfl, hf, hpost, hgrant, hlast⟩ := ih h.1
        refine ⟨pre, f, post ++ [e], by simp, hf, ?_, hgrant, ?_⟩
        · exact List.forall_mem_append.mpr ⟨hpost, by simpa using he⟩
        · exact List.forall_mem_append.mpr ⟨hlast, by simpa using h.2⟩
  · rintro ⟨pre, e, post, rfl, he, hpost, hgrant, hlast⟩
    rw [after_append, after_cons, L.step_own he, L.after_others hpost]
    exact ⟨hgrant, hlast⟩

end Lease
