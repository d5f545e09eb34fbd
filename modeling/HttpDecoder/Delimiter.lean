import HttpDecoder.HttpParse

/-!
# Searching the unread bytes

What `GetBufByTag` finds, told by the bytes it searches.

* `Unread` — the bytes of a buffer from the cursor on, with the facts that keep the
  unsigned cursor arithmetic from wrapping.
* `Unread.getBufAt_found`, `Unread.getBufAt_absent` — the search for one byte.
* `Unread.getBufAt_crlf`, `Unread.getBufAt_noCrlf`, `Unread.getBufAt_cut` — the search
  for CR LF, whose answer depends on the byte behind the buffer when the buffer ends in
  a CR.
-/

namespace HttpDecoder

open CLib

/-- The two-byte line end. -/
def crlf : Bytes := [cr, lf]

/-! ## The search loop -/

/-- The loop stops at the first match. -/
theorem findTag_eq_some {inp : Mem} {tag : Bytes} {j : Nat} :
    ∀ {i n : Nat}, j < n → strncmpEq (inp.shift (i + j)) tag = true →
      (∀ k, k < j → strncmpEq (inp.shift (i + k)) tag = false) →
      findTag inp tag i n = some (i + j) := by
  induction j with
  | zero =>
    intro i n hn hmatch _
    obtain ⟨n, rfl⟩ := Nat.exists_eq_succ_of_ne_zero (Nat.ne_of_gt hn)
    rw [findTag, if_pos (by simpa using hmatch), Nat.add_zero]
  | succ j ih =>
    intro i n hn hmatch hbefore
    obtain ⟨n, rfl⟩ := Nat.exists_eq_succ_of_ne_zero (Nat.ne_of_gt (Nat.zero_lt_of_lt hn))
    have hfirst : strncmpEq (inp.shift i) tag = false := by
      simpa using hbefore 0 (Nat.succ_pos j)
    have hshift : ∀ k, i + 1 + k = i + (k + 1) := fun k => by omega
    rw [findTag, if_neg (by simp [hfirst]), ih (by omega) (by rw [hshift]; exact hmatch)
      (fun k hk => by rw [hshift]; exact hbefore (k + 1) (by omega)), hshift]

/-- The loop runs to the end if nothing matches. -/
theorem findTag_eq_none {inp : Mem} {tag : Bytes} {n : Nat} :
    ∀ {i : Nat}, (∀ k, k < n → strncmpEq (inp.shift (i + k)) tag = false) →
      findTag inp tag i n = none := by
  induction n with
  | zero =>
    intro i _
    rfl
  | succ n ih =>
    intro i hnone
    have hfirst : strncmpEq (inp.shift i) tag = false := by
      simpa using hnone 0 (Nat.succ_pos n)
    rw [findTag, if_neg (by simp [hfirst])]
    refine ih fun k hk => ?_
    rw [show i + 1 + k = i + (k + 1) by omega]
    exact hnone (k + 1) (by omega)

/-! ## Two bytes in a row -/

/-- Two neighbours of a list are an infix. -/
theorem infix_of_neighbours {α : Type} {l : List α} {k : Nat} {a b : α} (ha : l[k]? = some a)
    (hb : l[k + 1]? = some b) : [a, b] <:+: l := by
  obtain ⟨hk, rfl⟩ := List.getElem?_eq_some_iff.mp ha
  obtain ⟨hk', rfl⟩ := List.getElem?_eq_some_iff.mp hb
  refine ⟨l.take k, l.drop (k + 2), ?_⟩
  have hdrop : l.drop k = l[k] :: l[k + 1] :: l.drop (k + 2) := by
    rw [List.drop_eq_getElem_cons hk, List.drop_eq_getElem_cons hk']
  rw [List.append_assoc, List.cons_append, List.cons_append, List.nil_append, ← hdrop,
    List.take_append_drop]

/-- A list with the pair in it is cut at its first occurrence. -/
theorem exists_first_pair {α : Type} {a b : α} {l : List α}
    (h : [a, b] <:+: l) : ∃ w rest, l = w ++ a :: b :: rest ∧ ¬ [a, b] <:+: w := by
  induction l with
  | nil => exact absurd (List.eq_nil_of_infix_nil h) (by simp)
  | cons x l ih =>
    rcases List.infix_cons_iff.mp h with hpre | hin
    · obtain ⟨rest, hrest⟩ := hpre
      exact ⟨[], rest, hrest.symm, fun hnil => absurd (List.eq_nil_of_infix_nil hnil) (by simp)⟩
    · obtain ⟨w, rest, rfl, hw⟩ := ih hin
      by_cases hfirst : [a, b] <+: x :: (w ++ a :: b :: rest)
      · obtain ⟨rest', hrest'⟩ := hfirst
        exact ⟨[], rest', hrest'.symm,
          fun hnil => absurd (List.eq_nil_of_infix_nil hnil) (by simp)⟩
      · refine ⟨x :: w, rest, rfl, fun hpair => ?_⟩
        rcases List.infix_cons_iff.mp hpair with hpre | hin'
        · obtain ⟨t, ht⟩ := hpre
          refine hfirst ⟨t ++ a :: b :: rest, ?_⟩
          rw [← List.append_assoc, ht]
          rfl
        · exact hw hin'

/-! ## The unread bytes -/

/-- From the cursor `pos` to the length `len`, the buffer holds `bs`.  The length is one
that an `int` can count. -/
structure Unread (pBuf : Mem) (len pos : Nat) (bs : Bytes) : Prop where
  holds : pBuf.Holds pos bs
  /-- They reach to the end. -/
  length : pos + bs.length = len
  /-- The length is positive as an `int`. -/
  small : len < 2 ^ 31

namespace Unread

variable {pBuf : Mem} {len pos : Nat} {bs w rest out : Bytes} {t : UInt8}

theorem pos_le (h : Unread pBuf len pos bs) : pos ≤ len := by
  have hlength := h.length
  omega

/-- `len-pos` counts the unread bytes. -/
theorem sub32_eq (h : Unread pBuf len pos bs) : sub32 len pos = bs.length := by
  have hlength := h.length
  have hsmall := h.small
  rw [sub32_of_le h.pos_le (by omega)]
  omega

theorem get (h : Unread pBuf len pos bs) {i : Nat} (hi : i < bs.length) : pBuf (pos + i) = bs[i] :=
  h.holds.get hi

/-- Reading on. -/
theorem drop (h : Unread pBuf len pos (w ++ rest)) : Unread pBuf len (pos + w.length) rest := by
  have hlength := h.length
  rw [List.length_append] at hlength
  exact ⟨(Mem.holds_append.mp h.holds).2, by omega, h.small⟩

/-- The cursor moved behind a delimiter does not wrap. -/
theorem advance (h : Unread pBuf len pos (w ++ t :: rest)) :
    Unread pBuf len (u32 (pos + (w.length + 1))) rest := by
  have hdrop : Unread pBuf len (pos + (w ++ [t]).length) rest := by
    refine Unread.drop (w := w ++ [t]) ?_
    rwa [List.append_assoc]
  have hlength := hdrop.pos_le
  have hsmall := h.small
  rw [List.length_append, List.length_singleton] at hdrop hlength
  rwa [u32_of_lt (by omega)]

/-- The search, without the conversions. -/
theorem getBufAt_eq (h : Unread pBuf len pos bs) (tag : Bytes) :
    getBufAt pBuf len pos tag out =
      (findTag (pBuf.shift pos) tag 0 bs.length).map fun i => (i, out ++ pBuf.read pos i) := by
  have hlength := h.length
  have hsmall := h.small
  unfold getBufAt getBufByTag
  rw [h.sub32_eq, toInt32_of_lt (by omega), Int.toNat_natCast]
  simp only [Mem.read_shift, Nat.add_zero]

/-- A search that stops behind `w` appends `w`. -/
theorem getBufAt_of_findTag (h : Unread pBuf len pos (w ++ rest)) {tag : Bytes}
    (hfind : findTag (pBuf.shift pos) tag 0 (w ++ rest).length = some w.length) :
    getBufAt pBuf len pos tag out = some (w.length, out ++ w) := by
  rw [h.getBufAt_eq, hfind, Option.map_some,
    show pBuf.read pos w.length = w from (Mem.holds_append.mp h.holds).1]

/-! ### One byte -/

/-- The byte is there: the output is what lies before it. -/
theorem getBufAt_found (h : Unread pBuf len pos (w ++ t :: rest)) (ht : t ∉ w) :
    getBufAt pBuf len pos [t] out = some (w.length, out ++ w) := by
  refine h.getBufAt_of_findTag ?_
  rw [← Nat.zero_add w.length]
  refine findTag_eq_some (by simp) ?_ fun k hk => ?_
  · rw [strncmpEq_single, decide_eq_true_iff]
    simpa using h.get (i := w.length) (by simp)
  · rw [strncmpEq_single, decide_eq_false_iff_not]
    have hbyte : pBuf (pos + k) = w[k] := by
      rw [h.get (by simp; omega), List.getElem_append_left hk]
    simp only [Mem.shift_apply, Nat.zero_add, Nat.add_zero, hbyte]
    exact fun heq => ht (heq ▸ List.getElem_mem hk)

/-- The byte is not there. -/
theorem getBufAt_absent (h : Unread pBuf len pos bs) (ht : t ∉ bs) :
    getBufAt pBuf len pos [t] out = none := by
  rw [h.getBufAt_eq, findTag_eq_none, Option.map_none]
  intro k hk
  rw [strncmpEq_single, decide_eq_false_iff_not]
  simp only [Mem.shift_apply, Nat.zero_add, Nat.add_zero, h.get hk]
  exact fun heq => ht (heq ▸ List.getElem_mem hk)

/-! ### CR LF -/

/-- Where the comparison with CR LF succeeds. -/
theorem strncmpEq_crlf (m : Mem) (k : Nat) :
    strncmpEq (m.shift k) crlf = decide (m k = cr ∧ m (k + 1) = lf) := by
  rw [crlf, strncmpEq_pair _ (show cr ≠ 0 by decide)]
  rfl

/-- Inside bytes without CR LF, only the last one can begin a match. -/
theorem not_crlf_at (h : pBuf.Holds pos bs) (hno : ¬ crlf <:+: bs) {k : Nat}
    (hk : k + 1 < bs.length) : strncmpEq ((pBuf.shift pos).shift (0 + k)) crlf = false := by
  rw [strncmpEq_crlf, decide_eq_false_iff_not]
  rintro ⟨hcr, hlf⟩
  rw [Nat.zero_add, Mem.shift_apply, h.get (by omega)] at hcr
  rw [Nat.zero_add, Mem.shift_apply, h.get hk] at hlf
  exact hno (infix_of_neighbours (List.getElem?_eq_some_iff.mpr ⟨by omega, hcr⟩)
    (List.getElem?_eq_some_iff.mpr ⟨hk, hlf⟩))

/-- One more CR makes no CR LF. -/
theorem not_crlf_concat_cr (hno : ¬ crlf <:+: w) : ¬ crlf <:+: w ++ [cr] := by
  intro hpair
  rcases List.infix_concat_iff.mp hpair with hsuffix | hin
  · obtain ⟨l, hl⟩ := hsuffix
    have hlast := congrArg List.getLast? hl
    rw [List.getLast?_append_of_ne_nil _ (by simp [crlf]), List.getLast?_concat] at hlast
    exact absurd hlast (by decide)
  · exact hno hin

/-- The search stops behind `w` if CR LF follows in memory, be it in the buffer or
behind it. -/
theorem findTag_crlf (hcr : pBuf.Holds pos (w ++ [cr])) (hlf : pBuf (pos + w.length + 1) = lf)
    (hno : ¬ crlf <:+: w) {n : Nat} (hn : w.length < n) :
    findTag (pBuf.shift pos) crlf 0 n = some w.length := by
  have hlast : pBuf (pos + w.length) = cr := by
    simpa using (Mem.holds_append.mp hcr).2.get (i := 0) (by simp)
  rw [← Nat.zero_add w.length]
  refine findTag_eq_some hn ?_ fun k hk => not_crlf_at hcr (not_crlf_concat_cr hno) ?_
  · rw [strncmpEq_crlf, decide_eq_true_iff, Nat.zero_add]
    exact ⟨hlast, hlf⟩
  · rw [List.length_append, List.length_singleton]
    omega

/-- CR LF is there: the output is what lies before its first occurrence. -/
theorem getBufAt_crlf (h : Unread pBuf len pos (w ++ cr :: lf :: rest)) (hno : ¬ crlf <:+: w) :
    getBufAt pBuf len pos crlf out = some (w.length, out ++ w) := by
  have hsplit : w ++ cr :: lf :: rest = (w ++ [cr]) ++ lf :: rest := by simp
  have hholds := h.holds
  rw [hsplit] at hholds
  obtain ⟨hcr, hlf⟩ := Mem.holds_append.mp hholds
  rw [List.length_append, List.length_singleton] at hlf
  exact h.getBufAt_of_findTag (findTag_crlf hcr (Mem.holds_cons.mp hlf).1 hno (by simp))

/-- The buffer is cut between CR and LF: the byte behind it decides. -/
theorem getBufAt_cut (h : Unread pBuf len pos (w ++ [cr])) (hno : ¬ crlf <:+: w) :
    getBufAt pBuf len pos crlf out = if pBuf len = lf then some (w.length, out ++ w) else none := by
  have hlength := h.length
  rw [List.length_append, List.length_singleton] at hlength
  by_cases hlf : pBuf len = lf
  · rw [if_pos hlf]
    exact h.getBufAt_of_findTag (findTag_crlf h.holds (by rwa [Nat.add_assoc, hlength]) hno
      (by simp))
  · rw [if_neg hlf, h.getBufAt_eq, findTag_eq_none, Option.map_none]
    intro k hk
    rw [List.length_append, List.length_singleton] at hk
    by_cases hlast : k = w.length
    · rw [strncmpEq_crlf, decide_eq_false_iff_not, hlast, Nat.zero_add]
      rintro ⟨-, hbehind⟩
      rw [Mem.shift_apply, hlength] at hbehind
      exact hlf hbehind
    · refine not_crlf_at h.holds (not_crlf_concat_cr hno) ?_
      rw [List.length_append, List.length_singleton]
      omega

/-- CR LF is not there, nor is the buffer cut inside it. -/
theorem getBufAt_noCrlf (h : Unread pBuf len pos bs) (hno : ¬ crlf <:+: bs)
    (hlast : bs.getLast? ≠ some cr) : getBufAt pBuf len pos crlf out = none := by
  rw [h.getBufAt_eq, findTag_eq_none, Option.map_none]
  intro k hk
  by_cases hend : k + 1 < bs.length
  · exact not_crlf_at h.holds hno hend
  · rw [strncmpEq_crlf, decide_eq_false_iff_not, Nat.zero_add]
    rintro ⟨hcr, -⟩
    refine hlast ?_
    rw [Mem.shift_apply, h.get hk] at hcr
    rw [List.getLast?_eq_getElem?, show bs.length - 1 = k by omega]
    exact List.getElem?_eq_some_iff.mpr ⟨hk, hcr⟩

end Unread

end HttpDecoder
