import HttpDecoder.Lib.Codec
import HttpDecoder.Lib.Memory

/-!
# Numerals

What a stream prints for a number, and what a conversion from text to a floating-point number
accepts: decimal notation, exponent notation and the names of infinity and of NaN, with or
without a sign.

* `showNat` — a number written in digits; `readable_showNat` — it is read back.
* `decimal`, `exponent`, `name`, `numeral` — the notations.
* `decimal_three`, `exponent_three` — decimal and exponent notation in three characters.
* `numeral_three` — **the numerals of three characters**.
-/

namespace CLib

namespace Numeral

/-! ## Characters -/

/-- The dot. -/
def dot : UInt8 := 46

/-- A decimal digit. -/
def isDigit (c : UInt8) : Bool := decide (48 ≤ c ∧ c ≤ 57)

/-- `+` or `-`. -/
def isSign (c : UInt8) : Bool := c == 43 || c == 45

/-- `e` or `E`. -/
def isExp (c : UInt8) : Bool := c == 101 || c == 69

/-- A letter in lower case, and any other character as it is. -/
def toLower (c : UInt8) : UInt8 := if 65 ≤ c ∧ c ≤ 90 then c + 32 else c

/-- The character of a digit. -/
def digit (n : Nat) : UInt8 := UInt8.ofNat (48 + n)

theorem isDigit_digit : ∀ n < 10, isDigit (digit n) = true := by decide

/-- Every digit is the character of a number. -/
theorem exists_digit {c : UInt8} (h : isDigit c = true) : ∃ n < 10, c = digit n := by
  obtain ⟨hlow, hhigh⟩ := of_decide_eq_true h
  have hlow' : 48 ≤ c.toNat := UInt8.le_iff_toNat_le.mp hlow
  have hhigh' : c.toNat ≤ 57 := UInt8.le_iff_toNat_le.mp hhigh
  refine ⟨c.toNat - 48, by omega, ?_⟩
  rw [digit, Nat.add_sub_of_le hlow', UInt8.ofNat_toNat]

/-- A digit is nothing else. -/
theorem of_isDigit {c : UInt8} (h : isDigit c = true) :
    c ≠ dot ∧ isSign c = false ∧ isExp c = false := by
  obtain ⟨n, hn, rfl⟩ := exists_digit h
  have hall : ∀ n < 10, digit n ≠ dot ∧ isSign (digit n) = false ∧ isExp (digit n) = false := by
    decide
  exact hall n hn

theorem isSign_iff {c : UInt8} : isSign c = true ↔ c = 43 ∨ c = 45 := by simp [isSign]

/-- A sign is no digit and no dot. -/
theorem of_isSign {c : UInt8} (h : isSign c = true) : c ≠ dot ∧ isDigit c = false := by
  rcases isSign_iff.mp h with rfl | rfl <;> decide

/-! ## Numbers written in digits -/

/-- What `operator<<` prints for a number. -/
def showNat (n : Nat) : Bytes :=
  if n = 0 then [digit 0] else (Nat.digits 10 n).reverse.map digit

theorem digit_lt_of_mem {n d : Nat} (h : d ∈ (Nat.digits 10 n).reverse) : d < 10 :=
  Nat.digits_lt_base (by decide) (List.mem_reverse.mp h)

theorem isDigit_of_mem_showNat {n : Nat} : ∀ c ∈ showNat n, isDigit c = true := by
  intro c hc
  unfold showNat at hc
  split at hc
  · rw [List.mem_singleton.mp hc]
    exact isDigit_digit 0 (by decide)
  · obtain ⟨d, hd, rfl⟩ := List.mem_map.mp hc
    exact isDigit_digit d (digit_lt_of_mem hd)

/-- The value of a digit. -/
def digitValue (c : UInt8) : Nat := c.toNat - 48

theorem digitValue_digit : ∀ n < 10, digitValue (digit n) = n := by decide

/-- The digits of a number have its value. -/
theorem ofDigits_showNat (n : Nat) :
    Nat.ofDigits 10 ((showNat n).reverse.map digitValue) = n := by
  unfold showNat
  by_cases h : n = 0
  · subst h
    decide
  · have hvalues : (Nat.digits 10 n).map (digitValue ∘ digit) = Nat.digits 10 n :=
      (List.map_congr_left fun d hd =>
        digitValue_digit d (digit_lt_of_mem (List.mem_reverse.mpr hd))).trans (List.map_id _)
    rw [if_neg h, List.map_reverse, List.map_reverse, List.map_reverse, List.reverse_reverse,
      List.map_map, hvalues, Nat.ofDigits_digits]

/-- A number is told by its digits. -/
theorem showNat_inj {m n : Nat} (h : showNat m = showNat n) : m = n := by
  rw [← ofDigits_showNat m, h, ofDigits_showNat]

/-- **A number is read back** up to what is no digit. -/
theorem readable_showNat {m n : Nat} {x y : Bytes} (hx : ∀ c ∈ x.head?, isDigit c = false)
    (hy : ∀ c ∈ y.head?, isDigit c = false) (h : showNat m ++ x = showNat n ++ y) :
    m = n ∧ x = y := by
  obtain ⟨hshow, hxy⟩ := Codec.readable_span (fun c => isDigit c = true)
    isDigit_of_mem_showNat isDigit_of_mem_showNat
    (fun c hc => by simp [hx c hc]) (fun c hc => by simp [hy c hc]) h
  exact ⟨showNat_inj hshow, hxy⟩

/-! ## Notations -/

/-- Digits, at least one. -/
def digits (s : Bytes) : Bool := !s.isEmpty && s.all isDigit

/-- Digits, at least one, with or without a dot among them. -/
def decimal (s : Bytes) : Bool :=
  match s.dropWhile isDigit with
  | [] => !s.isEmpty
  | c :: b => decide (c = dot) && b.all isDigit && decide (1 < s.length)

/-- The text without its sign, if it has one. -/
def unsigned : Bytes → Bytes
  | [] => []
  | c :: s => if isSign c then s else c :: s

@[simp] theorem unsigned_of_sign {c : UInt8} (h : isSign c = true) (s : Bytes) :
    unsigned (c :: s) = s := if_pos h

@[simp] theorem unsigned_of_not {c : UInt8} (h : isSign c = false) (s : Bytes) :
    unsigned (c :: s) = c :: s := if_neg (by simp [h])

/-- Decimal notation, `e` and a whole number. -/
def exponent (s : Bytes) : Bool :=
  match s.dropWhile fun c => !isExp c with
  | [] => false
  | _ :: x => decimal (s.takeWhile fun c => !isExp c) && digits (unsigned x)

/-- `inf`, `infinity` and `nan`. -/
def names : List Bytes :=
  [ascii ['i', 'n', 'f'], ascii ['i', 'n', 'f', 'i', 'n', 'i', 't', 'y'], ascii ['n', 'a', 'n']]

/-- A name, in letters of either case. -/
def name (s : Bytes) : Bool := decide (s.map toLower ∈ names)

/-- A character that no name has. -/
theorem name_of_mem {x : UInt8} (hx : ∀ n ∈ names, toLower x ∉ n) {s : Bytes} (h : x ∈ s) :
    name s = false :=
  decide_eq_false fun hmem => hx _ hmem (List.mem_map_of_mem h)

/-- No name has a sign. -/
theorem name_of_isSign {c : UInt8} (h : isSign c = true) (s : Bytes) :
    name (c :: s) = false := by
  apply name_of_mem _ List.mem_cons_self
  rcases isSign_iff.mp h with rfl | rfl <;> decide

/-- A numeral. -/
def numeral (s : Bytes) : Bool :=
  decimal (unsigned s) || exponent (unsigned s) || name (unsigned s)

/-! ## Three characters -/

variable {a b c : UInt8}

theorem decimal_nil : decimal [] = false := rfl

/-- Decimal notation in one character. -/
theorem decimal_one : decimal [a] = isDigit a := by
  unfold decimal
  cases ha : isDigit a <;> simp [ha]

/-- Decimal notation in two characters. -/
theorem decimal_two : decimal [a, b] = true ↔
    (isDigit a ∧ isDigit b) ∨ (isDigit a ∧ b = dot) ∨ (a = dot ∧ isDigit b) := by
  unfold decimal
  cases ha : isDigit a <;> cases hb : isDigit b <;> simp [ha, hb]

/-- Decimal notation in three characters. -/
theorem decimal_three : decimal [a, b, c] = true ↔
    (isDigit a ∧ isDigit b ∧ isDigit c) ∨ (isDigit a ∧ isDigit b ∧ c = dot) ∨
      (isDigit a ∧ b = dot ∧ isDigit c) ∨ (a = dot ∧ isDigit b ∧ isDigit c) := by
  unfold decimal
  cases ha : isDigit a <;> cases hb : isDigit b <;> cases hc : isDigit c <;> simp [ha, hb, hc]

/-- A whole number of one character has no sign. -/
theorem digits_unsigned_one : digits (unsigned [c]) = isDigit c := by
  cases hc : isSign c with
  | true =>
    rw [unsigned_of_sign hc, (of_isSign hc).2]
    rfl
  | false => simp [unsigned_of_not hc, digits]

/-- Exponent notation takes three characters. -/
theorem exponent_two : exponent [a, b] = false := by
  unfold exponent
  cases ha : isExp a <;> cases hb : isExp b <;> simp [ha, hb, decimal_nil, digits, unsigned]

/-- Exponent notation in three characters. -/
theorem exponent_three : exponent [a, b, c] = true ↔ isDigit a ∧ isExp b ∧ isDigit c := by
  unfold exponent
  cases ha : isExp a with
  | true =>
    -- nothing before the `e`
    have hdigit : isDigit a = false :=
      Bool.eq_false_iff.mpr fun hdigit => absurd (of_isDigit hdigit).2.2 (by simp [ha])
    simp [ha, hdigit, decimal_nil]
  | false =>
    cases hb : isExp b with
    | true => simp [ha, hb, decimal_one, digits_unsigned_one]
    | false =>
      -- nothing behind it
      cases hc : isExp c <;> simp [ha, hb, hc, digits, unsigned]

/-- **The numerals of three characters.**  Three digits; two digits with a dot before, between
or behind them; a sign before two digits or before a digit with a dot; a digit, `e` and a
digit; and the names of three letters. -/
theorem numeral_three : numeral [a, b, c] = true ↔
    (isDigit a ∧ isDigit b ∧ isDigit c) ∨
    (isDigit a ∧ isDigit b ∧ c = dot) ∨
    (isDigit a ∧ b = dot ∧ isDigit c) ∨
    (a = dot ∧ isDigit b ∧ isDigit c) ∨
    (isSign a ∧ isDigit b ∧ isDigit c) ∨
    (isSign a ∧ isDigit b ∧ c = dot) ∨
    (isSign a ∧ b = dot ∧ isDigit c) ∨
    (isDigit a ∧ isExp b ∧ isDigit c) ∨
    name [a, b, c] := by
  unfold numeral
  cases ha : isSign a with
  | true =>
    obtain ⟨hdot, hdigit⟩ := of_isSign ha
    have hname : name [b, c] = false := by simp [name, names, ascii]
    rw [unsigned_of_sign ha, exponent_two, hname, Bool.or_false, Bool.or_false, decimal_two]
    simp [hdot, hdigit, name_of_isSign ha]
  | false =>
    rw [unsigned_of_not ha, Bool.or_eq_true, Bool.or_eq_true, decimal_three, exponent_three]
    simp [or_assoc]

/-- The slash. -/
def slash : UInt8 := 47

/-- There is none in a numeral of three characters. -/
theorem slash_notMem_three {s : Bytes} (hlen : s.length = 3) (h : numeral s = true) :
    slash ∉ s := by
  obtain ⟨a, b, c, rfl⟩ := List.length_eq_three.mp hlen
  have hplain : isDigit slash = false ∧ isSign slash = false ∧ isExp slash = false ∧
      slash ≠ dot := by decide
  obtain ⟨hdigit, hsign, hexp, hdot⟩ := hplain
  intro hmem
  have hname := name_of_mem (by decide) hmem
  rw [numeral_three, hname] at h
  rcases List.mem_cons.mp hmem with rfl | hmem
  · simp [hdigit, hsign, hdot] at h
  rcases List.mem_pair.mp hmem with rfl | rfl
  · simp [hdigit, hexp, hdot] at h
  · simp [hdigit, hdot] at h

end Numeral

end CLib
