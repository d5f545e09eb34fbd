import HttpDecoder.RequestHead
import HttpDecoder.Lib.Numeral

/-!
# Version texts

`GetVersion` looks for `HTTP/` anywhere in eight characters and reads the last three with a
conversion to `float`, which takes more than a digit, a dot and a digit.

* `Boost.CastsNumerals`, `Boost.ScalesDigits` — what is assumed of the conversion.
* `exists_text_of_getVersion` — `HTTP/` anywhere else is refused, for then a slash is among the
  three characters.
* `OtherNumeral` — the other numerals of three characters, form by form.
* `exactVersion_iff` — **when `GetVersion` takes a text for what it is**: unless it is `HTTP/`
  and one of those.
-/

namespace HttpDecoder

open CLib Numeral

/-! ## Texts -/

/-- `HTTP/`, a digit, a dot and a digit. -/
def versionText (major minor : Nat) : Bytes := httpSlash ++ [digit major, dot, digit minor]

/-- `GetVersion` returns true exactly on `HTTP/d.d`, and then `ver` is ten times the first
digit and the second. -/
def ExactVersion (B : Boost) (version : Bytes) : Prop :=
  ∀ ver, getVersion B version = some ver ↔ ∃ major < 10, ∃ minor < 10,
    version = versionText major minor ∧ ver = UInt32.ofNat (10 * major + minor)

/-- The numerals of three characters that are not a digit, a dot and a digit. -/
inductive OtherNumeral : Bytes → Prop
  /-- `110`. -/
  | integer {a b c : UInt8} : isDigit a → isDigit b → isDigit c → OtherNumeral [a, b, c]
  /-- `.11`. -/
  | dotFirst {b c : UInt8} : isDigit b → isDigit c → OtherNumeral [dot, b, c]
  /-- `11.`. -/
  | dotLast {a b : UInt8} : isDigit a → isDigit b → OtherNumeral [a, b, dot]
  /-- `+11`. -/
  | signed {a b c : UInt8} : isSign a → isDigit b → isDigit c → OtherNumeral [a, b, c]
  /-- `+.1`. -/
  | signedDotFirst {a c : UInt8} : isSign a → isDigit c → OtherNumeral [a, dot, c]
  /-- `+1.`. -/
  | signedDotLast {a b : UInt8} : isSign a → isDigit b → OtherNumeral [a, b, dot]
  /-- `1e1`. -/
  | exponent {a b c : UInt8} : isDigit a → isExp b → isDigit c → OtherNumeral [a, b, c]
  /-- `inf` and `nan`. -/
  | named {a b c : UInt8} : name [a, b, c] → OtherNumeral [a, b, c]

/-- What is assumed of `lexical_cast<float>`: of three characters it takes the numerals. -/
def Boost.CastsNumerals (B : Boost) : Prop :=
  ∀ tmp : Bytes, tmp.length = 3 → ((B.castFloat tmp).isSome ↔ numeral tmp)

/-- What is assumed of the multiplication by ten: `d.d` gives the number of its tenths. -/
def Boost.ScalesDigits (B : Boost) : Prop :=
  ∀ major < 10, ∀ minor < 10, (B.castFloat [digit major, dot, digit minor]).map B.timesTen =
    some (UInt32.ofNat (10 * major + minor))

/-- A digit, a dot and a digit are none of the others. -/
theorem not_otherNumeral {a b c : UInt8} (ha : isDigit a) (hb : b = dot) (hc : isDigit c) :
    ¬ OtherNumeral [a, b, c] := by
  subst hb
  have hsign := (of_isDigit ha).2.1
  intro h
  cases h with
  | integer _ hb _ => exact absurd hb (by decide)
  | dotFirst hb _ => exact absurd hb (by decide)
  | dotLast _ hb => exact absurd hb (by decide)
  | signed ha _ _ => simp [hsign] at ha
  | signedDotFirst ha _ => simp [hsign] at ha
  | signedDotLast ha _ => simp [hsign] at ha
  | exponent _ hb _ => exact absurd hb (by decide)
  | named hname =>
    have hdot : name [a, dot, c] = false :=
      name_of_mem (by decide) (List.mem_cons_of_mem a List.mem_cons_self)
    rw [hdot] at hname
    exact absurd hname (by simp)

/-- The forms are all there are. -/
theorem numeral_iff {tmp : Bytes} (h : tmp.length = 3) : numeral tmp = true ↔
    OtherNumeral tmp ∨ ∃ major < 10, ∃ minor < 10, tmp = [digit major, dot, digit minor] := by
  obtain ⟨a, b, c, rfl⟩ := List.length_eq_three.mp h
  rw [numeral_three]
  constructor
  · rintro (⟨ha, hb, hc⟩ | ⟨ha, hb, rfl⟩ | ⟨ha, rfl, hc⟩ | ⟨rfl, hb, hc⟩ | ⟨ha, hb, hc⟩ |
      ⟨ha, hb, rfl⟩ | ⟨ha, rfl, hc⟩ | ⟨ha, hb, hc⟩ | hname)
    · exact Or.inl (.integer ha hb hc)
    · exact Or.inl (.dotLast ha hb)
    · obtain ⟨major, hmajor, rfl⟩ := exists_digit ha
      obtain ⟨minor, hminor, rfl⟩ := exists_digit hc
      exact Or.inr ⟨major, hmajor, minor, hminor, rfl⟩
    · exact Or.inl (.dotFirst hb hc)
    · exact Or.inl (.signed ha hb hc)
    · exact Or.inl (.signedDotLast ha hb)
    · exact Or.inl (.signedDotFirst ha hc)
    · exact Or.inl (.exponent ha hb hc)
    · exact Or.inl (.named hname)
  · rintro (h | ⟨major, hmajor, minor, hminor, h⟩)
    · cases h <;> simp [*]
    · cases h
      simp [isDigit_digit _ hmajor, isDigit_digit _ hminor]

/-! ## `GetVersion` -/

variable {B : Boost}

/-- The last three characters. -/
theorem drop_httpSlash (tmp : Bytes) : (httpSlash ++ tmp).drop 5 = tmp := List.drop_left' rfl

/-- On `HTTP/` and three characters the conversion decides. -/
theorem getVersion_slash {tmp : Bytes} (h : tmp.length = 3) :
    getVersion B (httpSlash ++ tmp) = (B.castFloat tmp).map B.timesTen := by
  have hlen : (httpSlash ++ tmp).length = 8 := by
    rw [List.length_append, h]
    rfl
  unfold getVersion
  rw [if_neg (not_not.mpr hlen), if_neg (not_not.mpr ⟨[], tmp, rfl⟩), drop_httpSlash,
    List.take_of_length_le h.le]

/-- In eight characters `HTTP/` comes first, or a slash comes after the first five. -/
theorem httpSlash_cases {version : Bytes} (hlen : version.length = 8)
    (h : httpSlash <:+: version) :
    (∃ tmp : Bytes, tmp.length = 3 ∧ version = httpSlash ++ tmp) ∨ slash ∈ version.drop 5 := by
  obtain ⟨p, q, rfl⟩ := h
  cases p with
  | nil =>
    refine Or.inl ⟨q, ?_, by rw [List.nil_append]⟩
    rw [List.nil_append, List.length_append] at hlen
    have hhttp : httpSlash.length = 5 := rfl
    omega
  | cons x p =>
    right
    have hhttp : httpSlash = ascii ['H', 'T', 'T', 'P'] ++ [slash] := by decide
    have hbefore : 5 ≤ (x :: p ++ ascii ['H', 'T', 'T', 'P']).length := by
      rw [List.length_append, List.length_cons]
      show 5 ≤ p.length + 1 + 4
      omega
    rw [hhttp, ← List.append_assoc, List.append_assoc _ [slash] q,
      List.drop_append_of_le_length hbefore]
    exact List.mem_append_right _ (List.mem_append_left _ List.mem_cons_self)

/-- **`HTTP/` anywhere but at the start is refused.** -/
theorem exists_text_of_getVersion (hcast : B.CastsNumerals) {version : Bytes} {ver : UInt32}
    (h : getVersion B version = some ver) :
    ∃ tmp : Bytes, tmp.length = 3 ∧ version = httpSlash ++ tmp ∧ numeral tmp = true := by
  by_cases hlen : version.length = 8
  · by_cases hslash : httpSlash <:+: version
    · have htmp : ((version.drop 5).take 3).length = 3 := by
        rw [List.length_take, List.length_drop]
        omega
      have htake : (version.drop 5).take 3 = version.drop 5 :=
        List.take_of_length_le (by rw [List.length_drop]; omega)
      unfold getVersion at h
      rw [if_neg (not_not.mpr hlen), if_neg (not_not.mpr hslash)] at h
      obtain ⟨i, hi, -⟩ := Option.map_eq_some_iff.mp h
      have hnumeral := (hcast _ htmp).mp (by rw [hi]; rfl)
      rcases httpSlash_cases hlen hslash with ⟨tmp, hthree, rfl⟩ | hmem
      · refine ⟨tmp, hthree, rfl, ?_⟩
        rwa [htake, drop_httpSlash] at hnumeral
      · rw [← htake] at hmem
        exact absurd hmem (slash_notMem_three htmp hnumeral)
    · unfold getVersion at h
      rw [if_neg (not_not.mpr hlen), if_pos hslash] at h
      cases h
  · unfold getVersion at h
    rw [if_pos hlen] at h
    cases h

/-- **When `GetVersion` takes a text for what it is.**  For every string: unless it is `HTTP/`
followed by a numeral of three characters that is not a digit, a dot and a digit. -/
theorem exactVersion_iff (hcast : B.CastsNumerals) (hscale : B.ScalesDigits) (version : Bytes) :
    ExactVersion B version ↔ ¬ ∃ tmp, version = httpSlash ++ tmp ∧ OtherNumeral tmp := by
  constructor
  · rintro hexact ⟨tmp, rfl, hother⟩
    have hthree : tmp.length = 3 := by cases hother <;> rfl
    obtain ⟨i, hi⟩ := Option.isSome_iff_exists.mp
      ((hcast tmp hthree).mpr ((numeral_iff hthree).mpr (Or.inl hother)))
    have hver : getVersion B (httpSlash ++ tmp) = some (B.timesTen i) := by
      rw [getVersion_slash hthree, hi]
      rfl
    obtain ⟨major, hmajor, minor, hminor, htext, -⟩ := (hexact _).mp hver
    rw [List.append_cancel_left htext] at hother
    exact not_otherNumeral (isDigit_digit _ hmajor) rfl (isDigit_digit _ hminor) hother
  · intro hnot ver
    constructor
    · intro h
      obtain ⟨tmp, hthree, rfl, hnumeral⟩ := exists_text_of_getVersion hcast h
      rcases (numeral_iff hthree).mp hnumeral with hother | ⟨major, hmajor, minor, hminor, rfl⟩
      · exact absurd ⟨tmp, rfl, hother⟩ hnot
      · rw [getVersion_slash hthree, hscale major hmajor minor hminor] at h
        exact ⟨major, hmajor, minor, hminor, rfl, (Option.some.inj h).symm⟩
    · rintro ⟨major, hmajor, minor, hminor, rfl, rfl⟩
      rw [versionText, getVersion_slash rfl, hscale major hmajor minor hminor]

/-- The number of the tenths of a numeral, as far as it is a digit, a dot and a digit or has
digits only. -/
def tenths : Bytes → Nat
  | [a, b, c] =>
    if b = dot then 10 * (a.toNat - 48) + (c.toNat - 48)
    else 10 * (100 * (a.toNat - 48) + 10 * (b.toNat - 48) + (c.toNat - 48))
  | _ => 0

/-- A conversion that takes the numerals. -/
def Boost.numerals : Boost where
  Flt := Nat
  castFloat tmp := if numeral tmp then some (tenths tmp) else none
  timesTen := UInt32.ofNat
  castUInt32 := Boost.decimal.castUInt32

theorem Boost.numerals_castsNumerals : Boost.numerals.CastsNumerals := by
  intro tmp _
  show (if numeral tmp then some (tenths tmp) else none).isSome ↔ _
  split
  · next h => exact iff_of_true rfl h
  · next h => exact iff_of_false (by simp) h

theorem Boost.numerals_scalesDigits : Boost.numerals.ScalesDigits := by
  unfold Boost.ScalesDigits
  decide +kernel

/-- `HTTP/110`. -/
def versionInteger : Bytes := httpSlash ++ ascii ['1', '1', '0']

theorem exactVersion_iff_integer : ExactVersion Boost.numerals versionInteger ↔
    ¬ ∃ tmp, versionInteger = httpSlash ++ tmp ∧ OtherNumeral tmp :=
  exactVersion_iff Boost.numerals_castsNumerals Boost.numerals_scalesDigits versionInteger

/-- It is taken for version 110.0. -/
theorem not_exactVersion_integer :
    Boost.numerals.CastsNumerals ∧ Boost.numerals.ScalesDigits ∧
      getVersion Boost.numerals versionInteger = some 1100 ∧
      ¬ ExactVersion Boost.numerals versionInteger := by
  have hver : getVersion Boost.numerals versionInteger = some 1100 := by decide +kernel
  refine ⟨Boost.numerals_castsNumerals, Boost.numerals_scalesDigits, hver, fun hexact => ?_⟩
  obtain ⟨major, -, minor, -, htext, -⟩ := (hexact 1100).mp hver
  have hdot : versionInteger.getD 6 0 = dot := by
    rw [htext]
    rfl
  exact absurd hdot (by decide)

end HttpDecoder
