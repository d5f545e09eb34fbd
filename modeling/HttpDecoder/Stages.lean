import HttpDecoder.Grammar

/-!
# The parsing stages on given bytes

What `ParseMethodAndUri`, `ParseRspState` and `ParseHeader` do, told by the unread bytes
of the buffer: one lemma for each form the bytes can have.

* `parseMethodAndUri_text`, `parseMethodAndUri_none` — the request line.
* `parseRspState_start`, `parseRspState_none` — the status line up to its reason.
* `parseHeader_lines` — the header lines, which leave the cursor in front of what
  follows them.
* `parseHeader_blank`, `parseHeader_cut`, `parseHeader_stuck` — what follows them.

In all of them the cursor stays inside the buffer wherever `len-pos` is evaluated.
-/

namespace HttpDecoder

open CLib

/-- The cursor lies inside the buffer at each of the evaluations. -/
def Inside (len : Nat) (evals : List Nat) : Prop := ∀ k ∈ evals, k ≤ len

@[simp] theorem inside_nil (len : Nat) : Inside len [] := fun _ hk => absurd hk List.not_mem_nil

@[simp] theorem inside_cons {len k : Nat} {evals : List Nat} :
    Inside len (k :: evals) ↔ k ≤ len ∧ Inside len evals := List.forall_mem_cons

@[simp] theorem inside_append {len : Nat} {a b : List Nat} :
    Inside len (a ++ b) ↔ Inside len a ∧ Inside len b := List.forall_mem_append

variable {B : Boost} {pBuf : Mem} {len pos : Nat} {bs : Bytes}

/-! ## The request line -/

/-- Three delimiters are there: the version decides. -/
theorem parseMethodAndUri_text (B : Boost) (und : UInt32) {method url version rest : Bytes}
    (h : Unread pBuf len pos (method ++ sp :: (url ++ sp :: (version ++ lf :: rest))))
    (hmethod : sp ∉ method) (hurl : sp ∉ url) (hversion : lf ∉ version) (result : CResult) :
    ∃ pos' evals, Unread pBuf len pos' rest ∧ Inside len evals ∧
      parseMethodAndUri B und pBuf len pos result =
        match getVersion B version with
        | none => ⟨false, pos',
            { result with method := getMethod und method, url := result.url ++ url }, evals⟩
        | some ver => ⟨true, pos',
            { result with
              method := getMethod und method
              url := result.url ++ url
              version := ver }, evals⟩ := by
  have h₁ := h.advance
  generalize hpos₁ : u32 (pos + (method.length + 1)) = pos₁ at h₁
  have h₂ := h₁.advance
  generalize hpos₂ : u32 (pos₁ + (url.length + 1)) = pos₂ at h₂
  refine ⟨_, [pos, pos₁, pos₂], h₂.advance, by simp [h.pos_le, h₁.pos_le, h₂.pos_le], ?_⟩
  unfold parseMethodAndUri
  rw [h.getBufAt_found hmethod]
  simp only [hpos₁]
  rw [h₁.getBufAt_found hurl]
  simp only [hpos₂]
  rw [h₂.getBufAt_found hversion]
  cases hver : getVersion B version <;> simp only [List.nil_append, hver]

/-- No space, no request line. -/
theorem parseMethodAndUri_noSpace (und : UInt32) (result : CResult)
    (h : getBufAt pBuf len pos [sp] [] = none) :
    parseMethodAndUri B und pBuf len pos result = ⟨false, pos, result, [pos]⟩ := by
  unfold parseMethodAndUri
  rw [h]

/-- Bytes that are not a request line are refused. -/
theorem parseMethodAndUri_none (und : UInt32) (h : Unread pBuf len pos bs)
    (hno : ∀ method url ver rest, ¬ RequestLine B bs method url ver rest) (result : CResult) :
    (parseMethodAndUri B und pBuf len pos result).ok = false ∧
      Inside len (parseMethodAndUri B und pBuf len pos result).evals := by
  by_cases hsp : sp ∈ bs
  rotate_left
  · rw [parseMethodAndUri_noSpace und result (h.getBufAt_absent hsp)]
    exact ⟨rfl, by simp [h.pos_le]⟩
  obtain ⟨method, bs₁, rfl, hmethod⟩ := List.eq_append_cons_of_mem hsp
  have h₁ := h.advance
  by_cases hsp₁ : sp ∈ bs₁
  rotate_left
  · unfold parseMethodAndUri
    rw [h.getBufAt_found hmethod]
    simp only
    rw [h₁.getBufAt_absent hsp₁]
    exact ⟨rfl, by simp [h.pos_le, h₁.pos_le]⟩
  obtain ⟨url, bs₂, rfl, hurl⟩ := List.eq_append_cons_of_mem hsp₁
  have h₂ := h₁.advance
  by_cases hlf : lf ∈ bs₂
  rotate_left
  · unfold parseMethodAndUri
    rw [h.getBufAt_found hmethod]
    simp only
    rw [h₁.getBufAt_found hurl]
    simp only
    rw [h₂.getBufAt_absent hlf]
    exact ⟨rfl, by simp [h.pos_le, h₁.pos_le, h₂.pos_le]⟩
  obtain ⟨version, rest, rfl, hversion⟩ := List.eq_append_cons_of_mem hlf
  obtain ⟨pos', evals, -, hevals, hparse⟩ :=
    parseMethodAndUri_text B und h hmethod hurl hversion result
  rw [hparse]
  cases hver : getVersion B version with
  | none => exact ⟨rfl, hevals⟩
  | some ver => exact absurd ⟨⟨version, rfl, hversion, hver⟩, hmethod, hurl⟩ (hno method url ver rest)

/-! ## The status line -/

/-- The version and the code are there: the search for the line end decides. -/
theorem parseRspState_start {num : UInt32} {tail : Bytes} {result : CResult}
    (h : Unread pBuf len pos bs) (hs : StatusStart B result.version bs num tail) :
    ∃ pos' evals, Unread pBuf len pos' tail ∧ Inside len evals ∧
      parseRspState B pBuf len pos result =
        match getBufAt pBuf len pos' crlf result.retNote with
        | none => ⟨false, pos', { result with retCode := num }, evals⟩
        | some (ret, note) => ⟨true, u32 (pos' + (ret + 2)),
            { result with retCode := num, retNote := note }, evals⟩ := by
  obtain ⟨version, code, rfl, hversion, hcode, hver, hnum⟩ := hs.text
  have h₁ := h.advance
  generalize hpos₁ : u32 (pos + (version.length + 1)) = pos₁ at h₁
  have h₂ := h₁.advance
  generalize hpos₂ : u32 (pos₁ + (code.length + 1)) = pos₂ at h₂
  refine ⟨pos₂, [pos, pos₁, pos₂], h₂, by simp [h.pos_le, h₁.pos_le, h₂.pos_le], ?_⟩
  unfold parseRspState
  rw [h.getBufAt_found hversion]
  simp only [List.nil_append, hver, hpos₁]
  rw [if_neg (by simp), h₁.getBufAt_found hcode]
  simp only [List.nil_append, hnum, hpos₂]
  rfl

/-- No space, no status line. -/
theorem parseRspState_noSpace (result : CResult) (h : getBufAt pBuf len pos [sp] [] = none) :
    parseRspState B pBuf len pos result = ⟨false, pos, result, [pos]⟩ := by
  unfold parseRspState
  rw [h]

/-- Bytes that do not begin with that version and a code are refused. -/
theorem parseRspState_none {result : CResult} (h : Unread pBuf len pos bs)
    (hno : ∀ num tail, ¬ StatusStart B result.version bs num tail) :
    (parseRspState B pBuf len pos result).ok = false ∧
      Inside len (parseRspState B pBuf len pos result).evals := by
  by_cases hsp : sp ∈ bs
  rotate_left
  · rw [parseRspState_noSpace result (h.getBufAt_absent hsp)]
    exact ⟨rfl, by simp [h.pos_le]⟩
  obtain ⟨version, bs₁, rfl, hversion⟩ := List.eq_append_cons_of_mem hsp
  have h₁ := h.advance
  unfold parseRspState
  rw [h.getBufAt_found hversion]
  simp only [List.nil_append]
  cases hver : getVersion B version with
  | none => exact ⟨rfl, by simp [h.pos_le]⟩
  | some ver =>
    simp only
    by_cases hsame : ver = result.version
    rotate_left
    · rw [if_pos hsame]
      exact ⟨rfl, by simp [h.pos_le]⟩
    rw [if_neg (by simpa using hsame)]
    by_cases hsp₁ : sp ∈ bs₁
    rotate_left
    · rw [h₁.getBufAt_absent hsp₁]
      exact ⟨rfl, by simp [h.pos_le, h₁.pos_le]⟩
    obtain ⟨code, tail, rfl, hcode⟩ := List.eq_append_cons_of_mem hsp₁
    rw [h₁.getBufAt_found hcode]
    simp only [List.nil_append]
    cases hnum : B.castUInt32 code with
    | none => exact ⟨rfl, by simp [h.pos_le, h₁.pos_le]⟩
    | some num =>
      exact absurd ⟨version, code, rfl, hversion, hcode, hsame ▸ hver, hnum⟩
        (fun htext => hno num tail ⟨htext⟩)

/-! ## The header block -/

/-- The tests for an empty line see it when the buffer is not cut inside it. -/
theorem blank_tests (h : Unread pBuf len pos bs) (hne : bs ≠ []) (hcut : bs ≠ [cr]) :
    (strncmpEq (pBuf.shift pos) [lf] = true ↔ [lf] <+: bs) ∧
      (strncmpEq (pBuf.shift pos) [cr, lf] = true ↔ crlf <+: bs) := by
  obtain ⟨x, bs, rfl⟩ := List.exists_cons_of_ne_nil hne
  have hx : pBuf pos = x := (Mem.holds_cons.mp h.holds).1
  rw [strncmpEq_single, strncmpEq_pair _ (show cr ≠ 0 by decide)]
  simp only [decide_eq_true_iff, Mem.shift_apply, Nat.add_zero, hx]
  refine ⟨by simp [eq_comm], ?_⟩
  cases bs with
  | nil =>
    have hne : x ≠ cr := fun hx => hcut (by rw [hx])
    simp [crlf, hne, hne.symm]
  | cons y bs =>
    have hy : pBuf (pos + 1) = y :=
      (Mem.holds_cons.mp (Mem.holds_cons.mp h.holds).2).1
    simp [crlf, hy, eq_comm]

/-- An empty line ends the block. -/
theorem parseHeader_blank (h : Unread pBuf len pos bs) (hblank : Blank bs) (headmap : HeaderMap) :
    ∃ pos', parseHeader pBuf len pos headmap = ⟨true, pos', headmap, [pos]⟩ := by
  have hne : bs ≠ [] := by
    rintro rfl
    simp [Blank, crlf] at hblank
  have hcut : bs ≠ [cr] := by
    rintro rfl
    revert hblank
    decide
  obtain ⟨hlf, hcrlf⟩ := blank_tests h hne hcut
  rw [parseHeader, if_neg (by rw [h.sub32_eq]; simpa using hne)]
  rcases hblank with hblank | hblank
  · rw [if_pos (hlf.mpr hblank)]
    exact ⟨_, rfl⟩
  · split
    · exact ⟨_, rfl⟩
    · rw [if_pos (hcrlf.mpr hblank)]
      exact ⟨_, rfl⟩

/-- The step of the loop behind the tests for an empty line. -/
theorem parseHeader_step (headmap : HeaderMap) (hmore : sub32 len pos ≠ 0)
    (hlf : strncmpEq (pBuf.shift pos) [lf] = false)
    (hcrlf : strncmpEq (pBuf.shift pos) [cr, lf] = false) :
    parseHeader pBuf len pos headmap =
      match getBufAt pBuf len pos [colon] [] with
      | none => ⟨false, pos, headmap, [pos, pos]⟩
      | some (retKey, key) =>
        let pos₁ := u32 (pos + (retKey + 1))
        match getBufAt pBuf len pos₁ [lf] [] with
        | none => ⟨false, pos₁, headmap, [pos, pos, pos₁]⟩
        | some (retValue, value) =>
          let rest :=
            parseHeader pBuf len (u32 (pos₁ + (retValue + 1))) (headmap.insert key value)
          { rest with evals := [pos, pos, pos₁] ++ rest.evals } := by
  rw [parseHeader, if_neg hmore, if_neg (by simp [hlf]), if_neg (by simp [hcrlf])]
  split
  · rename_i hkey
    rw [hkey]
  · rename_i hkey
    rw [hkey]
    simp only
    split
    · rename_i hvalue
      rw [hvalue]
    · rename_i hvalue
      rw [hvalue]

/-- Before bytes that are not an empty line, both tests fail. -/
theorem parseHeader_step_of_notBlank (h : Unread pBuf len pos bs) (hne : bs ≠ [])
    (hcut : bs ≠ [cr]) (hblank : ¬ Blank bs) : sub32 len pos ≠ 0 ∧
      strncmpEq (pBuf.shift pos) [lf] = false ∧ strncmpEq (pBuf.shift pos) [cr, lf] = false := by
  obtain ⟨hlf, hcrlf⟩ := blank_tests h hne hcut
  refine ⟨by rw [h.sub32_eq]; simpa using hne, ?_, ?_⟩
  · exact Bool.eq_false_iff.mpr fun htest => hblank (Or.inl (hlf.mp htest))
  · exact Bool.eq_false_iff.mpr fun htest => hblank (Or.inr (hcrlf.mp htest))

/-- One header line is stored, and the cursor moves behind it. -/
theorem parseHeader_line {key value rest : Bytes} (h : Unread pBuf len pos bs)
    (hl : HeaderLine key value bs rest) (headmap : HeaderMap) :
    ∃ pos' evals, Unread pBuf len pos' rest ∧ Inside len evals ∧
      parseHeader pBuf len pos headmap =
        { parseHeader pBuf len pos' (headmap.insert key value) with
          evals := evals ++ (parseHeader pBuf len pos' (headmap.insert key value)).evals } := by
  obtain ⟨rfl, hkey, hvalue, hblank⟩ := hl
  have hlength : (key ++ colon :: (value ++ lf :: rest)).length ≥ 2 := by
    simp
    omega
  obtain ⟨hmore, hlf, hcrlf⟩ := parseHeader_step_of_notBlank h
    (List.ne_nil_of_length_pos (by omega)) (by intro heq; simp [heq] at hlength) hblank
  have h₁ := h.advance
  generalize hpos₁ : u32 (pos + (key.length + 1)) = pos₁ at h₁
  refine ⟨_, [pos, pos, pos₁], h₁.advance, by simp [h.pos_le, h₁.pos_le], ?_⟩
  rw [parseHeader_step headmap hmore hlf hcrlf, h.getBufAt_found hkey]
  simp only [List.nil_append, hpos₁]
  rw [h₁.getBufAt_found hvalue]
  rfl

/-- **The header lines are stored one by one**, and the cursor moves behind them. -/
theorem parseHeader_lines {hs : List (Bytes × Bytes)} {rest : Bytes}
    (hl : HeaderLines hs bs rest) : ∀ {pos : Nat} (headmap : HeaderMap), Unread pBuf len pos bs →
    ∃ pos' evals, Unread pBuf len pos' rest ∧ Inside len evals ∧
      parseHeader pBuf len pos headmap =
        { parseHeader pBuf len pos' (headmap.insertMany hs) with
          evals := evals ++ (parseHeader pBuf len pos' (headmap.insertMany hs)).evals } := by
  induction hl with
  | nil rest =>
    intro pos headmap h
    exact ⟨pos, [], h, inside_nil len, by simp⟩
  | @cons key value bs mid hs rest hline hlines ih =>
    intro pos headmap h
    obtain ⟨pos₁, evals₁, h₁, hevals₁, hparse₁⟩ := parseHeader_line h hline headmap
    obtain ⟨pos₂, evals₂, h₂, hevals₂, hparse₂⟩ := ih (headmap.insert key value) h₁
    refine ⟨pos₂, evals₁ ++ evals₂, h₂, by simp [hevals₁, hevals₂], ?_⟩
    rw [hparse₁, hparse₂, Std.ExtTreeMap.insertMany_cons, List.append_assoc]

/-- What is neither an empty line nor a header line is refused. -/
theorem parseHeader_stuck (h : Unread pBuf len pos bs) (hs : Stuck bs) (headmap : HeaderMap) :
    (parseHeader pBuf len pos headmap).ok = false ∧
      Inside len (parseHeader pBuf len pos headmap).evals := by
  by_cases hne : bs = []
  · rw [parseHeader, if_pos (by rw [h.sub32_eq, hne]; rfl)]
    exact ⟨rfl, by simp [h.pos_le]⟩
  obtain ⟨hmore, hlf, hcrlf⟩ := parseHeader_step_of_notBlank h hne hs.notCut hs.notBlank
  rw [parseHeader_step headmap hmore hlf hcrlf]
  by_cases hcolon : colon ∈ bs
  rotate_left
  · rw [h.getBufAt_absent hcolon]
    exact ⟨rfl, by simp [h.pos_le]⟩
  obtain ⟨key, bs₁, rfl, hkey⟩ := List.eq_append_cons_of_mem hcolon
  have h₁ := h.advance
  rw [h.getBufAt_found hkey]
  simp only [List.nil_append]
  by_cases hend : lf ∈ bs₁
  · obtain ⟨value, rest, rfl, hvalue⟩ := List.eq_append_cons_of_mem hend
    exact absurd ⟨rfl, hkey, hvalue, hs.notBlank⟩ (hs.noLine key value rest)
  · rw [h₁.getBufAt_absent hend]
    exact ⟨rfl, by simp [h.pos_le, h₁.pos_le]⟩

/-- A CR at the end of the buffer: the byte behind it decides. -/
theorem parseHeader_cut (h : Unread pBuf len pos [cr]) (headmap : HeaderMap) :
    (parseHeader pBuf len pos headmap).ok = decide (pBuf len = lf) ∧
      (parseHeader pBuf len pos headmap).out = headmap ∧
      Inside len (parseHeader pBuf len pos headmap).evals := by
  have hcr : pBuf pos = cr := (Mem.holds_cons.mp h.holds).1
  have hlength : pos + 1 = len := h.length
  have hmore : sub32 len pos ≠ 0 := by
    rw [h.sub32_eq]
    decide
  have hlf : strncmpEq (pBuf.shift pos) [lf] = false := by
    rw [strncmpEq_single, decide_eq_false_iff_not, Mem.shift_apply, Nat.add_zero, hcr]
    decide
  have hcrlf : strncmpEq (pBuf.shift pos) [cr, lf] = decide (pBuf len = lf) := by
    rw [strncmpEq_pair _ (show cr ≠ 0 by decide)]
    simp only [Mem.shift_apply, Nat.add_zero, hcr, hlength, true_and]
  by_cases hbehind : pBuf len = lf
  · rw [parseHeader, if_neg hmore, if_neg (by simp [hlf]), if_pos (by simp [hcrlf, hbehind]),
      decide_eq_true hbehind]
    exact ⟨rfl, rfl, by simp [h.pos_le]⟩
  · rw [parseHeader_step headmap hmore hlf (by simp [hcrlf, hbehind]),
      h.getBufAt_absent (by decide), decide_eq_false hbehind]
    exact ⟨rfl, rfl, by simp [h.pos_le]⟩

end HttpDecoder
