import HttpDecoder.Overread
import HttpDecoder.RoundTrip
import HttpDecoder.Lib.Lines

/-!
# Where a header block ends

`ParseHeader` looks for the next colon wherever it is, so a line without one is joined with
the lines behind it.

* `parseHeader_shift` — where the buffer begins does not matter.
* `BlankNext` — the two tests for an empty line succeed; `parseHeader_blankNext` — what
  `ParseHeader` does then, `parseHeader_long` — what it does on very long buffers.
* `Finishes`, `parseHeader_ok_iff` — the buffers on which `ParseHeader` returns `true`.
* `WellFormedHead` — header lines with a colon each, and an empty line; `parseHeader_head` —
  what `ParseHeader` does with one.
* `EndsAtBlank` — the cursor stops behind the first empty line, and no name has an LF.
* `endsAtBlank_iff` — **when that is so**: on well-formed heads, and where `ParseHeader`
  fails.
-/

namespace HttpDecoder

open CLib Lines

variable {m : Mem} {len pos : Nat} {bs : Bytes}

/-! ## Where the buffer begins -/

/-- The cursor moved behind a delimiter stays in the buffer. -/
theorem u32_advance {k : Nat} (hpos : pos ≤ len) (hlen : len < 2 ^ 32) (hk : k < sub32 len pos) :
    u32 (pos + (k + 1)) = pos + (k + 1) ∧ pos + (k + 1) ≤ len := by
  rw [sub32_of_le hpos hlen] at hk
  exact ⟨u32_of_lt (by omega), by omega⟩

theorem getBufAt_shift {a p : Nat} (h : a + p ≤ len) (hlen : len < 2 ^ 32) (tag out : Bytes) :
    getBufAt (m.shift a) (len - a) p tag out = getBufAt m len (a + p) tag out := by
  have hshift : (m.shift a).shift p = m.shift (a + p) := by
    funext i
    rw [Mem.shift_apply, Mem.shift_apply, Mem.shift_apply, Nat.add_assoc]
  unfold getBufAt
  rw [hshift, sub32_of_le h hlen, sub32_of_le (by omega) (by omega),
    show len - a - p = len - (a + p) by omega]

/-- `ParseHeader` before bytes that are no empty line. -/
theorem parseHeader_next (headmap : HeaderMap) (hmore : sub32 len pos ≠ 0)
    (hblank : ¬ (m pos = lf ∨ m pos = cr ∧ m (pos + 1) = lf)) :
    parseHeader m len pos headmap =
      match getBufAt m len pos [colon] [] with
      | none => ⟨false, pos, headmap, [pos, pos]⟩
      | some (retKey, key) =>
        let pos₁ := u32 (pos + (retKey + 1))
        match getBufAt m len pos₁ [lf] [] with
        | none => ⟨false, pos₁, headmap, [pos, pos, pos₁]⟩
        | some (retValue, value) =>
          let rest :=
            parseHeader m len (u32 (pos₁ + (retValue + 1))) (headmap.insert key value)
          { rest with evals := [pos, pos, pos₁] ++ rest.evals } := by
  obtain ⟨hlf, hcrlf⟩ := not_or.mp hblank
  refine parseHeader_step headmap hmore ?_ ?_
  · rw [strncmpEq_single, decide_eq_false_iff_not]
    exact hlf
  · rw [strncmpEq_pair _ (show cr ≠ 0 by decide), decide_eq_false_iff_not]
    exact hcrlf

/-- And before those of an empty line. -/
theorem parseHeader_empty (headmap : HeaderMap) (hmore : sub32 len pos ≠ 0)
    (hblank : m pos = lf ∨ m pos = cr ∧ m (pos + 1) = lf) :
    parseHeader m len pos headmap =
      ⟨true, u32 (pos + if m pos = lf then 1 else 2), headmap, [pos]⟩ := by
  have htest : strncmpEq (m.shift pos) [lf] = decide (m pos = lf) := strncmpEq_single _
  rw [parseHeader, if_neg hmore, htest]
  by_cases hlf : m pos = lf
  · rw [if_pos (decide_eq_true hlf), if_pos hlf]
  · have hcrlf : strncmpEq (m.shift pos) [cr, lf] = true := by
      rw [strncmpEq_pair _ (show cr ≠ 0 by decide), decide_eq_true_iff]
      exact hblank.resolve_left hlf
    rw [if_neg (by simp [hlf]), if_pos hcrlf, if_neg hlf]

/-- At the end of the buffer `ParseHeader` fails. -/
theorem parseHeader_end (hpos : pos ≤ len) (hlen : len < 2 ^ 32) (h : len - pos = 0)
    (headmap : HeaderMap) : parseHeader m len pos headmap = ⟨false, pos, headmap, [pos]⟩ := by
  rw [parseHeader, if_pos (by rw [sub32_of_le hpos hlen, h])]

/-- **Where the buffer begins does not matter**, but for the cursor. -/
theorem parseHeader_shift {a : Nat} (hlen : len < 2 ^ 32) : ∀ (n p : Nat) (headmap : HeaderMap),
    a + p ≤ len → len - (a + p) ≤ n →
    let q := parseHeader m len (a + p) headmap
    let q' := parseHeader (m.shift a) (len - a) p headmap
    q.ok = q'.ok ∧ q.out = q'.out ∧ q.pos = u32 (a + q'.pos) := by
  intro n
  induction n with
  | zero =>
    intro p headmap hp hn
    rw [parseHeader_end hp hlen (by omega), parseHeader_end (by omega) (by omega) (by omega)]
    exact ⟨rfl, rfl, (u32_of_lt (show a + p < 2 ^ 32 by omega)).symm⟩
  | succ n ih =>
    intro p headmap hp hn
    by_cases hdone : len - (a + p) = 0
    · rw [parseHeader_end hp hlen hdone, parseHeader_end (by omega) (by omega) (by omega)]
      exact ⟨rfl, rfl, (u32_of_lt (show a + p < 2 ^ 32 by omega)).symm⟩
    have hmore : sub32 len (a + p) ≠ 0 := by
      rwa [sub32_of_le hp hlen]
    have hmore' : sub32 (len - a) p ≠ 0 := by
      rw [sub32_of_le (by omega) (by omega)]
      omega
    by_cases hblank : m (a + p) = lf ∨ m (a + p) = cr ∧ m (a + p + 1) = lf
    · have hblank' : m.shift a p = lf ∨ m.shift a p = cr ∧ m.shift a (p + 1) = lf := hblank
      rw [parseHeader_empty headmap hmore hblank, parseHeader_empty headmap hmore' hblank',
        Mem.shift_apply]
      generalize (if m (a + p) = lf then 1 else 2) = k
      refine ⟨rfl, rfl, ?_⟩
      show u32 (a + p + k) = u32 (a + u32 (p + k))
      unfold u32
      omega
    have hblank' : ¬ (m.shift a p = lf ∨ m.shift a p = cr ∧ m.shift a (p + 1) = lf) := hblank
    rw [parseHeader_next headmap hmore hblank, parseHeader_next headmap hmore' hblank',
      getBufAt_shift hp hlen]
    cases hkey : getBufAt m len (a + p) [colon] [] with
    | none => exact ⟨rfl, rfl, (u32_of_lt (show a + p < 2 ^ 32 by omega)).symm⟩
    | some r =>
      obtain ⟨retKey, key⟩ := r
      have hk : retKey < sub32 len (a + p) := getBufAt_lt hkey
      obtain ⟨hadv, hle⟩ := u32_advance hp hlen hk
      rw [Nat.add_assoc a p] at hle
      replace hadv := hadv.trans (Nat.add_assoc a p (retKey + 1))
      have hadv' : u32 (p + (retKey + 1)) = p + (retKey + 1) := u32_of_lt (by omega)
      simp only [hadv, hadv']
      rw [getBufAt_shift hle hlen]
      cases hvalue : getBufAt m len (a + (p + (retKey + 1))) [lf] [] with
      | none => exact ⟨rfl, rfl, (u32_of_lt (show a + (p + (retKey + 1)) < 2 ^ 32 by omega)).symm⟩
      | some r =>
        obtain ⟨retValue, value⟩ := r
        have hv : retValue < sub32 len (a + (p + (retKey + 1))) := getBufAt_lt hvalue
        obtain ⟨hadv₂, hle₂⟩ := u32_advance hle hlen hv
        have hadv₂' : u32 (p + (retKey + 1) + (retValue + 1)) =
          p + (retKey + 1) + (retValue + 1) := u32_of_lt (by omega)
        simp only [hadv₂, hadv₂']
        rw [Nat.add_assoc a] at hle₂ ⊢
        exact ih _ _ hle₂ (by omega)

/-- `ParseHeader` from the cursor on is `ParseHeader` on what is left. -/
theorem parseHeader_left (hpos : pos ≤ len) (hlen : len < 2 ^ 32) (headmap : HeaderMap) :
    let q := parseHeader m len pos headmap
    let q' := parseHeader (m.shift pos) (m.read pos (len - pos)).length 0 headmap
    q.ok = q'.ok ∧ q.out = q'.out ∧ q.pos = u32 (pos + q'.pos) := by
  rw [Mem.length_read]
  exact parseHeader_shift hlen (len - pos) 0 headmap hpos (le_refl _)

theorem holds_left (m : Mem) (len pos : Nat) : (m.shift pos).Holds 0 (m.read pos (len - pos)) := by
  have hread := Mem.holds_read (m.shift pos) 0 (len - pos)
  rwa [Mem.read_shift, Nat.add_zero] at hread

/-! ## The buffers on which it returns true -/

/-- An empty line is next, its LF lying in the buffer or right behind it. -/
def BlankNext (m : Mem) (len : Nat) (bs : Bytes) : Prop := Blank bs ∨ bs = [cr] ∧ m len = lf

/-- That is what the two tests see. -/
theorem blankNext_iff (hm : m.Holds pos bs) (hlen : pos + bs.length = len) :
    BlankNext m len bs ↔ bs ≠ [] ∧ (m pos = lf ∨ m pos = cr ∧ m (pos + 1) = lf) := by
  unfold BlankNext Blank crlf
  cases bs with
  | nil => simp
  | cons x bs =>
    obtain ⟨hx, hbs⟩ := Mem.holds_cons.mp hm
    cases bs with
    | nil =>
      have hend : m (pos + 1) = m len := congrArg m hlen
      rw [hx, hend]
      simp [eq_comm]
    | cons y bs =>
      obtain ⟨hy, -⟩ := Mem.holds_cons.mp hbs
      rw [hx, hy]
      simp [eq_comm]

/-- The length of the empty line. -/
def blankLength (m : Mem) (pos : Nat) : Nat := if m pos = lf then 1 else 2

/-- At an empty line `ParseHeader` stops behind it. -/
theorem parseHeader_blankNext (hm : m.Holds pos bs) (hend : pos + bs.length = len)
    (hlen : len < 2 ^ 32) (h : BlankNext m len bs) (headmap : HeaderMap) :
    parseHeader m len pos headmap = ⟨true, u32 (pos + blankLength m pos), headmap, [pos]⟩ := by
  obtain ⟨hne, hblank⟩ := (blankNext_iff hm hend).mp h
  have hpos := List.length_pos_iff.mpr hne
  refine parseHeader_empty headmap ?_ hblank
  rw [sub32_of_le (by omega) hlen]
  omega

/-- Header lines in front of an empty line are stored. -/
theorem parseHeader_headerLines {hs : List (Bytes × Bytes)} {rest : Bytes}
    (h : Unread m len 0 bs) (hl : HeaderLines hs bs rest) (hb : BlankNext m len rest)
    (headmap : HeaderMap) : ∃ pos', pos' + rest.length = len ∧ m.Holds pos' rest ∧
      let q := parseHeader m len 0 headmap
      q.ok = true ∧ q.out = headmap.insertMany hs ∧ q.pos = u32 (pos' + blankLength m pos') := by
  obtain ⟨pos', evals, hunread, -, hparse⟩ := parseHeader_lines hl headmap h
  have hsmall := h.small
  rw [parseHeader_blankNext hunread.holds hunread.length (by omega) hb] at hparse
  refine ⟨pos', hunread.length, hunread.holds, ?_⟩
  rw [hparse]
  exact ⟨rfl, rfl, rfl⟩

/-- Where no header lines lead to an empty line, it fails. -/
theorem parseHeader_fails (h : Unread m len 0 bs)
    (hno : ∀ hs rest, HeaderLines hs bs rest → ¬ BlankNext m len rest) (headmap : HeaderMap) :
    (parseHeader m len 0 headmap).ok = false := by
  obtain ⟨hs, rest, hl, hend⟩ := exists_headerLines bs
  obtain ⟨pos', evals, hunread, -, hparse⟩ := parseHeader_lines hl headmap h
  have hblank := hno hs rest hl
  rw [hparse]
  rcases hend with hend | rfl | hstuck
  · exact absurd (Or.inl hend) hblank
  · refine (parseHeader_cut hunread _).1.trans (decide_eq_false fun hlf => hblank ?_)
    exact Or.inr ⟨rfl, hlf⟩
  · exact (parseHeader_stuck hunread hstuck _).1

/-- From `2 ^ 31` bytes on no colon is found. -/
theorem parseHeader_long (hm : m.Holds 0 bs) (hlong : 2 ^ 31 ≤ bs.length)
    (hlen : bs.length < 2 ^ 32) (hb : ¬ BlankNext m bs.length bs) (headmap : HeaderMap) :
    parseHeader m bs.length 0 headmap = ⟨false, 0, headmap, [0, 0]⟩ := by
  have hne : bs ≠ [] := List.ne_nil_of_length_pos (by omega)
  have hmore : sub32 bs.length 0 ≠ 0 := by
    rw [sub32_of_le (Nat.zero_le _) hlen]
    omega
  rw [parseHeader_next headmap hmore fun hblank =>
    hb ((blankNext_iff hm (Nat.zero_add _)).mpr ⟨hne, hblank⟩), getBufAt_long hlong hlen]

/-- A line with a colon is followed by an empty line. -/
def ColonThenBlank (m : Mem) (len : Nat) (bs : Bytes) : Prop :=
  ∃ u v w, bs = u ++ colon :: (v ++ lf :: w) ∧ lf ∉ v ∧ BlankNext m len w

/-- `ParseHeader` comes to an empty line. -/
def Finishes (m : Mem) (len : Nat) (bs : Bytes) : Prop :=
  BlankNext m len bs ∨ (bs.length < 2 ^ 31 ∧ ColonThenBlank m len bs)

/-- Header lines end at an empty line that is the next or follows a line with a colon. -/
theorem HeaderLines.blankNext {hs : List (Bytes × Bytes)} {rest : Bytes}
    (hl : HeaderLines hs bs rest) (hb : BlankNext m len rest) :
    BlankNext m len bs ∨ ColonThenBlank m len bs := by
  induction hl with
  | nil rest => exact Or.inl hb
  | @cons key value bs mid hs rest hline _ ih =>
    right
    rcases ih hb with hmid | ⟨u, v, w, hu, hv, hw⟩
    · exact ⟨key, value, mid, hline.bytes, hline.value, hmid⟩
    · refine ⟨key ++ colon :: (value ++ lf :: u), v, w, ?_, hv, hw⟩
      rw [hline.bytes, hu]
      simp

/-- What lies behind the first line with a colon, if a later one is followed by an empty
line. -/
theorem colonThenBlank_step {key bs₁ value mid : Bytes} (h : ColonThenBlank m len bs)
    (hkey : FirstCut colon bs key bs₁) (hvalue : FirstCut lf bs₁ value mid) :
    BlankNext m len mid ∨ ColonThenBlank m len mid := by
  obtain ⟨u, v, w, hu, hv, hw⟩ := h
  rcases hkey.of_append hu with ⟨-, hrest⟩ | ⟨u₁, -, hrest⟩
  · rw [(hvalue.unique ⟨hrest.symm, hv⟩).2]
    exact Or.inl hw
  have hsplit : bs₁ = (u₁ ++ colon :: v) ++ lf :: w := by
    rw [hrest]
    simp
  rcases hvalue.of_append hsplit with ⟨-, hmid⟩ | ⟨x, hx, hmid⟩
  · rw [← hmid]
    exact Or.inl hw
  -- the LF of the first line lies before the later colon
  right
  rcases List.append_eq_append_iff.mp hx with ⟨c, hc, hcv⟩ | ⟨c, hc, hcv⟩
  · cases c with
    | nil => exact absurd (List.cons.inj hcv).1 (by decide)
    | cons y c =>
      refine absurd ?_ hv
      rw [(List.cons.inj hcv).2]
      exact List.mem_append_right c List.mem_cons_self
  · cases c with
    | nil => exact absurd (List.cons.inj hcv).1 (by decide)
    | cons y c =>
      refine ⟨c, v, w, ?_, hv, hw⟩
      rw [hmid, (List.cons.inj hcv).2]
      simp

/-- So the loop, line by line, comes to an empty line. -/
theorem exists_headerLines_of_colonThenBlank (bs : Bytes)
    (h : BlankNext m len bs ∨ ColonThenBlank m len bs) :
    ∃ hs rest, HeaderLines hs bs rest ∧ BlankNext m len rest := by
  by_cases hb : BlankNext m len bs
  · exact ⟨[], bs, .nil bs, hb⟩
  have hcolon := h.resolve_left hb
  obtain ⟨u, v, w, hu, -, -⟩ := hcolon
  obtain ⟨key, bs₁, hkey⟩ := exists_firstCut (t := colon) (l := bs) (by rw [hu]; simp)
  have hlf : lf ∈ bs₁ := by
    rcases hkey.of_append hu with ⟨-, hrest⟩ | ⟨u₁, -, hrest⟩
    · rw [← hrest]
      simp
    · rw [hrest]
      simp
  obtain ⟨value, mid, hvalue⟩ := exists_firstCut hlf
  have hline : HeaderLine key value bs mid :=
    ⟨by rw [hkey.eq, hvalue.eq], hkey.first, hvalue.first, fun hblank => hb (Or.inl hblank)⟩
  have hlt := hline.length_lt
  obtain ⟨hs, rest, hl, hrest⟩ := exists_headerLines_of_colonThenBlank mid
    (colonThenBlank_step (h.resolve_left hb) hkey hvalue)
  exact ⟨(key, value) :: hs, rest, .cons hline hl, hrest⟩
termination_by bs.length

/-- What `ParseHeader` does on its way to an empty line. -/
theorem parseHeader_finishes (hm : m.Holds 0 bs) (hlen : bs.length < 2 ^ 32)
    (h : Finishes m bs.length bs) (headmap : HeaderMap) :
    ∃ hs rest pos', HeaderLines hs bs rest ∧ BlankNext m bs.length rest ∧
      pos' + rest.length = bs.length ∧ m.Holds pos' rest ∧
      let q := parseHeader m bs.length 0 headmap
      q.ok = true ∧ q.out = headmap.insertMany hs ∧ q.pos = u32 (pos' + blankLength m pos') := by
  by_cases hsmall : bs.length < 2 ^ 31
  · obtain ⟨hs, rest, hl, hb⟩ :=
      exists_headerLines_of_colonThenBlank bs (h.imp_right fun hcolon => hcolon.2)
    obtain ⟨pos', hend, hholds, hrun⟩ :=
      parseHeader_headerLines ⟨hm, Nat.zero_add _, hsmall⟩ hl hb headmap
    exact ⟨hs, rest, pos', hl, hb, hend, hholds, hrun⟩
  · have hb := h.resolve_right fun hcolon => hsmall hcolon.1
    refine ⟨[], bs, 0, .nil bs, hb, Nat.zero_add _, hm, ?_⟩
    rw [parseHeader_blankNext hm (Nat.zero_add _) hlen hb]
    exact ⟨rfl, rfl, rfl⟩

/-- **`ParseHeader` returns `true` exactly if it comes to an empty line.** -/
theorem parseHeader_ok_iff (hm : m.Holds 0 bs) (hlen : bs.length < 2 ^ 32)
    (headmap : HeaderMap) :
    (parseHeader m bs.length 0 headmap).ok = true ↔ Finishes m bs.length bs := by
  constructor
  · intro hok
    by_contra hno
    obtain ⟨hb, hcolon⟩ := not_or.mp hno
    by_cases hsmall : bs.length < 2 ^ 31
    · have hfails := parseHeader_fails ⟨hm, Nat.zero_add _, hsmall⟩
        (fun hs rest hl hrest => ?_) headmap
      · rw [hok] at hfails
        cases hfails
      · exact (hl.blankNext hrest).elim hb fun h => hcolon ⟨hsmall, h⟩
    · rw [parseHeader_long hm (not_lt.mp hsmall) hlen hb] at hok
      cases hok
  · intro h
    obtain ⟨hs, rest, pos', -, -, -, -, hok, -⟩ := parseHeader_finishes hm hlen h headmap
    exact hok

/-! ## Well-formed heads -/

/-- A line with nothing on it, its LF apart. -/
def EmptyLine (w : Bytes) : Prop := w = [] ∨ w = [cr]

/-- Header lines with a colon each, and an empty line behind them. -/
def WellFormedHead (bs : Bytes) : Prop :=
  ∃ hs eol body, (∀ h ∈ hs, PlainHeader h) ∧ (eol = [lf] ∨ eol = crlf) ∧
    bs = headerText hs ++ (eol ++ body)

/-- The header lines are their text. -/
theorem HeaderLines.text {hs : List (Bytes × Bytes)} {rest : Bytes}
    (h : HeaderLines hs bs rest) : bs = headerText hs ++ rest := by
  induction h with
  | nil rest => rfl
  | cons hline _ ih =>
    rw [hline.bytes, ih]
    simp [headerText]

/-- Colons end the names, and LFs end the values. -/
theorem HeaderLines.cut {hs : List (Bytes × Bytes)} {rest : Bytes} (h : HeaderLines hs bs rest) :
    ∀ x ∈ hs, colon ∉ x.1 ∧ lf ∉ x.2 := by
  induction h with
  | nil rest => exact fun x hx => absurd hx List.not_mem_nil
  | cons hline _ ih => exact List.forall_mem_cons.mpr ⟨⟨hline.key, hline.value⟩, ih⟩

/-- **The first empty line of a well-formed head is the one behind its header lines.** -/
theorem afterEmpty_headerText {hs : List (Bytes × Bytes)} (h : ∀ x ∈ hs, PlainHeader x)
    {eol : Bytes} (heol : eol = [lf] ∨ eol = crlf) (body : Bytes) :
    AfterEmpty lf EmptyLine (headerText hs ++ (eol ++ body))
      ((headerText hs).length + eol.length) := by
  induction hs with
  | nil =>
    rw [show (headerText []).length + eol.length = eol.length from Nat.zero_add _]
    rcases heol with rfl | rfl
    · have hcut : FirstCut lf (headerText [] ++ ([lf] ++ body)) [] body := ⟨rfl, by decide⟩
      exact .here hcut (Or.inl rfl)
    · have hcut : FirstCut lf (headerText [] ++ (crlf ++ body)) [cr] body := ⟨rfl, by decide⟩
      exact .here (w := [cr]) hcut (Or.inr rfl)
  | cons x hs ih =>
    obtain ⟨hx, hhs⟩ := List.forall_mem_cons.mp h
    have hcut : FirstCut lf (headerText (x :: hs) ++ (eol ++ body)) (x.1 ++ colon :: x.2)
        (headerText hs ++ (eol ++ body)) := by
      refine ⟨by simp [headerText], fun hlf => ?_⟩
      rcases List.mem_append.mp hlf with hname | hvalue
      · exact hx.name_lf hname
      · exact hx.value_lf (List.mem_of_ne_of_mem (by decide) hvalue)
    have hfull : ¬ EmptyLine (x.1 ++ colon :: x.2) := by
      intro hempty
      have hcolon : colon ∈ x.1 ++ colon :: x.2 := by simp
      rcases hempty with hempty | hempty
      · rw [hempty] at hcolon
        exact List.not_mem_nil hcolon
      · rw [hempty] at hcolon
        exact absurd hcolon (by decide)
    have hlength : (headerText (x :: hs)).length + eol.length =
        (x.1 ++ colon :: x.2).length + 1 + ((headerText hs).length + eol.length) := by
      simp [headerText]
      omega
    rw [hlength]
    exact .later hcut hfull (ih hhs)

/-- The names of a filled map. -/
theorem mem_insertMany {headmap : HeaderMap} {hs : List (Bytes × Bytes)} {key : Bytes} :
    key ∈ headmap.insertMany hs ↔ key ∈ headmap ∨ ∃ x ∈ hs, x.1 = key := by
  rw [Std.ExtTreeMap.mem_insertMany_list, List.contains_iff_mem, List.mem_map]

/-- The length of an empty line, from its bytes. -/
theorem blankLength_eq {eol body : Bytes} (heol : eol = [lf] ∨ eol = crlf)
    (hm : m.Holds pos (eol ++ body)) : blankLength m pos = eol.length := by
  unfold blankLength
  rcases heol with rfl | rfl
  · exact if_pos (Mem.holds_cons.mp hm).1
  · have hcr : m pos = cr := (Mem.holds_cons.mp hm).1
    rw [hcr, if_neg (by decide)]
    rfl

section WellFormed

variable {hs : List (Bytes × Bytes)} {eol body : Bytes}

/-- **What `ParseHeader` does with a well-formed head**: it stores the header lines in order
and stops behind the empty line. -/
theorem parseHeader_wellFormed (hplain : ∀ h ∈ hs, PlainHeader h)
    (heol : eol = [lf] ∨ eol = crlf) (hbs : bs = headerText hs ++ (eol ++ body))
    (hm : m.Holds 0 bs) (hlen : bs.length < 2 ^ 32) (h : hs = [] ∨ bs.length < 2 ^ 31)
    (headmap : HeaderMap) :
    let q := parseHeader m bs.length 0 headmap
    q.ok = true ∧ q.out = headmap.insertMany hs ∧ q.pos = (headerText hs).length + eol.length := by
  subst hbs
  have hb : ∀ len, BlankNext m len (eol ++ body) := fun _ =>
    Or.inl (Transaction.blank_append heol body)
  by_cases hsmall : (headerText hs ++ (eol ++ body)).length < 2 ^ 31
  · obtain ⟨pos', hend, hholds, hok, hout, hpos⟩ := parseHeader_headerLines
      ⟨hm, Nat.zero_add _, hsmall⟩ (headerLines_headerText hplain _) (hb _) headmap
    refine ⟨hok, hout, hpos.trans ?_⟩
    rw [blankLength_eq heol hholds]
    simp only [List.length_append] at hend hsmall
    rw [u32_of_lt (by omega)]
    omega
  · obtain rfl := h.resolve_right hsmall
    have hrun := parseHeader_blankNext hm (Nat.zero_add _) hlen (hb _) headmap
    intro q
    have hq : q = _ := hrun
    rw [hq, blankLength_eq heol hm]
    refine ⟨rfl, rfl, u32_of_lt ?_⟩
    rcases heol with rfl | rfl <;> decide

/-- Headers in front of very many bytes are refused. -/
theorem parseHeader_wellFormed_long (hplain : ∀ h ∈ hs, PlainHeader h)
    (hbs : bs = headerText hs ++ (eol ++ body)) (hm : m.Holds 0 bs) (hlen : bs.length < 2 ^ 32)
    (h : ¬ (hs = [] ∨ bs.length < 2 ^ 31)) (headmap : HeaderMap) :
    parseHeader m bs.length 0 headmap = ⟨false, 0, headmap, [0, 0]⟩ := by
  obtain ⟨hne, hlong⟩ := not_or.mp h
  refine parseHeader_long hm (not_lt.mp hlong) hlen ?_ headmap
  rintro (hblank | ⟨hcut, -⟩)
  · obtain ⟨x, hs, rfl⟩ := List.exists_cons_of_ne_nil hne
    apply (hplain x List.mem_cons_self).notBlank (x.2 ++ lf :: (headerText hs ++ (eol ++ body)))
    have htext : bs = x.1 ++ colon :: (x.2 ++ lf :: (headerText hs ++ (eol ++ body))) := by
      rw [hbs]
      simp [headerText]
    exact htext ▸ hblank
  · rw [hcut] at hlong
    exact hlong (by decide)

/-- **The same from any cursor on**: whenever `ParseHeader` returns `true` on a well-formed
head, it has stored the header lines and stands behind the empty line. -/
theorem parseHeader_head (hpos : pos ≤ len) (hlen : len < 2 ^ 32)
    (hplain : ∀ h ∈ hs, PlainHeader h) (heol : eol = [lf] ∨ eol = crlf)
    (hbs : m.read pos (len - pos) = headerText hs ++ (eol ++ body)) {headmap : HeaderMap}
    (hok : (parseHeader m len pos headmap).ok = true) :
    (parseHeader m len pos headmap).out = headmap.insertMany hs ∧
      (parseHeader m len pos headmap).pos = pos + ((headerText hs).length + eol.length) := by
  have hlen' : (m.read pos (len - pos)).length < 2 ^ 32 := by
    rw [Mem.length_read]
    omega
  obtain ⟨hokEq, hout, hposEq⟩ := parseHeader_left (m := m) hpos hlen headmap
  by_cases hfits : hs = [] ∨ (m.read pos (len - pos)).length < 2 ^ 31
  · obtain ⟨-, hout', hpos'⟩ :=
      parseHeader_wellFormed hplain heol hbs (holds_left m len pos) hlen' hfits headmap
    refine ⟨hout.trans hout', ?_⟩
    have hbound := congrArg List.length hbs
    rw [Mem.length_read, List.length_append, List.length_append] at hbound
    rw [hposEq, hpos', u32_of_lt (by omega)]
  · rw [hokEq, parseHeader_wellFormed_long hplain hbs (holds_left m len pos) hlen' hfits] at hok
    cases hok

end WellFormed

/-! ## Where the cursor stops -/

/-- Whenever `ParseHeader` returns `true`, it stopped behind the first empty line from the
cursor on, and no name it stored goes over a line end. -/
structure EndsAtBlank (m : Mem) (len pos : Nat) : Prop where
  cursor : ∀ headmap, (parseHeader m len pos headmap).ok = true →
    ∃ n, AfterEmpty lf EmptyLine (m.read pos (len - pos)) n ∧
      (parseHeader m len pos headmap).pos = pos + n
  names : ∀ headmap, (parseHeader m len pos headmap).ok = true →
    ∀ key ∈ (parseHeader m len pos headmap).out, key ∈ headmap ∨ lf ∉ key

/-- On well-formed heads it ends where it should. -/
theorem endsAtBlank_of_wellFormed (hpos : pos ≤ len) (hlen : len < 2 ^ 32)
    (h : WellFormedHead (m.read pos (len - pos))) : EndsAtBlank m len pos := by
  obtain ⟨hs, eol, body, hplain, heol, hbs⟩ := h
  refine ⟨fun headmap hok => ⟨_, ?_, (parseHeader_head hpos hlen hplain heol hbs hok).2⟩,
    fun headmap hok key hkey => ?_⟩
  · rw [hbs]
    exact afterEmpty_headerText hplain heol body
  · rw [(parseHeader_head hpos hlen hplain heol hbs hok).1] at hkey
    apply (mem_insertMany.mp hkey).imp_right
    rintro ⟨x, hx, rfl⟩
    exact (hplain x hx).name_lf

/-- An empty line, cut from what follows it. -/
theorem exists_eol_of_blank (h : Blank bs) :
    ∃ eol body, (eol = [lf] ∨ eol = crlf) ∧ bs = eol ++ body := by
  rcases h with ⟨body, hbody⟩ | ⟨body, hbody⟩
  · exact ⟨[lf], body, Or.inl rfl, hbody.symm⟩
  · exact ⟨crlf, body, Or.inr rfl, hbody.symm⟩

/-- If it ends where it should, the head is well formed or refused. -/
theorem EndsAtBlank.wellFormed (hpos : pos ≤ len) (hlen : len < 2 ^ 32) (h : EndsAtBlank m len pos)
    (hfin : Finishes (m.shift pos) (len - pos) (m.read pos (len - pos))) :
    WellFormedHead (m.read pos (len - pos)) := by
  obtain ⟨hokEq, hout, hposEq⟩ := parseHeader_left (m := m) hpos hlen ∅
  have hlength : (m.read pos (len - pos)).length = len - pos := Mem.length_read _ _ _
  have hfin' : Finishes (m.shift pos) (m.read pos (len - pos)).length (m.read pos (len - pos)) := by
    rwa [hlength]
  obtain ⟨hs, rest, pos', hl, hb, hend, hholds, hok', hout', hpos'⟩ :=
    parseHeader_finishes (holds_left m len pos) (by omega) hfin' ∅
  have hok := hokEq.trans hok'
  rw [hlength] at hend hb
  rcases hb with hblank | ⟨rfl, -⟩
  · have hplain : ∀ x ∈ hs, PlainHeader x := by
      intro x hx
      obtain ⟨hcolon, hlf⟩ := hl.cut x hx
      refine ⟨hcolon, ?_, hlf⟩
      have hkey : x.1 ∈ (parseHeader m len pos ∅).out := by
        rw [hout, hout']
        exact mem_insertMany.mpr (Or.inr ⟨x, hx, rfl⟩)
      exact (h.names ∅ hok x.1 hkey).resolve_left Std.ExtTreeMap.not_mem_empty
    obtain ⟨eol, body, heol, hrest⟩ := exists_eol_of_blank hblank
    exact ⟨hs, eol, body, hplain, heol, hrest ▸ hl.text⟩
  · -- the second half of the empty line would lie behind the buffer
    obtain ⟨n, hn, hcursor⟩ := h.cursor ∅ hok
    have hbounds := hn.bounds
    have hcr : m.shift pos pos' = cr := (Mem.holds_cons.mp hholds).1
    have hlong : blankLength (m.shift pos) pos' = 2 := by
      unfold blankLength
      rw [hcr, if_neg (by decide)]
    rw [hposEq, hpos', hlong] at hcursor
    rw [List.length_singleton] at hend
    unfold u32 at hcursor
    omega

/-- **When `ParseHeader` ends at the first empty line.**  For every buffer and every cursor
inside it: exactly if the bytes from there on are header lines with a colon each and an
empty line, or else do not make it return `true`. -/
theorem endsAtBlank_iff (m : Mem) {len pos : Nat} (hpos : pos ≤ len) (hlen : len < 2 ^ 32) :
    EndsAtBlank m len pos ↔
      WellFormedHead (m.read pos (len - pos)) ∨
        ¬ Finishes (m.shift pos) (len - pos) (m.read pos (len - pos)) := by
  constructor
  · intro h
    by_cases hfin : Finishes (m.shift pos) (len - pos) (m.read pos (len - pos))
    · exact Or.inl (h.wellFormed hpos hlen hfin)
    · exact Or.inr hfin
  · rintro (h | hfin)
    · exact endsAtBlank_of_wellFormed hpos hlen h
    · have hrefused : ∀ headmap, (parseHeader m len pos headmap).ok ≠ true := by
        intro headmap hok
        rw [(parseHeader_left hpos hlen headmap).1,
          parseHeader_ok_iff (holds_left m len pos) (by rw [Mem.length_read]; omega),
          Mem.length_read] at hok
        exact hfin hok
      exact ⟨fun headmap hok => absurd hok (hrefused headmap),
        fun headmap hok => absurd hok (hrefused headmap)⟩

/-- A status line, a header and the empty line; the cursor is behind the first LF. -/
theorem endsAtBlank_iff_sample :
    EndsAtBlank (memOf (ascii ['O', 'K'] ++ [lf, 65, colon, 66, lf, cr, lf, 67])) 10 3 :=
  (endsAtBlank_iff _ (by decide) (by decide)).mpr
    (Or.inl ⟨[([65], [66])], crlf, [67], fun h hh => by
      rw [List.mem_singleton.mp hh]
      exact ⟨by decide, by decide, by decide⟩, Or.inr rfl, by decide⟩)

/-- A line without a colon, an empty line, a body with a colon in it, and LFs. -/
def malformedHead : Bytes := ascii ['a', 'b'] ++ [lf, lf, 120, colon, 121, lf, lf]

/-- The line without a colon absorbs the empty line and the body. -/
theorem not_endsAtBlank_malformedHead :
    ¬ EndsAtBlank (memOf malformedHead) malformedHead.length 0 ∧
      AfterEmpty lf EmptyLine malformedHead 4 ∧
      (parseHeader (memOf malformedHead) malformedHead.length 0 ∅).pos = 9 ∧
      ascii ['a', 'b'] ++ [lf, lf, 120] ∈
        (parseHeader (memOf malformedHead) malformedHead.length 0 ∅).out := by
  have hblank : AfterEmpty lf EmptyLine malformedHead 4 := by
    apply AfterEmpty.later (w := ascii ['a', 'b']) (n := 1) ⟨rfl, by decide⟩
    · rintro (h | h) <;> cases h
    · exact .here (w := []) ⟨rfl, by decide⟩ (Or.inl rfl)
  have hpos : (parseHeader (memOf malformedHead) malformedHead.length 0 ∅).pos = 9 := by
    decide +kernel
  refine ⟨fun h => ?_, hblank, hpos, by decide +kernel⟩
  obtain ⟨n, hn, hcursor⟩ := h.cursor ∅ (by decide +kernel)
  have hread : (memOf malformedHead).read 0 (malformedHead.length - 0) = malformedHead := by decide
  rw [hread] at hn
  rw [hpos, hn.unique hblank] at hcursor
  exact absurd hcursor (by decide)

end HttpDecoder
