import HttpDecoder.Lib.Loop
import HttpDecoder.RequestHead

/-!
# The loop of `ParseHeader`

`ParseHeader` reads header lines in a `while(true)` loop.  It measures what is left by
`len-pos`, an unsigned difference that `GetBufByTag` takes as an `int`; and it can be entered
with a cursor that is one past `len`, when `ParseRspState` found its line end half behind the
buffer.

* `headerLoop` — the loop, of which nothing says that it ends.
* `headerRound_advance` — a round that does not return moves the cursor on by two or more, and
  not past `len`.
* `parseHeader_ends` — **the loop ends**, after `len / 2 + 1` rounds at most, and returns what
  `parseHeader` says.
* `requestHeader_returns`, `responseHeader_returns` — so it does wherever `Parse` enters it.
-/

namespace HttpDecoder

open CLib

/-! ## The loop -/

/-- The parameters that the rounds change. -/
structure HeaderVars where
  pos : Nat
  headmap : HeaderMap

/-- A round, with the return value if it is the last. -/
def headerRound (pBuf : Mem) (len : Nat) (v : HeaderVars) : HeaderVars ⊕ Bool × HeaderVars :=
  if sub32 len v.pos = 0 then .inr (false, v)
  else if strncmpEq (pBuf.shift v.pos) [lf] then .inr (true, { v with pos := u32 (v.pos + 1) })
  else if strncmpEq (pBuf.shift v.pos) [cr, lf] then
    .inr (true, { v with pos := u32 (v.pos + 2) })
  else
    match getBufAt pBuf len v.pos [colon] [] with
    | none => .inr (false, v)
    | some (retKey, key) =>
      let pos₁ := u32 (v.pos + (retKey + 1))
      match getBufAt pBuf len pos₁ [lf] [] with
      | none => .inr (false, { v with pos := pos₁ })
      | some (retValue, value) =>
        .inl ⟨u32 (pos₁ + (retValue + 1)), v.headmap.insert key value⟩

/-- The `while(true)` loop of `ParseHeader`. -/
def headerLoop (pBuf : Mem) (len : Nat) : Loop HeaderVars (Bool × HeaderVars) :=
  ⟨headerRound pBuf len⟩

/-- What `parseHeader` says that the loop returns and leaves. -/
def headerResult (pBuf : Mem) (len : Nat) (v : HeaderVars) : Bool × HeaderVars :=
  let r := parseHeader pBuf len v.pos v.headmap
  (r.ok, ⟨r.pos, r.out⟩)

variable {pBuf : Mem} {len pos : Nat} {tag out : Bytes}

/-- It goes on as the loop does. -/
theorem headerResult_unfolds (pBuf : Mem) (len : Nat) (v : HeaderVars) :
    headerResult pBuf len v =
      Sum.elim (headerResult pBuf len) id ((headerLoop pBuf len).body v) := by
  show _ = Sum.elim (headerResult pBuf len) id (headerRound pBuf len v)
  rw [headerResult, headerRound]
  by_cases hmore : sub32 len v.pos = 0
  · rw [parseHeader, if_pos hmore, if_pos hmore]
    rfl
  by_cases hlf : strncmpEq (pBuf.shift v.pos) [lf] = true
  · rw [parseHeader, if_neg hmore, if_neg hmore, if_pos hlf, if_pos hlf]
    rfl
  by_cases hcrlf : strncmpEq (pBuf.shift v.pos) [cr, lf] = true
  · rw [parseHeader, if_neg hmore, if_neg hmore, if_neg hlf, if_neg hlf, if_pos hcrlf,
      if_pos hcrlf]
    rfl
  rw [parseHeader_step v.headmap hmore (Bool.eq_false_iff.mpr hlf) (Bool.eq_false_iff.mpr hcrlf),
    if_neg hmore, if_neg hlf, if_neg hcrlf]
  cases getBufAt pBuf len v.pos [colon] [] with
  | none => rfl
  | some r =>
    simp only
    cases getBufAt pBuf len (u32 (v.pos + (r.1 + 1))) [lf] [] with
    | none => rfl
    | some r' => simp only [Sum.elim_inl, headerResult]

/-! ## One round -/

/-- A cursor inside the buffer stays there when it is moved behind a byte that was found. -/
theorem advance_of_found (hlen : len < 2 ^ 32) (hpos : pos ≤ len) {r : Nat × Bytes}
    (h : getBufAt pBuf len pos tag out = some r) :
    u32 (pos + (r.1 + 1)) = pos + (r.1 + 1) ∧ pos + (r.1 + 1) ≤ len := by
  have hlt := getBufAt_lt h
  rw [sub32_of_le hpos hlen] at hlt
  exact ⟨u32_of_lt (by omega), by omega⟩

theorem u32_advance_le (hlen : len < 2 ^ 32) (hpos : pos ≤ len) {r : Nat × Bytes}
    (h : getBufAt pBuf len pos tag out = some r) : u32 (pos + (r.1 + 1)) ≤ len := by
  obtain ⟨hpos₁, hle₁⟩ := advance_of_found hlen hpos h
  rwa [hpos₁]

/-- Behind the buffer nothing is found: the difference wraps, and is negative as an `int`. -/
theorem getBufAt_behind : getBufAt pBuf len (len + 1) tag out = none := by
  have hwrap : sub32 len (len + 1) = 2 ^ 32 - 1 := by
    unfold sub32
    omega
  unfold getBufAt getBufByTag
  rw [hwrap, toInt32_toNat_of_le (by norm_num) (by norm_num)]
  rfl

/-- **A round that does not return moves the cursor on by two bytes or more, and not past
`len`.** -/
theorem headerRound_advance (hlen : len < 2 ^ 32) {v v' : HeaderVars} (hpos : v.pos ≤ len + 1)
    (h : headerRound pBuf len v = .inl v') : v.pos + 2 ≤ v'.pos ∧ v'.pos ≤ len := by
  unfold headerRound at h
  split_ifs at h
  cases hkey : getBufAt pBuf len v.pos [colon] [] with
  | none => simp [hkey] at h
  | some r =>
    have hinside : v.pos ≤ len := by
      by_contra hbehind
      rw [show v.pos = len + 1 by omega, getBufAt_behind] at hkey
      cases hkey
    obtain ⟨hpos₁, hle₁⟩ := advance_of_found hlen hinside hkey
    simp only [hkey, hpos₁] at h
    cases hvalue : getBufAt pBuf len (v.pos + (r.1 + 1)) [lf] [] with
    | none => simp [hvalue] at h
    | some r' =>
      obtain ⟨hpos₂, hle₂⟩ := advance_of_found hlen hle₁ hvalue
      simp only [hvalue, hpos₂, Sum.inl.injEq] at h
      subst h
      exact ⟨by dsimp only; omega, hle₂⟩

/-! ## All rounds -/

/-- The bytes behind the cursor bound the number of rounds. -/
theorem headerLoop_returns (hlen : len < 2 ^ 32) {v : HeaderVars} (hpos : v.pos ≤ len + 1) :
    ∃ n, (headerLoop pBuf len).Returns v n (headerResult pBuf len v) ∧
      n ≤ (len - v.pos) / 2 + 1 := by
  have hstep : ∀ a b : HeaderVars, a.pos ≤ len + 1 → (headerLoop pBuf len).body a = .inl b →
      b.pos ≤ len + 1 ∧ len - b.pos + 2 ≤ len - a.pos := by
    intro a b ha hround
    obtain ⟨hadvance, hle⟩ := headerRound_advance hlen ha hround
    omega
  obtain ⟨n, r, hreturns, hn⟩ := Loop.exists_returns Nat.two_pos hstep v hpos
  exact ⟨n, hreturns.eq_of_unfolds (headerResult_unfolds pBuf len) ▸ hreturns, hn⟩

/-- So does the length. -/
theorem headerLoop_returns_half (hlen : len < 2 ^ 32) {v : HeaderVars} (hpos : v.pos ≤ len + 1) :
    ∃ n ≤ len / 2 + 1, (headerLoop pBuf len).Returns v n (headerResult pBuf len v) := by
  obtain ⟨n, hreturns, hn⟩ := headerLoop_returns hlen hpos
  exact ⟨n, by omega, hreturns⟩

/-- The cursor is at most one past `len` whenever a round begins. -/
theorem pos_le_of_reaches (hlen : len < 2 ^ 32) {v w : HeaderVars} (hpos : v.pos ≤ len + 1)
    (h : (headerLoop pBuf len).Reaches v w) : w.pos ≤ len + 1 :=
  h.invariant (I := fun a => a.pos ≤ len + 1)
    (fun _ _ ha hround => (headerRound_advance hlen ha hround).2.trans (Nat.le_succ len)) hpos

/-! ## Where the loop is entered -/

/-- `ParseMethodAndUri` leaves the cursor inside the buffer. -/
theorem pos_parseMethodAndUri_le (B : Boost) (und : UInt32) (pBuf : Mem) (hlen : len < 2 ^ 32)
    (hpos : pos ≤ len) (result : CResult) :
    (parseMethodAndUri B und pBuf len pos result).pos ≤ len := by
  unfold parseMethodAndUri
  cases hmethod : getBufAt pBuf len pos [sp] [] with
  | none => exact hpos
  | some r₁ =>
    have hle₁ := u32_advance_le hlen hpos hmethod
    simp only
    generalize u32 (pos + (r₁.1 + 1)) = pos₁ at hle₁ ⊢
    cases hurl : getBufAt pBuf len pos₁ [sp] result.url with
    | none => exact hle₁
    | some r₂ =>
      have hle₂ := u32_advance_le hlen hle₁ hurl
      simp only
      generalize u32 (pos₁ + (r₂.1 + 1)) = pos₂ at hle₂ ⊢
      cases hversion : getBufAt pBuf len pos₂ [lf] [] with
      | none => exact hle₂
      | some r₃ =>
        have hle₃ := u32_advance_le hlen hle₂ hversion
        simp only
        cases getVersion B r₃.2 with
        | none => exact hle₃
        | some ver => exact hle₃

/-- `ParseRspState` leaves it at most one past `len`: it skips two bytes for the CR LF that it
found, of which the second can lie behind the buffer. -/
theorem pos_parseRspState_le (B : Boost) (pBuf : Mem) (hlen : len < 2 ^ 32) (hpos : pos ≤ len)
    (result : CResult) : (parseRspState B pBuf len pos result).pos ≤ len + 1 := by
  unfold parseRspState
  cases hversion : getBufAt pBuf len pos [sp] [] with
  | none => exact Nat.le_succ_of_le hpos
  | some r₁ =>
    have hle₁ := u32_advance_le hlen hpos hversion
    simp only
    generalize u32 (pos + (r₁.1 + 1)) = pos₁ at hle₁ ⊢
    cases getVersion B r₁.2 with
    | none => exact Nat.le_succ_of_le hle₁
    | some ver =>
      simp only
      split_ifs with hsame
      · exact Nat.le_succ_of_le hle₁
      cases hcode : getBufAt pBuf len pos₁ [sp] [] with
      | none => exact Nat.le_succ_of_le hle₁
      | some r₂ =>
        have hle₂ := u32_advance_le hlen hle₁ hcode
        simp only
        generalize u32 (pos₁ + (r₂.1 + 1)) = pos₂ at hle₂ ⊢
        cases B.castUInt32 r₂.2 with
        | none => exact Nat.le_succ_of_le hle₂
        | some code =>
          simp only
          cases hnote : getBufAt pBuf len pos₂ [cr, lf] result.retNote with
          | none => exact Nat.le_succ_of_le hle₂
          | some r₃ =>
            have hle₃ := (advance_of_found hlen hle₂ hnote).2
            have hskip : u32 (pos₂ + (r₃.1 + 2)) ≤ pos₂ + (r₃.1 + 2) := Nat.mod_le _ _
            exact hskip.trans (Nat.succ_le_succ hle₃)

/-- The loop ends where `ParseMethodAndUri` leaves the cursor. -/
theorem requestHeader_returns {B : Boost} {und : UInt32} (hlen : len < 2 ^ 32)
    {result : CResult} {line : Stage CResult}
    (hline : parseMethodAndUri B und pBuf len 0 result = line) :
    ∃ n ≤ len / 2 + 1, (headerLoop pBuf len).Returns ⟨line.pos, line.out.requestHeader⟩ n
      (headerResult pBuf len ⟨line.pos, line.out.requestHeader⟩) := by
  have hle := pos_parseMethodAndUri_le B und pBuf hlen (Nat.zero_le len) result
  rw [hline] at hle
  exact headerLoop_returns_half hlen (Nat.le_succ_of_le hle)

/-- So it does where `ParseRspState` leaves it. -/
theorem responseHeader_returns {B : Boost} (hlen : len < 2 ^ 32) {result : CResult}
    {line : Stage CResult} (hline : parseRspState B pBuf len 0 result = line) :
    ∃ n ≤ len / 2 + 1, (headerLoop pBuf len).Returns ⟨line.pos, line.out.responseHeader⟩ n
      (headerResult pBuf len ⟨line.pos, line.out.responseHeader⟩) := by
  have hle := pos_parseRspState_le B pBuf hlen (Nat.zero_le len) result
  rw [hline] at hle
  exact headerLoop_returns_half hlen hle

/-- **`ParseHeader` ends.**  For every length of type `uint32_t`, whatever the buffer holds and
whatever lies behind it, and every cursor that is at most one past its end, as `ParseRspState`
leaves it: the loop returns after `len / 2 + 1` rounds or fewer, with the result of
`parseHeader`, and every round before the last moves the cursor on by two bytes or more and not
past `len`. -/
theorem parseHeader_ends (pBuf : Mem) {len pos : Nat} (hlen : len < 2 ^ 32)
    (hpos : pos ≤ len + 1) (headmap : HeaderMap) :
    (∃ n ≤ len / 2 + 1, (headerLoop pBuf len).Returns ⟨pos, headmap⟩ n
        (headerResult pBuf len ⟨pos, headmap⟩)) ∧
      (∀ v v', (headerLoop pBuf len).Reaches ⟨pos, headmap⟩ v →
        (headerLoop pBuf len).body v = .inl v' → v.pos + 2 ≤ v'.pos ∧ v'.pos ≤ len) ∧
      ∀ (B : Boost) (result : CResult), (parseRspState B pBuf len 0 result).pos ≤ len + 1 := by
  refine ⟨headerLoop_returns_half hlen hpos, fun v v' hreaches hround => ?_, fun B result => ?_⟩
  · exact headerRound_advance hlen (pos_le_of_reaches hlen hpos hreaches) hround
  · exact pos_parseRspState_le B pBuf hlen (Nat.zero_le len) result

/-- A status line without a reason, and its line end. -/
def cutStatus : Bytes :=
  ascii ['H', 'T', 'T', 'P', '/', '1', '.', '1', ' ', '2', '0', '0', ' '] ++ crlf

/-- Where `ParseRspState` leaves the cursor if the line feed lies behind the buffer. -/
def cutPos : Nat :=
  (parseRspState Boost.decimal (memOf cutStatus) 14 0 { CResult.reset with version := 11 }).pos

/-- It is one past the length, and the loop ends there. -/
theorem parseHeader_ends_cutStatus : cutPos = 14 + 1 ∧
    ∃ n ≤ 8, (headerLoop (memOf cutStatus) 14).Returns ⟨cutPos, ∅⟩ n
      (headerResult (memOf cutStatus) 14 ⟨cutPos, ∅⟩) := by
  have hpos : cutPos = 14 + 1 := by decide +kernel
  exact ⟨hpos, (parseHeader_ends (memOf cutStatus) (by norm_num) (le_of_eq hpos) ∅).1⟩

end HttpDecoder
