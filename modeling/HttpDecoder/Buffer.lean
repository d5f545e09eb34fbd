import HttpDecoder.Lib.Memory

/-!
# `CBuffer`: the growing byte buffer of a session direction

`Buffer.h` and `Buffer.cpp`.  The class stores the length of its contents, the
room it believes to be left and the heap block, never the block's size.  Every
allocator answer is an argument of the operation that asks for it.
-/

namespace HttpDecoder

open CLib

/-- `MAX_BUFFER_SIZE`. -/
def maxBufferSize : Nat := 64 * 1024 * 1024

/-- `BUFFER_SIZE`. -/
def bufferSize : Nat := 2048

/-- `CBuffer`. -/
structure CBuffer where
  len : Nat
  /-- `_free`. -/
  free : Nat
  /-- `buf`, `none` being `NULL`. -/
  buf : Option Block

/-- The allocator's answers to one call of `CBuffer::Reset`. -/
structure ResetAlloc where
  /-- Asked when `buf` is `NULL`. -/
  malloc : Alloc
  /-- Asked when the block is cut back to `BUFFER_SIZE`. -/
  realloc : Alloc

namespace CBuffer

/-- `CBuffer::Reset`. -/
def reset (e : ResetAlloc) (b : CBuffer) : CBuffer :=
  let buf₁ :=
    match b.buf with
    | none => (malloc e.malloc bufferSize).map fun blk =>
        { blk with byte := blk.byte.fill 0 0 b.free }
    | some blk => some blk
  let buf₂ :=
    if b.len > bufferSize * 2 ∧ buf₁.isSome then realloc e.realloc buf₁ bufferSize else buf₁
  { len := 0, free := bufferSize, buf := buf₂ }

/-- `CBuffer::CBuffer`. -/
def new (e : ResetAlloc) : CBuffer := reset e { len := 0, free := 0, buf := none }

/-- `CBuffer::Append`.  The return value comes first; `p` is `none` for `NULL`. -/
def append (a : Alloc) (b : CBuffer) (p : Option Mem) (size : Nat) : Bool × CBuffer :=
  match p with
  | none => (true, b)
  | some p =>
    if size = 0 then (true, b)
    else if size < b.free then
      (true,
        { len := u32 (b.len + size)
          free := b.free - size
          buf := b.buf.map fun blk => { blk with byte := blk.byte.write b.len p size } })
    else
      let n := (b.len + size + 1) % 2 ^ 64
      match realloc a b.buf n with
      | none => (false, { b with buf := afterNull a b.buf n })
      | some blk =>
        let len := u32 (b.len + size)
        (true,
          { len := len
            free := 1
            buf := some { blk with byte := (blk.byte.write b.len p size).fill len 0 1 } })

/-- What `GetBuf` shows: the first `len` bytes of the block. -/
def contents (b : CBuffer) : Bytes :=
  match b.buf with
  | none => []
  | some blk => blk.byte.read 0 b.len

/-! ## The buffer invariant -/

/-- The invariant of a buffer whose block was never refused: the contents and
the room counted as free lie inside the block, and a byte is always left for
the terminator. -/
structure WF (b : CBuffer) : Prop where
  /-- A byte is left for the terminator. -/
  free_pos : 1 ≤ b.free
  /-- The default room is never lost. -/
  default_le : bufferSize ≤ b.len + b.free
  /-- The block is there and holds what is counted. -/
  block : ∃ blk, b.buf = some blk ∧ b.len + b.free ≤ blk.cap
  /-- `len` is a `uint32_t`. -/
  len_lt : b.len < 2 ^ 32

theorem WF.contents_length {b : CBuffer} (h : b.WF) : b.contents.length = b.len := by
  obtain ⟨blk, hblk, -⟩ := h.block
  simp [contents, hblk]

theorem WF.len_eq_zero_iff {b : CBuffer} (h : b.WF) : b.len = 0 ↔ b.contents = [] := by
  rw [← h.contents_length, List.length_eq_zero_iff]

/-! ## `Reset` -/

@[simp] theorem reset_len (e : ResetAlloc) (b : CBuffer) : (b.reset e).len = 0 := rfl

@[simp] theorem reset_free (e : ResetAlloc) (b : CBuffer) : (b.reset e).free = bufferSize := rfl

/-- A reset buffer shows nothing. -/
@[simp] theorem contents_reset (e : ResetAlloc) (b : CBuffer) : (b.reset e).contents = [] := by
  unfold contents
  cases (b.reset e).buf <;> simp

theorem wf_of_reset {e : ResetAlloc} {b : CBuffer} {blk : Block}
    (hbuf : (b.reset e).buf = some blk) (hcap : bufferSize ≤ blk.cap) : (b.reset e).WF where
  free_pos := by simp [bufferSize]
  default_le := by simp
  block := ⟨blk, hbuf, by simpa using hcap⟩
  len_lt := by simp

/-- `Reset` keeps the invariant as long as the allocator answers. -/
theorem WF.reset {b : CBuffer} (h : b.WF) {e : ResetAlloc} (he : e.realloc.isSome) :
    (b.reset e).WF := by
  obtain ⟨blk, hblk, hcap⟩ := h.block
  obtain ⟨g, hg⟩ := Option.isSome_iff_exists.mp he
  by_cases hlen : b.len > bufferSize * 2
  · have hbuf : (b.reset e).buf = realloc e.realloc (some blk) bufferSize := by
      simp [CBuffer.reset, hblk, hlen]
    rw [hg] at hbuf
    exact wf_of_reset hbuf (le_refl _)
  · have hbuf : (b.reset e).buf = some blk := by simp [CBuffer.reset, hblk, hlen]
    exact wf_of_reset hbuf (le_trans h.default_le hcap)

/-- A new buffer satisfies the invariant when its first `malloc` succeeds. -/
theorem wf_new {e : ResetAlloc} (he : e.malloc.isSome) : (new e).WF := by
  obtain ⟨g, hg⟩ := Option.isSome_iff_exists.mp he
  have hbuf : (new e).buf = some ⟨bufferSize, g.fill 0 0 0⟩ := by
    simp [new, CBuffer.reset, malloc, hg]
  exact wf_of_reset hbuf (le_refl _)

/-! ## `Append` -/

/-- The path that finds room: the block stays. -/
theorem append_fast {a : Alloc} {b : CBuffer} {p : Mem} {size : Nat} (h0 : size ≠ 0)
    (h : size < b.free) :
    b.append a (some p) size = (true,
      { len := u32 (b.len + size)
        free := b.free - size
        buf := b.buf.map fun blk => { blk with byte := blk.byte.write b.len p size } }) := by
  simp [append, h0, h]

/-- `Append` finds no room for the bytes and asks `realloc` for none: `len + size + 1` is zero in
a `size_t`, and the block is freed. -/
def Frees (b : CBuffer) (size : Nat) : Prop :=
  b.buf.isSome ∧ b.free ≤ size ∧ size ≠ 0 ∧ (b.len + size + 1) % 2 ^ 64 = 0

instance (b : CBuffer) (size : Nat) : Decidable (b.Frees size) := by unfold Frees; infer_instance

/-- What fits in a `size_t` frees nothing. -/
theorem not_frees_of_lt {b : CBuffer} {size : Nat} (h : b.len + size + 1 < 2 ^ 64) :
    ¬ b.Frees size := by
  rintro ⟨-, -, -, hzero⟩
  rw [Nat.mod_eq_of_lt h] at hzero
  cases hzero

theorem WF.not_frees {b : CBuffer} (h : b.WF) {size : Nat} (hsize : size < 2 ^ 32) :
    ¬ b.Frees size := by
  have hlen := h.len_lt
  exact not_frees_of_lt (by omega)

/-- The request of `Append` is not for no bytes, where there is a block. -/
theorem asks_of_not_frees {b : CBuffer} {size : Nat} (hkeep : ¬ b.Frees size)
    (h : b.free ≤ size) (h0 : size ≠ 0) : b.buf = none ∨ (b.len + size + 1) % 2 ^ 64 ≠ 0 := by
  cases hbuf : b.buf with
  | none => exact Or.inl rfl
  | some blk => exact Or.inr fun hzero => hkeep ⟨by rw [hbuf]; rfl, h, h0, hzero⟩

/-- The path that calls `realloc`. -/
theorem append_asked {a : Alloc} {b : CBuffer} {p : Mem} {size : Nat} (h : b.free ≤ size)
    (h0 : size ≠ 0) : b.append a (some p) size =
      match realloc a b.buf ((b.len + size + 1) % 2 ^ 64) with
      | none => (false, { b with buf := afterNull a b.buf ((b.len + size + 1) % 2 ^ 64) })
      | some blk => (true,
          { len := u32 (b.len + size)
            free := 1
            buf := some { blk with
              byte := (blk.byte.write b.len p size).fill (u32 (b.len + size)) 0 1 } }) :=
  (if_neg h0).trans (if_neg (not_lt.mpr h))

/-- It reallocates if it gets the memory. -/
theorem append_slow {g : Mem} {b : CBuffer} {p : Mem} {size : Nat} (h : b.free ≤ size)
    (h0 : size ≠ 0) (hkeep : ¬ b.Frees size) :
    b.append (some g) (some p) size = (true,
      { len := u32 (b.len + size)
        free := 1
        buf := (realloc (some g) b.buf ((b.len + size + 1) % 2 ^ 64)).map fun blk =>
          { blk with byte := (blk.byte.write b.len p size).fill (u32 (b.len + size)) 0 1 } }) := by
  rw [append_asked h h0, realloc_granted (asks_of_not_frees hkeep h h0)]
  rfl

/-- An append refused by the allocator leaves the buffer as it was. -/
theorem append_refused {b : CBuffer} {p : Mem} {size : Nat} (h : b.free ≤ size)
    (h0 : size ≠ 0) (hkeep : ¬ b.Frees size) : b.append none (some p) size = (false, b) := by
  obtain ⟨hnull, hsame⟩ := realloc_refused (asks_of_not_frees hkeep h h0)
  rw [append_asked h h0, hnull, hsame]

/-- An append that frees its block says that it failed, and keeps its pointer. -/
theorem append_frees {b : CBuffer} {a : Alloc} {p : Mem} {size : Nat} (h : b.Frees size) :
    b.append a (some p) size =
      (false, { b with buf := b.buf.map fun blk => ⟨0, a.getD blk.byte⟩ }) := by
  obtain ⟨hsome, hfree, h0, hzero⟩ := h
  obtain ⟨blk, hblk⟩ := Option.isSome_iff_exists.mp hsome
  obtain ⟨hnull, hfreed⟩ := realloc_zero a blk
  rw [append_asked hfree h0, hzero, hblk, hnull, hfreed]
  rfl

/-- **`Append` appends.**  As long as the length still fits in its type, an
append that is not refused leaves a buffer that satisfies the invariant and
shows the old contents followed by the new bytes. -/
theorem WF.append {b : CBuffer} (h : b.WF) {a : Alloc} (ha : a.isSome) {p : Mem} {size : Nat}
    (hfit : b.len + size < 2 ^ 32) :
    (b.append a (some p) size).1 = true ∧ (b.append a (some p) size).2.WF ∧
      (b.append a (some p) size).2.contents = b.contents ++ p.read 0 size := by
  obtain ⟨blk, hblk, hcap⟩ := h.block
  obtain ⟨g, rfl⟩ := Option.isSome_iff_exists.mp ha
  have hb := h.default_le
  by_cases h0 : size = 0
  · subst h0
    exact ⟨rfl, h, by simp [CBuffer.append]⟩
  have hu : u32 (b.len + size) = b.len + size := u32_of_lt hfit
  have hcontents : b.contents = blk.byte.read 0 b.len := by simp [contents, hblk]
  by_cases hroom : size < b.free
  · rw [append_fast h0 hroom, hblk, hu]
    refine ⟨rfl, ⟨by simp; omega, by simp; omega, ⟨_, rfl, by simp; omega⟩, hfit⟩, ?_⟩
    rw [hcontents]
    exact Mem.read_write_append blk.byte b.len p size
  · have hfree : b.free ≤ size := not_lt.mp hroom
    have hkeep : ¬ b.Frees size := not_frees_of_lt (by omega)
    have hmod : (b.len + size + 1) % 2 ^ 64 = b.len + size + 1 := Nat.mod_eq_of_lt (by omega)
    rw [append_slow hfree h0 hkeep, hblk, hu, hmod, realloc, if_neg (Nat.succ_ne_zero _)]
    refine ⟨rfl, ⟨le_refl _, by simp; omega, ⟨_, rfl, by simp⟩, hfit⟩, ?_⟩
    -- the kept bytes lie below the old length, which is inside both blocks
    have hkept : (blk.moved (b.len + size + 1) g).read 0 b.len = b.contents := by
      rw [blk.read_moved g (by omega) (by omega), hcontents]
    calc Mem.read _ 0 (b.len + size)
        = ((blk.moved (b.len + size + 1) g).write b.len p size).read 0 (b.len + size) :=
          Mem.read_fill_before _ _ _ _ (le_refl _)
      _ = b.contents ++ p.read 0 size := by rw [Mem.read_write_append, hkept]

/-- A request for memory that is granted makes `Append` succeed. -/
theorem append_fst {a : Alloc} (ha : a.isSome) {b : CBuffer} (p : Mem) {size : Nat}
    (hkeep : ¬ b.Frees size) : (b.append a (some p) size).1 = true := by
  obtain ⟨g, rfl⟩ := Option.isSome_iff_exists.mp ha
  by_cases h0 : size = 0
  · simp [append, h0]
  by_cases hroom : size < b.free
  · rw [append_fast h0 hroom]
  · rw [append_slow (not_lt.mp hroom) h0 hkeep]

/-- **The outcomes of `Append`** that does not free the block: it succeeds, as it does when memory
is granted, or it is refused and leaves the buffer as it was. -/
theorem append_cases {b : CBuffer} (a : Alloc) (p : Mem) {size : Nat} (hkeep : ¬ b.Frees size) :
    (∃ g : Mem, b.append a (some p) size = b.append (some g) (some p) size) ∨
      b.append a (some p) size = (false, b) := by
  cases a with
  | some g => exact Or.inl ⟨g, rfl⟩
  | none =>
    by_cases h0 : size = 0
    · exact Or.inl ⟨fun _ => 0, by simp [append, h0]⟩
    by_cases hroom : size < b.free
    · exact Or.inl ⟨fun _ => 0, by rw [append_fast h0 hroom, append_fast h0 hroom]⟩
    · exact Or.inr (append_refused (not_lt.mp hroom) h0 hkeep)

/-- What the answer of `Append` says, unless the block is freed: everything was appended, or
nothing. -/
theorem WF.append_answer {b : CBuffer} (h : b.WF) (a : Alloc) (p : Mem) {size : Nat}
    (hfit : (b.append a (some p) size).1 = true → b.len + size < 2 ^ 32)
    (hkeep : ¬ b.Frees size) :
    (b.append a (some p) size).2.WF ∧ (b.append a (some p) size).2.contents =
      b.contents ++ if (b.append a (some p) size).1 then p.read 0 size else [] := by
  rcases append_cases a p hkeep with ⟨g, hgranted⟩ | hrefused
  · rw [hgranted] at hfit ⊢
    have hanswer := append_fst (Option.isSome_some (a := g)) p hkeep
    obtain ⟨-, hwf, hcontents⟩ := h.append (Option.isSome_some (a := g)) (p := p) (hfit hanswer)
    rw [hanswer]
    exact ⟨hwf, hcontents⟩
  · rw [hrefused]
    exact ⟨h, (List.append_nil _).symm⟩

/-- `Append` succeeds if there is room or the request for memory is granted, and not one that
frees the block. -/
theorem append_fst_iff {b : CBuffer} (h : 1 ≤ b.free) (a : Alloc) (p : Mem) (size : Nat) :
    (b.append a (some p) size).1 = true ↔ size < b.free ∨ (a.isSome ∧ ¬ b.Frees size) := by
  by_cases h0 : size = 0
  · exact iff_of_true (by simp [append, h0]) (Or.inl (by omega))
  by_cases hroom : size < b.free
  · rw [append_fast h0 hroom]
    exact iff_of_true rfl (Or.inl hroom)
  by_cases hfrees : b.Frees size
  · rw [append_frees hfrees]
    exact iff_of_false Bool.false_ne_true fun h => h.elim hroom fun h => h.2 hfrees
  cases a with
  | some g =>
    rw [append_slow (not_lt.mp hroom) h0 hfrees]
    exact iff_of_true rfl (Or.inr ⟨rfl, hfrees⟩)
  | none =>
    rw [append_refused (not_lt.mp hroom) h0 hfrees]
    exact iff_of_false (by simp) fun h => h.elim hroom (by simp)

/-- `Append` adds in 32 bits, unless it fails. -/
theorem append_len {b : CBuffer} (hb : b.len < 2 ^ 32) (a : Alloc) (p : Mem) (size : Nat) :
    (b.append a (some p) size).2.len =
      if (b.append a (some p) size).1 then u32 (b.len + size) else b.len := by
  by_cases h0 : size = 0
  · rw [h0, Nat.add_zero, u32_of_lt hb, ite_self]
    rfl
  by_cases hroom : size < b.free
  · rw [append_fast h0 hroom]
    rfl
  by_cases hfrees : b.Frees size
  · rw [append_frees hfrees]
    rfl
  · cases a with
    | none =>
      rw [append_refused (not_lt.mp hroom) h0 hfrees]
      rfl
    | some g =>
      rw [append_slow (not_lt.mp hroom) h0 hfrees]
      rfl

/-- So the length stays in its type. -/
theorem append_len_lt {b : CBuffer} (hb : b.len < 2 ^ 32) (a : Alloc) (p : Mem) (size : Nat) :
    (b.append a (some p) size).2.len < 2 ^ 32 := by
  rw [append_len hb]
  split
  · exact Nat.mod_lt _ (by norm_num)
  · exact hb

end CBuffer

end HttpDecoder
