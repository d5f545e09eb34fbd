import Mathlib

/-!
# C memory, C strings and fixed-width arithmetic

A C program sees memory through pointers.  Here a pointer is the function that
gives the byte at each offset from it (`Mem`), so pointer arithmetic is a shift
(`Mem.shift`), reading `n` bytes is `Mem.read`, and `memcpy` and `memset` are
function updates.  A heap block (`Block`) is such a memory with the size that
was asked for; the bytes past that size are whatever lies behind the block.

* `malloc`, `realloc` — the allocator, whose answer (`Alloc`) is an argument:
  `none` is `NULL`, `some g` a block whose fresh bytes are those of `g`.
* `strncmpEq` — `strncmp(s, tag, n) == 0` for a tag of `n` bytes.
* `u32`, `sub32`, `toInt32`, `sizeT`, `toInt16` — the conversions of the
  unsigned and signed types of the program.
* `Mem.Holds` — the memory holds a given byte string at an offset, with the
  lemmas that cut such a string in two.
* `Store` — a write into a heap block, as the range of bytes it covers.
-/

namespace CLib

/-- A string of bytes. -/
abbrev Bytes := List UInt8

/-- Memory seen through a pointer: the byte at each offset. -/
abbrev Mem := Nat → UInt8

/-- The bytes of a text given by its ASCII characters. -/
def ascii (cs : List Char) : Bytes := cs.map fun c => UInt8.ofNat c.toNat

/-! ## Fixed-width arithmetic -/

/-- Conversion to `uint32_t`. -/
def u32 (n : Nat) : Nat := n % 2 ^ 32

/-- The difference `a - b` of two `uint32_t` values. -/
def sub32 (a b : Nat) : Nat := (a + (2 ^ 32 - b % 2 ^ 32)) % 2 ^ 32

/-- Conversion of a `uint32_t` to `int`. -/
def toInt32 (n : Nat) : Int :=
  if n % 2 ^ 32 < 2 ^ 31 then (n % 2 ^ 32 : Nat) else ((n % 2 ^ 32 : Nat) : Int) - 2 ^ 32

/-- Conversion of an `int` to `int16_t`. -/
def toInt16 (n : Int) : Int := (n + 2 ^ 15) % 2 ^ 16 - 2 ^ 15

/-- Conversion of an `int` to `size_t`. -/
def sizeT (n : Int) : Nat := (n % 2 ^ 64).toNat

theorem u32_of_lt {n : Nat} (h : n < 2 ^ 32) : u32 n = n := Nat.mod_eq_of_lt h

theorem sub32_of_le {a b : Nat} (h : b ≤ a) (ha : a < 2 ^ 32) : sub32 a b = a - b := by
  unfold sub32
  omega

/-- Moving the subtrahend forward by less than the difference takes that much
off the difference, also when the subtrahend wraps around. -/
theorem sub32_advance {a b k : Nat} (h : k ≤ sub32 a b) :
    sub32 a (u32 (b + k)) = sub32 a b - k := by
  unfold sub32 u32 at *
  omega

theorem toInt32_toNat_le (n : Nat) : (toInt32 n).toNat ≤ n := by
  unfold toInt32
  split <;> omega

theorem toInt32_of_lt {n : Nat} (h : n < 2 ^ 31) : toInt32 n = n := by
  unfold toInt32
  have hn : n % 2 ^ 32 = n := Nat.mod_eq_of_lt (by omega)
  rw [hn, if_pos h]

/-- A value from `2 ^ 31` on comes out negative. -/
theorem toInt32_toNat_of_le {n : Nat} (h : 2 ^ 31 ≤ n) (hn : n < 2 ^ 32) :
    (toInt32 n).toNat = 0 := by
  unfold toInt32
  have hm : n % 2 ^ 32 = n := Nat.mod_eq_of_lt hn
  rw [hm, if_neg (by omega)]
  omega

theorem sizeT_of_nonneg {n : Int} (h : 0 ≤ n) (hn : n < 2 ^ 64) : sizeT n = n.toNat := by
  unfold sizeT
  rw [Int.emod_eq_of_lt h hn]

/-! ## Reading and writing -/

namespace Mem

/-- Pointer arithmetic: `m + k`. -/
def shift (m : Mem) (k : Nat) : Mem := fun i => m (k + i)

/-- The `n` bytes at offset `off`. -/
def read (m : Mem) (off n : Nat) : Bytes := (List.range n).map fun i => m (off + i)

/-- `memcpy(m + off, p, size)`. -/
def write (m : Mem) (off : Nat) (p : Mem) (size : Nat) : Mem :=
  fun i => if off ≤ i ∧ i < off + size then p (i - off) else m i

/-- `memset(m + off, c, size)`. -/
def fill (m : Mem) (off : Nat) (c : UInt8) (size : Nat) : Mem :=
  fun i => if off ≤ i ∧ i < off + size then c else m i

@[simp] theorem shift_apply (m : Mem) (k i : Nat) : m.shift k i = m (k + i) := rfl

@[simp] theorem length_read (m : Mem) (off n : Nat) : (m.read off n).length = n := by
  simp [read]

@[simp] theorem read_zero (m : Mem) (off : Nat) : m.read off 0 = [] := rfl

theorem read_add (m : Mem) (off a b : Nat) :
    m.read off (a + b) = m.read off a ++ m.read (off + a) b := by
  simp [read, List.range_add, Function.comp_def, Nat.add_assoc]

theorem read_succ (m : Mem) (off n : Nat) :
    m.read off (n + 1) = m off :: m.read (off + 1) n := by
  rw [Nat.add_comm n 1, read_add]
  simp [read]

@[simp] theorem read_shift (m : Mem) (k off n : Nat) :
    (m.shift k).read off n = m.read (k + off) n := by
  simp [read, Nat.add_assoc]

/-- Two memories that agree on a range read the same there. -/
theorem read_congr {m m' : Mem} {off n : Nat} (h : ∀ i, i < n → m (off + i) = m' (off + i)) :
    m.read off n = m'.read off n :=
  List.map_congr_left fun i hi => h i (List.mem_range.mp hi)

/-- What is written is read back. -/
theorem read_write_self (m : Mem) (off : Nat) (p : Mem) (size : Nat) :
    (m.write off p size).read off size = p.read 0 size := by
  refine List.map_congr_left fun i hi => ?_
  have hi' := List.mem_range.mp hi
  simp [write, hi']

/-- A write leaves what lies before it. -/
theorem read_write_before (m : Mem) (off : Nat) (p : Mem) (size : Nat) {n : Nat}
    (h : n ≤ off) : (m.write off p size).read 0 n = m.read 0 n := by
  refine read_congr fun i hi => ?_
  rw [write, if_neg (by omega)]

/-- Writing at the end of what is read appends. -/
theorem read_write_append (m : Mem) (off : Nat) (p : Mem) (size : Nat) :
    (m.write off p size).read 0 (off + size) = m.read 0 off ++ p.read 0 size := by
  rw [read_add, read_write_before _ _ _ _ (le_refl _), Nat.zero_add, read_write_self]

/-- A fill leaves what lies before it. -/
theorem read_fill_before (m : Mem) (off : Nat) (c : UInt8) (size : Nat) {n : Nat}
    (h : n ≤ off) : (m.fill off c size).read 0 n = m.read 0 n := by
  refine read_congr fun i hi => ?_
  rw [fill, if_neg (by omega)]

/-- `m` holds the bytes `bs` from offset `off` on. -/
def Holds (m : Mem) (off : Nat) (bs : Bytes) : Prop := m.read off bs.length = bs

theorem holds_read (m : Mem) (off n : Nat) : m.Holds off (m.read off n) := by
  simp [Holds]

theorem holds_append {m : Mem} {off : Nat} {a b : Bytes} :
    m.Holds off (a ++ b) ↔ m.Holds off a ∧ m.Holds (off + a.length) b := by
  unfold Holds
  rw [List.length_append, read_add]
  constructor
  · intro h
    exact List.append_inj h (by simp)
  · rintro ⟨ha, hb⟩
    rw [ha, hb]

theorem holds_cons {m : Mem} {off : Nat} {x : UInt8} {bs : Bytes} :
    m.Holds off (x :: bs) ↔ m off = x ∧ m.Holds (off + 1) bs := by
  unfold Holds
  rw [List.length_cons, read_succ, List.cons.injEq]

theorem Holds.get {m : Mem} {off : Nat} {bs : Bytes} (h : m.Holds off bs) {i : Nat}
    (hi : i < bs.length) : m (off + i) = bs[i] := by
  have hr : (m.read off bs.length)[i]? = bs[i]? := by rw [show m.read off bs.length = bs from h]
  simpa [read, hi] using hr

theorem holds_iff_get {m : Mem} {off : Nat} {bs : Bytes} :
    m.Holds off bs ↔ ∀ i (hi : i < bs.length), m (off + i) = bs[i] := by
  constructor
  · intro h i hi
    exact h.get hi
  · intro h
    refine List.ext_getElem (by simp) fun i h₁ h₂ => ?_
    simpa [read] using h i h₂

end Mem

/-! ## String search -/

/-- `strncmp(s, tag, n) == 0` where `n` is the length of `tag`.  The comparison
stops at the first difference and after a terminator common to both. -/
def strncmpEq (s : Mem) : Bytes → Bool
  | [] => true
  | t :: ts => if s 0 ≠ t then false else if t = 0 then true else strncmpEq (s.shift 1) ts

theorem strncmpEq_single (s : Mem) {t : UInt8} : strncmpEq s [t] = decide (s 0 = t) := by
  by_cases h : s 0 = t <;> simp [strncmpEq, h]

theorem strncmpEq_pair (s : Mem) {t u : UInt8} (ht : t ≠ 0) :
    strncmpEq s [t, u] = decide (s 0 = t ∧ s 1 = u) := by
  by_cases h : s 0 = t
  · by_cases h' : s 1 = u <;> simp [strncmpEq, h, ht, h']
  · simp [strncmpEq, h]

/-! ## The allocator -/

/-- A heap block: the size asked for and the bytes in and behind it. -/
structure Block where
  /-- The size the block was allocated with. -/
  cap : Nat
  /-- The bytes from the start of the block on. -/
  byte : Mem

/-- The answer to one call of the allocator: `none` when it fails, otherwise
the bytes found in the memory it hands out. -/
abbrev Alloc := Option Mem

/-- `malloc(n)`. -/
def malloc (a : Alloc) (n : Nat) : Option Block := a.map fun g => ⟨n, g⟩

/-- The bytes of a block moved to a block of `n` bytes with contents `g`. -/
def Block.moved (b : Block) (n : Nat) (g : Mem) : Mem :=
  fun i => if i < min b.cap n then b.byte i else g i

/-- `realloc(old, n)`: the bytes up to the smaller of the two sizes are kept.  Asked for no byte
of a block, it frees the block and answers `NULL`. -/
def realloc (a : Alloc) (old : Option Block) (n : Nat) : Option Block :=
  match old with
  | none => malloc a n
  | some b => if n = 0 then none else a.map fun g => ⟨n, b.moved n g⟩

/-- What `old` points to after `realloc(old, n)` has answered `NULL`: the block as it was, or, if
it was freed, no byte of it. -/
def afterNull (a : Alloc) (old : Option Block) (n : Nat) : Option Block :=
  old.map fun b => if n = 0 then ⟨0, a.getD b.byte⟩ else b

/-- A request that is refused leaves the block, unless it is for no byte of it. -/
theorem realloc_refused {old : Option Block} {n : Nat} (h : old = none ∨ n ≠ 0) :
    realloc none old n = none ∧ afterNull none old n = old := by
  cases old with
  | none => exact ⟨rfl, rfl⟩
  | some b =>
    have hn : n ≠ 0 := h.resolve_left (Option.some_ne_none b)
    exact ⟨if_neg hn, congrArg some (if_neg hn)⟩

/-- A request that is granted. -/
theorem realloc_granted {old : Option Block} {n : Nat} (h : old = none ∨ n ≠ 0) (g : Mem) :
    realloc (some g) old n = some ⟨n, old.elim g fun b => b.moved n g⟩ := by
  cases old with
  | none => rfl
  | some b => exact if_neg (h.resolve_left (Option.some_ne_none b))

theorem cap_of_realloc {a : Alloc} {old : Option Block} {n : Nat} {blk : Block}
    (h : realloc a old n = some blk) : blk.cap = n := by
  cases old with
  | none =>
    obtain ⟨g, -, rfl⟩ := Option.map_eq_some_iff.mp h
    rfl
  | some b =>
    change (if n = 0 then none else a.map fun g => (⟨n, b.moved n g⟩ : Block)) = some blk at h
    split_ifs at h
    obtain ⟨g, -, rfl⟩ := Option.map_eq_some_iff.mp h
    rfl

/-- A request for no byte frees the block, whatever the allocator could give. -/
theorem realloc_zero (a : Alloc) (b : Block) : realloc a (some b) 0 = none ∧
    afterNull a (some b) 0 = some ⟨0, a.getD b.byte⟩ := ⟨rfl, rfl⟩

theorem Block.read_moved (b : Block) {n k : Nat} (g : Mem) (hk : k ≤ b.cap) (hn : k ≤ n) :
    (b.moved n g).read 0 k = b.byte.read 0 k := by
  refine Mem.read_congr fun i hi => ?_
  rw [Block.moved, if_pos (by omega)]

/-! ## Stores -/

/-- A store into a heap block: where it starts, how many bytes it writes and the size of
the block. -/
structure Store where
  /-- The offset of the first byte. -/
  off : Nat
  size : Nat
  /-- The size of the block. -/
  cap : Nat
deriving DecidableEq, Repr

/-- The store stays inside its block. -/
def Store.Inside (w : Store) : Prop := w.off + w.size ≤ w.cap

/-- The store writes the byte at offset `i`. -/
def Store.Covers (w : Store) (i : Nat) : Prop := w.off ≤ i ∧ i < w.off + w.size

instance (w : Store) : Decidable w.Inside := by unfold Store.Inside; infer_instance

/-- `memcpy` leaves the bytes that its store does not cover. -/
theorem Mem.write_of_not_covers {m p : Mem} {off size cap i : Nat}
    (h : ¬ (⟨off, size, cap⟩ : Store).Covers i) : m.write off p size i = m i := if_neg h

/-- So does `memset`. -/
theorem Mem.fill_of_not_covers {m : Mem} {c : UInt8} {off size cap i : Nat}
    (h : ¬ (⟨off, size, cap⟩ : Store).Covers i) : m.fill off c size i = m i := if_neg h

end CLib
