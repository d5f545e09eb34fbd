import HttpDecoder.AllocFailure

/-!
# The byte behind a buffer

`Process` prints both buffers with `%s` after every packet.  `Append` writes a terminator
after a reallocation only, and the `memset` of a new block clears `_free` bytes while that is
still zero.

* `Terminated` — the byte at `len` is NUL.
* `append_byteAt_len` — what an append leaves there, on either of its paths.
* `terminated_iff` — **an append terminates the buffer exactly when it reallocates or finds a
  NUL behind its bytes**, in every sequence of calls.
* `terminated_fresh_iff`, `terminated_stale_iff` — where that byte comes from: the memory that
  `malloc` handed out, or what the buffer held before it was reset.
-/

namespace HttpDecoder

open CLib

namespace CBuffer

/-- The byte at offset `i` of the block, if there is a block. -/
def byteAt (b : CBuffer) (i : Nat) : Option UInt8 := b.buf.map fun blk => blk.byte i

/-- What `%s` relies on. -/
def Terminated (b : CBuffer) : Prop := b.byteAt b.len = some 0

instance (b : CBuffer) : Decidable b.Terminated := by unfold Terminated; infer_instance

theorem byteAt_of_buf {b : CBuffer} {blk : Block} (h : b.buf = some blk) (i : Nat) :
    b.byteAt i = some (blk.byte i) := by
  rw [byteAt, h]
  rfl

/-! ## One append -/

/-- `memcpy` leaves the byte behind what it copies. -/
theorem write_end (m : Mem) (off : Nat) (p : Mem) (size : Nat) :
    m.write off p size (off + size) = m (off + size) :=
  if_neg fun h => absurd h.2 (lt_irrefl _)

variable {b : CBuffer}

/-- The path that finds room leaves whatever byte was there. -/
theorem Counted.byteAt_fast (h : b.Counted) (a : Alloc) {p : Mem} {size : Nat} (h0 : size ≠ 0)
    (hroom : size < b.free) : (b.append a (some p) size).2.len = b.len + size ∧
      (b.append a (some p) size).2.byteAt (b.len + size) = b.byteAt (b.len + size) := by
  have hsum := h.sum h0 hroom
  have hu : u32 (b.len + size) = b.len + size := by
    apply u32_of_lt
    simp only [bufferSize] at hsum
    omega
  rw [append_fast h0 hroom, hu]
  refine ⟨rfl, ?_⟩
  cases hbuf : b.buf with
  | none => simp [byteAt, hbuf]
  | some blk =>
    rw [byteAt_of_buf hbuf]
    exact congrArg some (write_end blk.byte b.len p size)

/-- The path that reallocates writes the terminator. -/
theorem terminated_slow {a : Alloc} {p : Mem} {size : Nat} (h0 : size ≠ 0)
    (hfree : b.free ≤ size) (hgranted : (b.append a (some p) size).1 = true) :
    (b.append a (some p) size).2.Terminated := by
  have hkeep : ¬ b.Frees size := by
    intro hfrees
    rw [append_frees hfrees] at hgranted
    cases hgranted
  cases a with
  | none =>
    rw [append_refused hfree h0 hkeep] at hgranted
    cases hgranted
  | some g =>
    rw [append_slow hfree h0 hkeep, realloc_granted (asks_of_not_frees hkeep hfree h0)]
    simp [Terminated, byteAt, Mem.fill]

/-- **What an append leaves behind its bytes.** -/
theorem Counted.terminated_append_iff (h : b.Counted) {a : Alloc} {p : Mem} {size : Nat}
    (h0 : size ≠ 0) (hgranted : (b.append a (some p) size).1 = true) :
    (b.append a (some p) size).2.Terminated ↔
      b.free ≤ size ∨ b.byteAt (b.len + size) = some 0 := by
  by_cases hroom : size < b.free
  · obtain ⟨hlen, hbyte⟩ := h.byteAt_fast a (p := p) h0 hroom
    rw [Terminated, hlen, hbyte]
    simp [hroom]
  · have hfree := not_lt.mp hroom
    exact iff_of_true (terminated_slow h0 hfree hgranted) (Or.inl hfree)

/-! ## Where the byte comes from -/

/-- The first bytes after a `Reset`, if they fit, are followed by what is in the block. -/
theorem terminated_reset_iff {b : CBuffer} {e : ResetAlloc} {blk : Block}
    (hbuf : (b.reset e).buf = some blk) {a : Alloc} {p : Mem} {size : Nat} (h0 : size ≠ 0)
    (hroom : size < bufferSize) :
    ((b.reset e).append a (some p) size).2.Terminated ↔ blk.byte size = 0 := by
  have hgranted : ((b.reset e).append a (some p) size).1 = true := by
    rw [append_fast h0 hroom]
  have hlen : (b.reset e).len + size = size := Nat.zero_add size
  have hfree : ¬ (b.reset e).free ≤ size := not_le.mpr hroom
  rw [(counted_reset e b).terminated_append_iff h0 hgranted, hlen, byteAt_of_buf hbuf,
    or_iff_right hfree, Option.some_inj]

/-- **Fresh memory**: the first bytes of a new buffer are followed by what `malloc` handed
out. -/
theorem terminated_fresh_iff {g : Mem} {r a : Alloc} {p : Mem} {size : Nat} (h0 : size ≠ 0)
    (hroom : size < bufferSize) :
    ((new ⟨some g, r⟩).append a (some p) size).2.Terminated ↔ g size = 0 := by
  have hbuf : (new ⟨some g, r⟩).buf = some ⟨bufferSize, g.fill 0 0 0⟩ := by
    simp [new, CBuffer.reset, malloc]
  apply (terminated_reset_iff hbuf h0 hroom).trans
  simp [Mem.fill]

/-- **Stale bytes**: after a `Reset` that keeps the block, shorter contents are followed by
what was there before. -/
theorem WF.terminated_stale_iff (h : b.WF) {e : ResetAlloc} (hkept : b.len ≤ bufferSize * 2)
    {a : Alloc} {p : Mem} {size : Nat} (h0 : size ≠ 0) (hroom : size < bufferSize)
    (hshort : size < b.len) :
    ((b.reset e).append a (some p) size).2.Terminated ↔ b.contents[size]? = some 0 := by
  obtain ⟨blk, hblk, -⟩ := h.block
  have hbuf : (b.reset e).buf = some blk := by
    simp [CBuffer.reset, hblk, not_lt.mpr hkept]
  have hcontents : b.contents[size]? = some (blk.byte size) := by
    simp [contents, hblk, Mem.read, hshort]
  rw [terminated_reset_iff hbuf h0 hroom, hcontents, Option.some_inj]

/-! ## Every append of every sequence -/

/-- **An append terminates the buffer exactly when it reallocates or finds a NUL behind its
bytes**, after every sequence of calls, whatever memory was handed out. -/
theorem terminated_iff (e : ResetAlloc) (calls : List BufferCall) {a : Alloc} (p : Mem)
    {size : Nat} (h0 : 0 < size)
    (hgranted : ((bufferMachine.run (new e) calls).1.append a (some p) size).1 = true) :
    (bufferMachine.run (new e) (calls ++ [.append a p size])).1.Terminated ↔
      (bufferMachine.run (new e) calls).1.free ≤ size ∨
        (bufferMachine.run (new e) calls).1.byteAt
          ((bufferMachine.run (new e) calls).1.len + size) = some 0 := by
  rw [Machine.run_concat]
  exact (counted_run e calls).terminated_append_iff (Nat.pos_iff_ne_zero.mp h0) hgranted

/-- A byte after the two of `sampleCalls` and the one after its `Reset`. -/
theorem terminated_iff_sample :
    (bufferMachine.run (new ⟨some fun _ => 0, some fun _ => 0⟩)
      (sampleCalls ++ [.append none (fun _ => 73) 2])).1.Terminated := by
  rw [terminated_iff _ sampleCalls _ Nat.two_pos (by decide +kernel)]
  exact Or.inr (by decide +kernel)

/-- Memory that is handed out need not be zero. -/
theorem not_terminated_new :
    ¬ ∀ (e : ResetAlloc) (calls : List BufferCall) (a : Alloc) (p : Mem) (size : Nat),
      (BufferCall.reset e).Granted → (∀ c ∈ calls, c.Granted) → a.isSome → 0 < size →
      (bufferMachine.run (new e) (calls ++ [.append a p size])).1.Terminated := by
  intro h
  have hterm := h ⟨some fun _ => 65, some fun _ => 65⟩ [] (some fun _ => 0) (fun _ => 71) 3
    ⟨rfl, rfl⟩ (by simp) rfl (by decide)
  exact absurd hterm (by decide +kernel)

end CBuffer

end HttpDecoder
