import HttpDecoder.Buffer
import HttpDecoder.Lib.StepMachine

/-!
# `CBuffer` as an append-only byte string

`CBuffer` never stores the size of its block, `Reset` sets `_free` to a constant whatever
that size is, and a reallocation may shrink the block.  What ties the three together is an
invariant with the size of the block as a ghost value.

* `resetStores`, `appendStores` — the stores of `Reset` and `Append`, with the size of
  the block they go to.
* `bufferMachine` — a buffer as a machine that reads calls of `Append` and `Reset` and
  emits their stores.
* `Keeps` — the invariant; `Keeps.step` — each call keeps it and stores inside the block.
* `byteString` — **a buffer holds exactly what was appended since the last `Reset`**, and
  no store leaves its block, along every sequence of calls.
-/

namespace HttpDecoder

open CLib

namespace CBuffer

/-! ## Where the calls store -/

/-- The size of the block, 0 for `NULL`. -/
def cap (b : CBuffer) : Nat := (b.buf.map Block.cap).getD 0

theorem cap_of_buf {b : CBuffer} {blk : Block} (h : b.buf = some blk) : b.cap = blk.cap := by
  rw [cap, h]
  rfl

/-- The store of `Reset`: `memset` on a block that was just allocated. -/
def resetStores (e : ResetAlloc) (b : CBuffer) : List Store :=
  match b.buf with
  | none => [⟨0, b.free, ((malloc e.malloc bufferSize).map Block.cap).getD 0⟩]
  | some _ => []

/-- The stores of `Append`: `memcpy`, and the terminator after a reallocation. -/
def appendStores (a : Alloc) (b : CBuffer) (p : Option Mem) (size : Nat) : List Store :=
  match p with
  | none => []
  | some _ =>
    if size = 0 then []
    else if size < b.free then [⟨b.len, size, b.cap⟩]
    else
      match realloc a b.buf ((b.len + size + 1) % 2 ^ 64) with
      | none => []
      | some blk => [⟨b.len, size, blk.cap⟩, ⟨u32 (b.len + size), 1, blk.cap⟩]

theorem appendStores_fast {a : Alloc} {b : CBuffer} {p : Mem} {size : Nat} (h0 : size ≠ 0)
    (h : size < b.free) : b.appendStores a (some p) size = [⟨b.len, size, b.cap⟩] := by
  unfold appendStores
  rw [if_neg h0, if_pos h]

/-- The path that calls `realloc`. -/
theorem appendStores_asked {a : Alloc} {b : CBuffer} {p : Mem} {size : Nat} (h0 : size ≠ 0)
    (h : b.free ≤ size) : b.appendStores a (some p) size =
      match realloc a b.buf ((b.len + size + 1) % 2 ^ 64) with
      | none => []
      | some blk => [⟨b.len, size, blk.cap⟩, ⟨u32 (b.len + size), 1, blk.cap⟩] := by
  unfold appendStores
  rw [if_neg h0, if_neg (not_lt.mpr h)]

theorem appendStores_slow {g : Mem} {b : CBuffer} {p : Mem} {size : Nat} (h0 : size ≠ 0)
    (h : b.free ≤ size) (hkeep : ¬ b.Frees size) : b.appendStores (some g) (some p) size =
      [⟨b.len, size, (b.len + size + 1) % 2 ^ 64⟩,
        ⟨u32 (b.len + size), 1, (b.len + size + 1) % 2 ^ 64⟩] := by
  rw [appendStores_asked h0 h, realloc_granted (asks_of_not_frees hkeep h h0)]

/-- An append that gets no block stores nothing. -/
theorem appendStores_refused {b : CBuffer} {p : Mem} {size : Nat} (h0 : size ≠ 0)
    (h : b.free ≤ size) (hkeep : ¬ b.Frees size) : b.appendStores none (some p) size = [] := by
  rw [appendStores_asked h0 h, (realloc_refused (asks_of_not_frees hkeep h h0)).1]

/-- **The stores are all that `Append` writes**: every other byte that the block has before
and after is left as it was. -/
theorem append_byte {a : Alloc} {b : CBuffer} {p : Option Mem} {size i : Nat} {blk blk' : Block}
    (hblk : b.buf = some blk) (hblk' : (b.append a p size).2.buf = some blk') (hi : i < blk.cap)
    (hi' : i < blk'.cap) (h : ∀ w ∈ b.appendStores a p size, ¬ w.Covers i) :
    blk'.byte i = blk.byte i := by
  have hsame : ∀ r, b.append a p size = (r, b) → blk'.byte i = blk.byte i := by
    intro r hr
    rw [hr, hblk] at hblk'
    rw [Option.some.inj hblk']
  cases p with
  | none => exact hsame true rfl
  | some p =>
    by_cases h0 : size = 0
    · exact hsame true (by simp [append, h0])
    by_cases hroom : size < b.free
    · rw [appendStores_fast h0 hroom] at h
      rw [append_fast h0 hroom, hblk] at hblk'
      rw [← Option.some.inj hblk']
      exact Mem.write_of_not_covers (h _ List.mem_cons_self)
    have hfree := not_lt.mp hroom
    by_cases hfrees : b.Frees size
    · -- no byte of the block is left
      rw [append_frees hfrees, hblk] at hblk'
      rw [← Option.some.inj hblk'] at hi'
      exact absurd hi' (Nat.not_lt_zero i)
    cases a with
    | none => exact hsame false (append_refused hfree h0 hfrees)
    | some g =>
      have hn := (asks_of_not_frees hfrees hfree h0).resolve_left (by simp [hblk])
      rw [appendStores_slow h0 hfree hfrees] at h
      rw [append_slow hfree h0 hfrees, hblk, realloc, if_neg hn] at hblk'
      rw [← Option.some.inj hblk'] at hi' ⊢
      apply (Mem.fill_of_not_covers (h _ (List.mem_cons_of_mem _ List.mem_cons_self))).trans
      apply (Mem.write_of_not_covers (h _ List.mem_cons_self)).trans
      exact if_pos (lt_min hi hi')

end CBuffer

/-! ## Sequences of calls -/

/-- A call on a buffer, with the allocator's answers. -/
inductive BufferCall
  /-- `Append(p, size)`, `p` not being `NULL`. -/
  | append (a : Alloc) (p : Mem) (size : Nat)
  | reset (e : ResetAlloc)

namespace BufferCall

/-- Every request for memory is granted. -/
def Granted : BufferCall → Prop
  | append a _ _ => a.isSome
  | reset e => e.malloc.isSome ∧ e.realloc.isSome

/-- What a byte string becomes by a call. -/
def join (bs : Bytes) : BufferCall → Bytes
  | append _ p size => bs ++ p.read 0 size
  | reset _ => []

end BufferCall

/-- The bytes appended since the last `Reset`. -/
def appended (calls : List BufferCall) : Bytes := calls.foldl BufferCall.join []

/-- A buffer as a machine: it reads calls and emits their stores. -/
def bufferMachine : Machine CBuffer BufferCall Store where
  step b
    | .append a p size => ((b.append a (some p) size).2, b.appendStores a (some p) size)
    | .reset e => (b.reset e, b.resetStores e)

namespace CBuffer

/-! ## The invariant -/

/-- The buffer is well formed and shows `bs`, and its block is no larger than what `Reset`
leaves uncut or what the bytes and their terminator need. -/
structure Keeps (b : CBuffer) (bs : Bytes) : Prop where
  wf : b.WF
  contents : b.contents = bs
  cap_le : b.cap ≤ max (2 * bufferSize + 1) (b.len + 1)

variable {b : CBuffer} {bs : Bytes}

/-- The room counted lies inside the block. -/
theorem WF.room_le (h : b.WF) : b.len + b.free ≤ b.cap := by
  obtain ⟨blk, hblk, hcap⟩ := h.block
  rwa [cap_of_buf hblk]

theorem Keeps.reset (h : b.Keeps bs) {e : ResetAlloc} (he : e.realloc.isSome) :
    (b.reset e).Keeps [] ∧ b.resetStores e = [] := by
  obtain ⟨blk, hblk, -⟩ := h.wf.block
  obtain ⟨g, hg⟩ := Option.isSome_iff_exists.mp he
  refine ⟨⟨h.wf.reset he, contents_reset e b, ?_⟩, by simp [resetStores, hblk]⟩
  have hcap := h.cap_le
  by_cases hlen : b.len > bufferSize * 2
  · -- the block is cut back
    have hbuf : (b.reset e).buf = realloc e.realloc (some blk) bufferSize := by
      simp [CBuffer.reset, hblk, hlen]
    rw [hg] at hbuf
    rw [cap_of_buf hbuf]
    exact le_max_of_le_left (by simp [bufferSize])
  · have hbuf : (b.reset e).buf = some blk := by simp [CBuffer.reset, hblk, hlen]
    rw [cap_of_buf hbuf, reset_len]
    rw [cap_of_buf hblk] at hcap
    omega

theorem Keeps.append (h : b.Keeps bs) {a : Alloc} (ha : a.isSome) {p : Mem} {size : Nat}
    (hfit : (bs ++ p.read 0 size).length < 2 ^ 32) :
    (b.append a (some p) size).2.Keeps (bs ++ p.read 0 size) ∧
      ∀ w ∈ b.appendStores a (some p) size, w.Inside := by
  have hlen : b.len + size < 2 ^ 32 := by
    rwa [List.length_append, Mem.length_read, ← h.contents, h.wf.contents_length] at hfit
  obtain ⟨-, hwf, hcontents⟩ := h.wf.append ha (p := p) hlen
  rw [h.contents] at hcontents
  have hcap := h.cap_le
  have hroom := h.wf.room_le
  obtain ⟨g, rfl⟩ := Option.isSome_iff_exists.mp ha
  by_cases h0 : size = 0
  · subst h0
    have hsame : b.append (some g) (some p) 0 = (true, b) := by simp [CBuffer.append]
    rw [hsame] at hwf hcontents ⊢
    exact ⟨⟨hwf, hcontents, hcap⟩, by simp [appendStores]⟩
  have hu : u32 (b.len + size) = b.len + size := u32_of_lt hlen
  by_cases hfast : size < b.free
  · refine ⟨⟨hwf, hcontents, ?_⟩, ?_⟩
    · obtain ⟨blk, hblk, -⟩ := h.wf.block
      rw [cap_of_buf hblk] at hcap
      rw [append_fast h0 hfast, hblk, hu]
      show blk.cap ≤ max (2 * bufferSize + 1) (b.len + size + 1)
      omega
    · rw [appendStores_fast h0 hfast]
      intro w hw
      rw [List.mem_singleton.mp hw]
      show b.len + size ≤ b.cap
      omega
  · -- the new block is as large as the bytes and their terminator
    have hfree := not_lt.mp hfast
    have hkeep : ¬ b.Frees size := not_frees_of_lt (by omega)
    have hmod : (b.len + size + 1) % 2 ^ 64 = b.len + size + 1 := Nat.mod_eq_of_lt (by omega)
    have hgrant := realloc_granted (asks_of_not_frees hkeep hfree h0) g
    refine ⟨⟨hwf, hcontents, ?_⟩, ?_⟩
    · rw [append_slow hfree h0 hkeep, hgrant, hu, hmod]
      exact le_max_right _ _
    · rw [appendStores_slow h0 hfree hkeep, hu, hmod]
      intro w hw
      rcases List.mem_pair.mp hw with rfl | rfl
      · exact Nat.le_succ _
      · exact le_refl _

/-- **One call keeps the invariant and stores inside the block.** -/
theorem Keeps.step (h : b.Keeps bs) {c : BufferCall} (hc : c.Granted)
    (hfit : (c.join bs).length < 2 ^ 32) :
    (bufferMachine.step b c).1.Keeps (c.join bs) ∧
      ∀ w ∈ (bufferMachine.step b c).2, w.Inside := by
  cases c with
  | append a p size => exact h.append hc hfit
  | reset e =>
    obtain ⟨hkeeps, hnone⟩ := h.reset hc.2
    refine ⟨hkeeps, fun w hw => ?_⟩
    change w ∈ b.resetStores e at hw
    rw [hnone] at hw
    exact absurd hw List.not_mem_nil

/-- So do many calls. -/
theorem Keeps.run {calls : List BufferCall} (h : b.Keeps bs) (hcalls : ∀ c ∈ calls, c.Granted)
    (hfit : ∀ pre, pre <+: calls → (pre.foldl BufferCall.join bs).length < 2 ^ 32) :
    (bufferMachine.run b calls).1.Keeps (calls.foldl BufferCall.join bs) ∧
      ∀ w ∈ (bufferMachine.run b calls).2, w.Inside := by
  induction calls generalizing b bs with
  | nil => exact ⟨h, fun w hw => absurd hw List.not_mem_nil⟩
  | cons c calls ih =>
    obtain ⟨hkeeps, hstores⟩ := h.step (hcalls c List.mem_cons_self)
      (hfit [c] (List.prefix_append [c] calls))
    obtain ⟨hkeeps', hstores'⟩ := ih hkeeps (fun d hd => hcalls d (List.mem_cons_of_mem _ hd))
      fun pre hpre => hfit (c :: pre) (List.prefix_cons_inj c |>.mpr hpre)
    refine ⟨hkeeps', ?_⟩
    rw [Machine.run_cons, List.forall_mem_append]
    exact ⟨hstores, hstores'⟩

theorem keeps_new {e : ResetAlloc} (he : e.malloc.isSome) : (new e).Keeps [] := by
  obtain ⟨g, hg⟩ := Option.isSome_iff_exists.mp he
  have hbuf : (new e).buf = some ⟨bufferSize, g.fill 0 0 0⟩ := by
    simp [new, CBuffer.reset, malloc, hg]
  refine ⟨wf_new he, contents_reset e _, ?_⟩
  rw [cap_of_buf hbuf]
  exact le_max_of_le_left (by simp [bufferSize])

/-! ## Every state of every sequence -/

/-- The buffer is the byte string `bs` within its block. -/
structure IsBytes (b : CBuffer) (bs : Bytes) : Prop where
  free_pos : 1 ≤ b.free
  /-- The room counted lies inside the block. -/
  room_le : b.len + b.free ≤ b.cap
  len : b.len = bs.length
  contents : b.contents = bs

theorem Keeps.isBytes (h : b.Keeps bs) : b.IsBytes bs where
  free_pos := h.wf.free_pos
  room_le := h.wf.room_le
  len := by rw [← h.contents, h.wf.contents_length]
  contents := h.contents

/-- An empty buffer that keeps the invariant has a block of the default size, or one that
`Reset` does not cut. -/
theorem Keeps.cap_of_nil (h : b.Keeps []) : bufferSize ≤ b.cap ∧ b.cap ≤ 2 * bufferSize + 1 := by
  have hlen := h.isBytes.len
  have hdefault := h.wf.default_le
  have hroom := h.wf.room_le
  have hcap := h.cap_le
  rw [List.length_nil] at hlen
  omega

/-- The stores of the constructor, which calls `Reset` on a buffer without a block. -/
def newStores (e : ResetAlloc) : List Store := resetStores e { len := 0, free := 0, buf := none }

theorem newStores_inside (e : ResetAlloc) : ∀ w ∈ newStores e, w.Inside := by
  intro w hw
  rw [List.mem_singleton.mp hw]
  exact Nat.zero_le _

/-- **A buffer is an append-only byte string within its block.**  For every sequence of calls
on a new buffer in which every request for memory is granted and fewer than `2 ^ 32` bytes
are appended between two calls of `Reset`: every store stays inside its block; in every
state on the way the buffer is the byte string appended since the last `Reset`; and right
after a `Reset` the block has the default size at least and not much more than twice it. -/
theorem byteString {e : ResetAlloc} (he : e.malloc.isSome ∧ e.realloc.isSome)
    {calls : List BufferCall} (hcalls : ∀ c ∈ calls, c.Granted)
    (hfit : ∀ pre, pre <+: calls → (appended pre).length < 2 ^ 32) :
    (∀ w ∈ newStores e ++ (bufferMachine.run (new e) calls).2, w.Inside) ∧
      ∀ pre, pre <+: calls →
        (bufferMachine.run (new e) pre).1.IsBytes (appended pre) ∧
        ((pre = [] ∨ ∃ before e', pre = before ++ [.reset e']) →
          bufferSize ≤ (bufferMachine.run (new e) pre).1.cap ∧
            (bufferMachine.run (new e) pre).1.cap ≤ 2 * bufferSize + 1) := by
  have hnew := keeps_new he.1
  constructor
  · rw [List.forall_mem_append]
    exact ⟨newStores_inside e, (hnew.run hcalls hfit).2⟩
  · intro pre hpre
    have hkeeps := (hnew.run (fun c hc => hcalls c (hpre.subset hc))
      fun pre' hpre' => hfit pre' (hpre'.trans hpre)).1
    refine ⟨hkeeps.isBytes, fun hreset => ?_⟩
    have hnil : pre.foldl BufferCall.join [] = [] := by
      rcases hreset with rfl | ⟨before, e', rfl⟩
      · rfl
      · rw [List.foldl_append]
        rfl
    rw [hnil] at hkeeps
    exact hkeeps.cap_of_nil

/-- Two bytes, a `Reset` and one more byte. -/
def sampleCalls : List BufferCall :=
  [.append (some fun _ => 0) (fun _ => 71) 2, .reset ⟨some fun _ => 0, some fun _ => 0⟩,
    .append (some fun _ => 0) (fun _ => 72) 1]

theorem byteString_sample :
    (bufferMachine.run (new ⟨some fun _ => 0, some fun _ => 0⟩) sampleCalls).1.IsBytes [72] := by
  have hgranted : ∀ c ∈ sampleCalls, c.Granted := by simp [sampleCalls, BufferCall.Granted]
  refine ((byteString ⟨rfl, rfl⟩ hgranted ?_).2 sampleCalls (List.prefix_refl _)).1
  · have hall : ∀ pre ∈ sampleCalls.inits, (appended pre).length < 2 ^ 32 := by
      simp [sampleCalls, appended, BufferCall.join]
    exact fun pre hpre => hall pre ((List.mem_inits _ _).mpr hpre)

end CBuffer

end HttpDecoder
