import HttpDecoder.ByteString

/-!
# Refused memory

Three requests for memory are made in `CBuffer`, and `NULL` is looked for after one of them.
`Append` returns `false`; the constructor and `Reset` go on, with a buffer that has no block
and counts `BUFFER_SIZE` bytes as free.

* `Survives` — a refused `Append` changes nothing, and what is stored goes to a block with
  room for `len + _free` bytes.
* `Counted` — what `_free` says in every state, whatever the allocator answered.
* `Guarded` — the calls that do well in the state they meet; `survives_iff_guarded`.
* `survives_iff` — **a call survives exactly when it is guarded**, in every sequence of calls
  and for every pattern of answers; refused appends alone do no harm, unless their request is
  for no byte at all and frees the block.
-/

namespace HttpDecoder

open CLib

namespace BufferCall

/-- What the call returns, `Reset` returning nothing. -/
def answer (b : CBuffer) : BufferCall → Option Bool
  | append a p size => some (b.append a (some p) size).1
  | reset _ => none

/-- What the call stores through: the buffer's own block, or the answer to its request. -/
def target (b : CBuffer) : BufferCall → Option Block
  | append a _ size =>
    if size < b.free then b.buf else realloc a b.buf ((b.len + size + 1) % 2 ^ 64)
  | reset e =>
    match b.buf with
    | none => malloc e.malloc bufferSize
    | some blk => some blk

/-- The block that the call hands to `realloc`, and the size it asks for. -/
def resized (b : CBuffer) : BufferCall → Option (Block × Nat)
  | append _ _ size =>
    if size = 0 ∨ size < b.free then none
    else b.buf.map fun blk => (blk, (b.len + size + 1) % 2 ^ 64)
  | reset _ => if bufferSize * 2 < b.len then b.buf.map fun blk => (blk, bufferSize) else none

/-- The number of bytes is a `size_t`. -/
def Sized : BufferCall → Prop
  | append _ _ size => size < 2 ^ 64
  | reset _ => True

/-- A call of `Reset` has its requests granted. -/
def ResetGranted : BufferCall → Prop
  | append _ _ _ => True
  | reset e => e.malloc.isSome ∧ e.realloc.isSome

/-- The length still fits in its type after the call, and the size that is asked for in its own. -/
def Fits (b : CBuffer) : BufferCall → Prop
  | append a p size =>
    ((b.append a (some p) size).1 = true → b.len + size < 2 ^ 32) ∧ ¬ b.Frees size
  | reset _ => True

end BufferCall

namespace CBuffer

/-- A buffer before the body of its constructor runs. -/
def unset : CBuffer := { len := 0, free := 0, buf := none }

/-- The constructor is a `Reset`. -/
theorem step_unset (e : ResetAlloc) : (bufferMachine.step unset (.reset e)).1 = new e := rfl

/-- One call goes well. -/
structure Survives (b : CBuffer) (c : BufferCall) : Prop where
  /-- An `Append` that returns `false` leaves the buffer as it was. -/
  refused : c.answer b = some false → (bufferMachine.step b c).1 = b
  /-- Bytes are stored in a block that has room for `len + _free` bytes. -/
  stored : ∀ w ∈ (bufferMachine.step b c).2, 0 < w.size →
    ∃ blk, c.target b = some blk ∧ b.len + b.free ≤ blk.cap
  /-- `realloc` gets a block that is still there, and is not asked to free it. -/
  kept : ∀ blk n, c.resized b = some (blk, n) → b.len + b.free ≤ blk.cap ∧ n ≠ 0

/-- What the call relies on: an `Append` that finds room, on a block of the default size; one that
finds none, on a size that is not zero and, if it is granted, has not wrapped around; a `Reset`
that finds no block, on `malloc`, unless it is the one of the constructor; and both, on a block
that has not been freed, where they resize it. -/
def Guarded (b : CBuffer) : BufferCall → Prop
  | .append a _ size =>
    (0 < size → size < b.free → bufferSize ≤ b.cap) ∧
      (b.free ≤ size → (a.isSome → b.len + size + 1 < 2 ^ 64) ∧
        (b.buf.isSome → b.len + b.free ≤ b.cap ∧ (b.len + size + 1) % 2 ^ 64 ≠ 0))
  | .reset e =>
    (b.buf = none → b.free = 0 ∨ e.malloc.isSome) ∧
      (bufferSize * 2 < b.len → b.buf.isSome → b.len + b.free ≤ b.cap)

/-! ## What `_free` says -/

/-- `_free` counts down from the default size after a `Reset`, until a reallocation leaves
one byte. -/
structure Counted (b : CBuffer) : Prop where
  /-- A byte is left for the terminator. -/
  free_pos : 1 ≤ b.free
  /-- Either way of counting. -/
  room : (b.free = 1 ∧ b.buf.isSome) ∨ b.len + b.free = bufferSize

variable {b : CBuffer}

theorem counted_reset (e : ResetAlloc) (b : CBuffer) : (b.reset e).Counted where
  free_pos := by simp [bufferSize]
  room := Or.inr (by simp)

/-- With room for more than one byte, `Append` has not reallocated since the last `Reset`. -/
theorem Counted.sum (h : b.Counted) {size : Nat} (h0 : size ≠ 0) (hroom : size < b.free) :
    b.len + b.free = bufferSize := by
  rcases h.room with ⟨hone, -⟩ | hsum
  · omega
  · exact hsum

/-- A buffer without a block is as `Reset` leaves it, as far as it counts. -/
theorem Counted.sum_of_none (h : b.Counted) (hbuf : b.buf = none) :
    b.len + b.free = bufferSize := by
  rcases h.room with ⟨-, hsome⟩ | hsum
  · rw [hbuf] at hsome
    cases hsome
  · exact hsum

/-- Every call keeps the count. -/
theorem Counted.step (h : b.Counted) (c : BufferCall) : (bufferMachine.step b c).1.Counted := by
  cases c with
  | reset e => exact counted_reset e b
  | append a p size =>
    change (b.append a (some p) size).2.Counted
    by_cases h0 : size = 0
    · simpa [CBuffer.append, h0] using h
    by_cases hroom : size < b.free
    · have hsum := h.sum h0 hroom
      have hu : u32 (b.len + size) = b.len + size := by
        apply u32_of_lt
        simp only [bufferSize] at hsum
        omega
      rw [append_fast h0 hroom, hu]
      refine ⟨?_, Or.inr ?_⟩ <;> dsimp only <;> omega
    have hfree := not_lt.mp hroom
    by_cases hfrees : b.Frees size
    · rw [append_frees hfrees]
      exact ⟨h.free_pos, h.room.imp_left fun hone => ⟨hone.1, by simpa using hone.2⟩⟩
    cases a with
    | none => rwa [append_refused hfree h0 hfrees]
    | some g =>
      rw [append_slow hfree h0 hfrees, realloc_granted (asks_of_not_frees hfrees hfree h0)]
      exact ⟨le_refl _, Or.inl ⟨rfl, rfl⟩⟩

theorem counted_run (e : ResetAlloc) (calls : List BufferCall) :
    (bufferMachine.run (new e) calls).1.Counted :=
  Machine.run_invariant bufferMachine (A := fun _ => True) (fun _ c h _ => h.step c) calls
    (new e) (counted_reset e _) fun _ _ => trivial

/-! ## One call -/

/-- A refused `Append` changes nothing, unless it frees the block. -/
theorem refused_same {c : BufferCall}
    (hkept : ∀ blk n, c.resized b = some (blk, n) → n ≠ 0) (h : c.answer b = some false) :
    (bufferMachine.step b c).1 = b := by
  cases c with
  | reset e => cases h
  | append a p size =>
    have hfalse : (b.append a (some p) size).1 = false := Option.some.inj h
    have hkeep : ¬ b.Frees size := by
      rintro ⟨hsome, hfree, h0, hzero⟩
      obtain ⟨blk, hblk⟩ := Option.isSome_iff_exists.mp hsome
      refine hkept blk _ ?_ hzero
      rw [BufferCall.resized, if_neg (by omega), hblk]
      rfl
    rcases append_cases a p hkeep with ⟨g, hgranted⟩ | hrefused
    · rw [hgranted, append_fst (Option.isSome_some (a := g)) p hkeep] at hfalse
      cases hfalse
    · exact congrArg Prod.snd hrefused

/-- What a call that resizes a block relies on. -/
theorem kept_iff {c : BufferCall} {n : Nat}
    (h : c.resized b = b.buf.map fun blk => (blk, n)) :
    (∀ blk n, c.resized b = some (blk, n) → b.len + b.free ≤ blk.cap ∧ n ≠ 0) ↔
      (b.buf.isSome → b.len + b.free ≤ b.cap ∧ n ≠ 0) := by
  rw [h]
  cases hbuf : b.buf with
  | none => simp
  | some blk => simp [cap_of_buf hbuf]

/-- An `Append` that finds room stores into the buffer's own block. -/
theorem Counted.survives_own_iff (h : b.Counted) {a : Alloc} {p : Mem} {size : Nat}
    (h0 : size ≠ 0) (hroom : size < b.free) :
    Survives b (.append a p size) ↔ Guarded b (.append a p size) := by
  have hsum := h.sum h0 hroom
  have hstores : (bufferMachine.step b (.append a p size)).2 = [⟨b.len, size, b.cap⟩] :=
    appendStores_fast (p := p) h0 hroom
  have htarget : (BufferCall.append a p size).target b = b.buf := if_pos hroom
  have hresized : (BufferCall.append a p size).resized b = none := if_pos (Or.inr hroom)
  constructor
  · intro hs
    refine ⟨fun _ _ => ?_, fun hfree => absurd hroom (not_lt.mpr hfree)⟩
    obtain ⟨blk, hblk, hcap⟩ := hs.stored _ (hstores ▸ List.mem_singleton_self _)
      (Nat.pos_of_ne_zero h0)
    rw [htarget] at hblk
    rwa [cap_of_buf hblk, ← hsum]
  · intro hg
    refine ⟨refused_same fun _ _ h => ?_, fun w _ _ => ?_, fun _ _ h => ?_⟩
    · rw [hresized] at h
      cases h
    · have hcap := hg.1 (Nat.pos_of_ne_zero h0) hroom
      cases hbuf : b.buf with
      | none => simp [cap, hbuf, bufferSize] at hcap
      | some blk =>
        rw [cap_of_buf hbuf] at hcap
        exact ⟨blk, htarget.trans hbuf, hsum ▸ hcap⟩
    · rw [hresized] at h
      cases h

/-- An `Append` that finds none stores into the block it asks for, if it gets one. -/
theorem Counted.survives_asked_iff (h : b.Counted) {a : Alloc} {p : Mem} {size : Nat}
    (h0 : size ≠ 0) (hfree : b.free ≤ size) (hsize : size < 2 ^ 64) :
    Survives b (.append a p size) ↔ Guarded b (.append a p size) := by
  have hpos := h.free_pos
  have hroom : ¬ size < b.free := not_lt.mpr hfree
  have htarget : (BufferCall.append a p size).target b =
      realloc a b.buf ((b.len + size + 1) % 2 ^ 64) := if_neg hroom
  have hresized : (BufferCall.append a p size).resized b =
      b.buf.map fun blk => (blk, (b.len + size + 1) % 2 ^ 64) := if_neg (by omega)
  have hkept := kept_iff hresized
  by_cases hfrees : b.Frees size
  · -- the block is freed
    obtain ⟨hsome, -, -, hzero⟩ := hfrees
    refine iff_of_false (fun hs => ?_) fun hg => ?_
    · exact (hkept.mp hs.kept hsome).2 hzero
    · exact ((hg.2 hfree).2 hsome).2 hzero
  cases a with
  | none =>
    have hnone : (bufferMachine.step b (.append none p size)).2 = [] :=
      appendStores_refused (p := p) h0 hfree hfrees
    constructor
    · exact fun hs => ⟨fun _ hlt => absurd hlt hroom, fun _ => ⟨by simp, hkept.mp hs.kept⟩⟩
    · intro hg
      have hkeep := hkept.mpr (hg.2 hfree).2
      refine ⟨refused_same fun blk n h => (hkeep blk n h).2, fun w hw => ?_, hkeep⟩
      rw [hnone] at hw
      cases hw
  | some g =>
    have hstores : (bufferMachine.step b (.append (some g) p size)).2 =
        [⟨b.len, size, (b.len + size + 1) % 2 ^ 64⟩,
          ⟨u32 (b.len + size), 1, (b.len + size + 1) % 2 ^ 64⟩] :=
      appendStores_slow (p := p) h0 hfree hfrees
    rw [realloc_granted (asks_of_not_frees hfrees hfree h0)] at htarget
    constructor
    · intro hs
      refine ⟨fun _ hlt => absurd hlt hroom, fun _ => ⟨fun _ => ?_, hkept.mp hs.kept⟩⟩
      obtain ⟨blk, hblk, hcap⟩ := hs.stored _ (hstores ▸ List.mem_cons_self)
        (Nat.pos_of_ne_zero h0)
      rw [htarget] at hblk
      rw [← Option.some.inj hblk] at hcap
      dsimp only at hcap
      omega
    · intro hg
      have hkeep := hkept.mpr (hg.2 hfree).2
      refine ⟨refused_same fun blk n h => (hkeep blk n h).2, fun w _ _ => ⟨_, htarget, ?_⟩, hkeep⟩
      have hlt := (hg.2 hfree).1 rfl
      show b.len + b.free ≤ (b.len + size + 1) % 2 ^ 64
      rw [Nat.mod_eq_of_lt hlt]
      omega

theorem Counted.survives_append_iff (h : b.Counted) {a : Alloc} {p : Mem} {size : Nat}
    (hsize : size < 2 ^ 64) : Survives b (.append a p size) ↔ Guarded b (.append a p size) := by
  have hpos := h.free_pos
  by_cases h0 : size = 0
  · subst h0
    have hresized : (BufferCall.append a p 0).resized b = none := by
      simp [BufferCall.resized]
    refine iff_of_true ⟨refused_same fun _ _ h => ?_, fun w hw => ?_, fun _ _ h => ?_⟩
      ⟨by omega, by omega⟩
    · rw [hresized] at h
      cases h
    · cases hw
    · rw [hresized] at h
      cases h
  · by_cases hroom : size < b.free
    · exact h.survives_own_iff h0 hroom
    · exact h.survives_asked_iff h0 (not_lt.mp hroom) hsize

/-- A `Reset` hands `realloc` a block that has grown. -/
theorem kept_reset_iff (e : ResetAlloc) :
    (∀ blk n, (BufferCall.reset e).resized b = some (blk, n) →
      b.len + b.free ≤ blk.cap ∧ n ≠ 0) ↔
        (bufferSize * 2 < b.len → b.buf.isSome → b.len + b.free ≤ b.cap) := by
  by_cases hlen : bufferSize * 2 < b.len
  · have hresized : (BufferCall.reset e).resized b = b.buf.map fun blk => (blk, bufferSize) :=
      if_pos hlen
    rw [kept_iff hresized]
    exact ⟨fun h _ hsome => (h hsome).1, fun h hsome => ⟨h hlen hsome, by decide⟩⟩
  · have hresized : (BufferCall.reset e).resized b = none := if_neg hlen
    simp [hresized, hlen]

theorem Counted.survives_reset_iff (h : b.Counted) (e : ResetAlloc) :
    Survives b (.reset e) ↔ Guarded b (.reset e) := by
  have hpos := h.free_pos
  have hrefused : (BufferCall.reset e).answer b = some false →
      (bufferMachine.step b (.reset e)).1 = b := fun h => by cases h
  cases hbuf : b.buf with
  | some blk =>
    constructor
    · exact fun hs => ⟨fun hnone => by simp [hbuf] at hnone, (kept_reset_iff e).mp hs.kept⟩
    · intro hg
      refine ⟨hrefused, fun w hw => ?_, (kept_reset_iff e).mpr hg.2⟩
      change w ∈ b.resetStores e at hw
      simp [resetStores, hbuf] at hw
  | none =>
    have hsum := h.sum_of_none hbuf
    have htarget : (BufferCall.reset e).target b = malloc e.malloc bufferSize := by
      simp [BufferCall.target, hbuf]
    have hstores : (bufferMachine.step b (.reset e)).2 =
        [⟨0, b.free, ((malloc e.malloc bufferSize).map Block.cap).getD 0⟩] := by
      show b.resetStores e = _
      simp [resetStores, hbuf]
    constructor
    · intro hs
      refine ⟨fun _ => ?_, (kept_reset_iff e).mp hs.kept⟩
      obtain ⟨blk, hblk, -⟩ := hs.stored _ (hstores ▸ List.mem_singleton_self _)
        (Nat.lt_of_succ_le hpos)
      rw [htarget, malloc, Option.map_eq_some_iff] at hblk
      obtain ⟨g, hg, -⟩ := hblk
      exact Or.inr (by rw [hg]; rfl)
    · intro hg
      refine ⟨hrefused, fun w _ _ => ?_, (kept_reset_iff e).mpr hg.2⟩
      rcases hg.1 hbuf with hzero | hsome
      · omega
      obtain ⟨g, hg⟩ := Option.isSome_iff_exists.mp hsome
      refine ⟨⟨bufferSize, g⟩, ?_, le_of_eq hsum⟩
      rw [htarget, hg]
      rfl

/-- **One call survives exactly when it is guarded.** -/
theorem Counted.survives_iff_guarded (h : b.Counted) {c : BufferCall} (hc : c.Sized) :
    Survives b c ↔ Guarded b c := by
  cases c with
  | append a p size => exact h.survives_append_iff hc
  | reset e => exact h.survives_reset_iff e

/-- The constructor is guarded. -/
theorem guarded_unset (e : ResetAlloc) : Guarded unset (.reset e) :=
  ⟨fun _ => Or.inl rfl, fun hlen => absurd hlen (Nat.not_lt_zero _)⟩

/-- It survives, for it clears no byte. -/
theorem survives_unset (e : ResetAlloc) : Survives unset (.reset e) := by
  refine ⟨fun h => (by cases h), fun w hw hpos => ?_, (kept_reset_iff e).mpr (guarded_unset e).2⟩
  rw [List.mem_singleton.mp hw] at hpos
  exact absurd hpos (lt_irrefl 0)

/-! ## Every call of every sequence -/

/-- A well-formed buffer guards every call whose bytes it can count. -/
theorem WF.guarded (h : b.WF) {c : BufferCall} (hc : c.Fits b) : Guarded b c := by
  obtain ⟨blk, hblk, hcap⟩ := h.block
  cases c with
  | reset e =>
    refine ⟨fun hnone => ?_, fun _ _ => h.room_le⟩
    rw [hblk] at hnone
    cases hnone
  | append a p size =>
    refine ⟨fun _ _ => ?_, fun hfree => ⟨fun ha => ?_, fun hsome => ⟨h.room_le, fun hzero => ?_⟩⟩⟩
    · rw [cap_of_buf hblk]
      exact le_trans h.default_le hcap
    · have hlt := hc.1 (append_fst ha p hc.2)
      omega
    · have hpos := h.free_pos
      exact hc.2 ⟨hsome, hfree, by omega, hzero⟩

/-- It stays well formed, whatever `Append` is answered. -/
theorem WF.step (h : b.WF) {c : BufferCall} (hc : c.Fits b) (hreset : c.ResetGranted) :
    (bufferMachine.step b c).1.WF := by
  cases c with
  | reset e => exact h.reset hreset.2
  | append a p size => exact (h.append_answer a p hc.1 hc.2).1

/-- The state before each call of a sequence, starting with the constructor. -/
def before (pre : List BufferCall) : CBuffer := (bufferMachine.run unset pre).1

/-- The calls of a sequence from the constructor on, each with the state that it meets. -/
theorem forall_call_iff {e : ResetAlloc} {calls : List BufferCall}
    {P : CBuffer → BufferCall → Prop} :
    (∀ pre c, pre ++ [c] <+: .reset e :: calls → P (before pre) c) ↔
      P unset (.reset e) ∧
        ∀ pre c, pre ++ [c] <+: calls → P (bufferMachine.run (new e) pre).1 c := by
  constructor
  · intro h
    refine ⟨h [] _ (by simp), fun pre c hpre => ?_⟩
    exact h (.reset e :: pre) c ((List.prefix_cons_inj _).mpr hpre)
  · rintro ⟨hfirst, hrest⟩ pre c hpre
    cases pre with
    | nil =>
      obtain ⟨rfl, -⟩ := List.cons_prefix_cons.mp hpre
      exact hfirst
    | cons d pre =>
      obtain ⟨rfl, hpre'⟩ := List.cons_prefix_cons.mp hpre
      exact hrest pre c hpre'

/-- As long as `Reset` is never refused, the buffer is well formed before every call. -/
theorem wf_run {e : ResetAlloc} (he : e.malloc.isSome) {calls : List BufferCall}
    (hreset : ∀ c ∈ calls, c.ResetGranted)
    (hfits : ∀ pre c, pre ++ [c] <+: calls → c.Fits (bufferMachine.run (new e) pre).1) :
    (bufferMachine.run (new e) calls).1.WF := by
  induction calls using List.reverseRecOn with
  | nil => exact wf_new he
  | append_singleton calls c ih =>
    rw [Machine.run_concat]
    apply WF.step
    · refine ih (fun d hd => hreset d (List.mem_append_left _ hd)) fun pre d hpre => ?_
      exact hfits pre d (hpre.trans (List.prefix_append _ _))
    · exact hfits calls c (List.prefix_refl _)
    · exact hreset c (by simp)

/-- **A call survives exactly when it is guarded**, in every sequence of a construction and
of calls of `Append` and `Reset`, for every pattern of answers of the allocator.  Every call
does as long as the constructor and `Reset` get their memory and the length fits in its
type, however many appends are refused. -/
theorem survives_iff {e : ResetAlloc} {calls : List BufferCall}
    (hsize : ∀ c ∈ calls, c.Sized) :
    (∀ pre c, pre ++ [c] <+: .reset e :: calls →
        (Survives (before pre) c ↔ Guarded (before pre) c)) ∧
      (e.malloc.isSome → (∀ c ∈ calls, c.ResetGranted) →
        (∀ pre c, pre ++ [c] <+: .reset e :: calls → c.Fits (before pre)) →
        ∀ pre c, pre ++ [c] <+: .reset e :: calls → Survives (before pre) c) := by
  have hiff : ∀ pre c, pre ++ [c] <+: .reset e :: calls →
      (Survives (before pre) c ↔ Guarded (before pre) c) := by
    apply (forall_call_iff (P := fun b c => Survives b c ↔ Guarded b c)).mpr
    refine ⟨iff_of_true (survives_unset e) (guarded_unset e), fun pre c hpre => ?_⟩
    exact (counted_run e pre).survives_iff_guarded (hsize c (hpre.subset (by simp)))
  refine ⟨hiff, fun he hreset hfits pre c hpre => (hiff pre c hpre).mpr ?_⟩
  obtain ⟨-, hfits⟩ := (forall_call_iff (P := fun b c => c.Fits b)).mp hfits
  revert pre c
  apply (forall_call_iff (P := Guarded)).mpr
  refine ⟨guarded_unset e, fun pre c hpre => ?_⟩
  have hbefore : pre <+: calls := (List.prefix_append _ _).trans hpre
  apply WF.guarded _ (hfits pre c hpre)
  apply wf_run he fun d hd => hreset d (hbefore.subset hd)
  exact fun pre' d hpre' => hfits pre' d (hpre'.trans hbefore)

/-- A buffer that has grown past twice the default size and loses its block when `Reset` cuts
it back. -/
def lostCalls : List BufferCall :=
  [.append (some fun _ => 0) (fun _ => 65) 4097, .reset ⟨none, none⟩]

/-- The next byte goes through `NULL`. -/
theorem survives_iff_lost :
    ¬ Survives (before (.reset ⟨some fun _ => 0, none⟩ :: lostCalls))
      (.append none (fun _ => 65) 1) := by
  have hsized : ∀ c ∈ lostCalls ++ [.append none (fun _ => 65) 1], c.Sized := by
    simp [lostCalls, BufferCall.Sized]
  rw [(survives_iff (e := ⟨some fun _ => 0, none⟩) hsized).1 _ _ (List.prefix_refl _)]
  intro hg
  have hcap := hg.1 Nat.one_pos (by decide +kernel)
  exact absurd hcap (by decide +kernel)

/-- A constructor that gets no memory, and one byte. -/
theorem not_survives_new :
    ¬ ∀ (e : ResetAlloc) (calls : List BufferCall), (∀ c ∈ calls, c.Sized) →
      ∀ pre c, pre ++ [c] <+: .reset e :: calls → Survives (before pre) c := by
  intro h
  have hs := h ⟨none, none⟩ [.append none (fun _ => 65) 1] (by simp [BufferCall.Sized])
    [.reset ⟨none, none⟩] _ (List.prefix_refl _)
  obtain ⟨blk, hblk, -⟩ := hs.stored ⟨0, 1, 0⟩ (List.mem_singleton_self _) Nat.one_pos
  cases hblk

end CBuffer

end HttpDecoder
