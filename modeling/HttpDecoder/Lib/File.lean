import HttpDecoder.Lib.Memory

/-!
# Files of the C and C++ libraries

A file opened for reading (`CFile`) is what has not been read yet and the end-of-file
indicator.  `fread` copies what it finds; the indicator is raised only by a read that comes
up short, and what such a read does not reach is left as it was.

* `Mem.store` — bytes stored in memory, with the lemmas that join two stores.
* `CFile.fread_append`, `CFile.fread_short` — a read that finds its bytes, and one that
  does not.
* `CFile.reads`, `CFile.Stored` — some reads in a row, and the bytes they store;
  `CFile.stored_iff` — those that come from the file.
* `Files.append` — output to a file opened for appending; `Files.foldl_append` — the files after
  any number of such outputs.
-/

namespace CLib

namespace Mem

/-- The bytes `bs` stored at offset `off`. -/
def store (m : Mem) (off : Nat) (bs : Bytes) : Mem :=
  fun i => if i < off then m i else (bs[i - off]?).getD (m i)

theorem store_of_lt (m : Mem) {off i : Nat} (bs : Bytes) (h : i < off) :
    m.store off bs i = m i := if_pos h

theorem store_get (m : Mem) (off : Nat) {bs : Bytes} {i : Nat} (h : i < bs.length) :
    m.store off bs (off + i) = bs[i] := by
  unfold store
  rw [if_neg (by omega), Nat.add_sub_cancel_left, List.getElem?_eq_getElem h, Option.getD_some]

theorem store_of_le (m : Mem) {off i : Nat} {bs : Bytes} (h : off + bs.length ≤ i) :
    m.store off bs i = m i := by
  unfold store
  rw [if_neg (by omega), List.getElem?_eq_none (by omega), Option.getD_none]

@[simp] theorem store_nil (m : Mem) (off : Nat) : m.store off [] = m := by
  funext i
  unfold store
  split <;> rfl

/-- What is stored is there. -/
theorem holds_store (m : Mem) (off : Nat) (bs : Bytes) : (m.store off bs).Holds off bs :=
  holds_iff_get.mpr fun _ hi => store_get m off hi

/-- Two stores in a row are one. -/
theorem store_store (m : Mem) (off : Nat) (a b : Bytes) :
    (m.store off a).store (off + a.length) b = m.store off (a ++ b) := by
  funext i
  by_cases hlt : i < off
  · rw [store_of_lt _ _ (by omega), store_of_lt _ _ hlt, store_of_lt _ _ hlt]
  obtain ⟨j, rfl⟩ := Nat.exists_eq_add_of_le (not_lt.mp hlt)
  by_cases ha : j < a.length
  · rw [store_of_lt _ _ (by omega), store_get m off ha,
      store_get m off (by rw [List.length_append]; omega), List.getElem_append_left ha]
  obtain ⟨k, rfl⟩ := Nat.exists_eq_add_of_le (not_lt.mp ha)
  by_cases hb : k < b.length
  · rw [← Nat.add_assoc, store_get _ _ hb, Nat.add_assoc,
      store_get m off (by rw [List.length_append]; omega),
      List.getElem_append_right (Nat.le_add_right _ _)]
    simp
  · rw [store_of_le _ (by omega), store_of_le _ (by omega),
      store_of_le _ (by rw [List.length_append]; omega)]

/-- So are two stores at the start. -/
theorem store_next (m : Mem) {a : Bytes} {n : Nat} (h : a.length = n) (b : Bytes) :
    (m.store 0 a).store n b = m.store 0 (a ++ b) := by
  rw [← store_store, Nat.zero_add, h]

end Mem

/-- A file opened for reading. -/
structure CFile where
  /-- The bytes not read yet. -/
  rest : Bytes
  eof : Bool

namespace CFile

variable (f : CFile) (m : Mem) (off : Nat)

/-- `fread` of `size` bytes to `m + off`: the memory and the file it leaves. -/
def fread (size : Nat) : Mem × CFile :=
  if size = 0 then (m, f)
  else (m.store off (f.rest.take size),
    ⟨f.rest.drop size, f.eof || decide (f.rest.length < size)⟩)

/-- A read that finds its bytes. -/
theorem fread_append {f : CFile} {a b : Bytes} (h : f.rest = a ++ b) {size : Nat}
    (hsize : size = a.length) : f.fread m off size = (m.store off a, ⟨b, f.eof⟩) := by
  subst hsize
  unfold fread
  by_cases h0 : a.length = 0
  · obtain rfl := List.length_eq_zero_iff.mp h0
    obtain ⟨rest, eof⟩ := f
    obtain rfl : rest = b := h
    rw [if_pos h0, Mem.store_nil]
  · rw [if_neg h0, h, List.take_left, List.drop_left, decide_eq_false (by simp), Bool.or_false]

/-- A read that comes up short. -/
theorem fread_short {f : CFile} {size : Nat} (h : f.rest.length < size) :
    f.fread m off size = (m.store off f.rest, ⟨[], true⟩) := by
  unfold fread
  rw [if_neg (by omega), List.take_of_length_le h.le, List.drop_of_length_le h.le,
    decide_eq_true h, Bool.or_true]

/-- The end-of-file indicator stays raised. -/
theorem eof_fread {f : CFile} (h : f.eof = true) (size : Nat) :
    (f.fread m off size).2.eof = true := by
  unfold fread
  split
  · exact h
  · rw [h]
    rfl

/-- A read takes nothing back. -/
theorem length_fread_le (size : Nat) : (f.fread m off size).2.rest.length ≤ f.rest.length := by
  unfold fread
  split
  · exact le_refl _
  · rw [List.length_drop]
    exact Nat.sub_le _ _

theorem length_fread {f : CFile} {size : Nat} (h : size ≤ f.rest.length) :
    (f.fread m off size).2.rest.length = f.rest.length - size := by
  rw [fread_append m off (List.take_append_drop size f.rest).symm
    (by rw [List.length_take, Nat.min_eq_left h]), List.length_drop]

/-- What a read leaves of the file. -/
@[simp] theorem rest_fread (size : Nat) : (f.fread m off size).2.rest = f.rest.drop size := by
  unfold fread
  split
  · next h => rw [h, List.drop_zero]
  · rfl

theorem fread_file (m m' : Mem) (size : Nat) :
    (f.fread m off size).2 = (f.fread m' off size).2 := by
  unfold fread
  split <;> rfl

/-- What a read stores. -/
theorem fread_fst (size : Nat) : (f.fread m off size).1 = m.store off (f.rest.take size) := by
  unfold fread
  split
  · next h => rw [h, List.take_zero, Mem.store_nil]
  · rfl

/-! ## Reads in a row -/

/-- A call of `fread`. -/
structure Read where
  /-- Where it stores. -/
  off : Nat
  size : Nat

/-- The memory and the file that some calls leave. -/
def reads (m : Mem) (f : CFile) : List Read → Mem × CFile
  | [] => (m, f)
  | c :: cs => reads (f.fread m c.off c.size).1 (f.fread m c.off c.size).2 cs

/-- The calls store a byte at `i`, `rest` being what has not been read yet. -/
def Stored (i : Nat) : Bytes → List Read → Prop
  | _, [] => False
  | rest, c :: cs =>
    (c.off ≤ i ∧ i < c.off + min c.size rest.length) ∨ Stored i (rest.drop c.size) cs

/-- What they do not store stays. -/
theorem reads_of_not_stored {i : Nat} {cs : List Read} : ∀ {m : Mem} {f : CFile},
    ¬ Stored i f.rest cs → (reads m f cs).1 i = m i := by
  induction cs with
  | nil =>
    intro m f _
    rfl
  | cons c cs ih =>
    intro m f h
    obtain ⟨hhead, htail⟩ := not_or.mp h
    rw [reads, ih (by rwa [rest_fread]), fread_fst]
    by_cases hlt : i < c.off
    · exact Mem.store_of_lt m _ hlt
    · apply Mem.store_of_le
      rw [List.length_take]
      omega

/-- A byte that is the same in two memories stays the same. -/
theorem reads_congr {i : Nat} {cs : List Read} : ∀ {m m' : Mem} {f : CFile},
    m i = m' i → (reads m f cs).1 i = (reads m' f cs).1 i := by
  induction cs with
  | nil => exact fun h => h
  | cons c cs ih =>
    intro m m' f h
    rw [reads, reads, fread_file f _ m m']
    apply ih
    rw [fread_fst, fread_fst]
    unfold Mem.store
    rw [h]

/-- What they store does not hang on what was there. -/
theorem reads_of_stored {i : Nat} {cs : List Read} : ∀ {m m' : Mem} {f : CFile},
    Stored i f.rest cs → (reads m f cs).1 i = (reads m' f cs).1 i := by
  induction cs with
  | nil => exact fun h => h.elim
  | cons c cs ih =>
    intro m m' f h
    rw [reads, reads, fread_file f _ m m']
    rcases h with ⟨hle, hlt⟩ | h
    · apply reads_congr
      obtain ⟨j, rfl⟩ := Nat.exists_eq_add_of_le hle
      have hj : j < (f.rest.take c.size).length := by rw [List.length_take]; omega
      rw [fread_fst, fread_fst, Mem.store_get m _ hj, Mem.store_get m' _ hj]
    · exact ih (by rwa [rest_fread])

/-- **The bytes that some reads store** are those that do not hang on what was there. -/
theorem stored_iff {i : Nat} {cs : List Read} {f : CFile} :
    Stored i f.rest cs ↔ ∀ m m' : Mem, (reads m f cs).1 i = (reads m' f cs).1 i := by
  constructor
  · exact fun h m m' => reads_of_stored h
  · intro h
    by_contra hnot
    have hsame := h (fun _ => 0) fun _ => 1
    rw [reads_of_not_stored hnot, reads_of_not_stored hnot] at hsame
    exact absurd hsame (by decide)

/-- Each call stores where the one before it ends, the first one at `off`. -/
def InRow : Nat → List Read → Prop
  | _, [] => True
  | off, c :: cs => c.off = off ∧ InRow (off + c.size) cs

/-- Such calls store as one call would. -/
theorem stored_of_inRow {i : Nat} {cs : List Read} : ∀ {off : Nat} {rest : Bytes},
    InRow off cs →
      (Stored i rest cs ↔ off ≤ i ∧ i < off + min (cs.map Read.size).sum rest.length) := by
  induction cs with
  | nil =>
    intro off rest _
    rw [List.map_nil, List.sum_nil, Nat.zero_min]
    exact iff_of_false id (by omega)
  | cons c cs ih =>
    intro off rest h
    obtain ⟨rfl, htail⟩ := h
    rw [Stored, ih htail, List.length_drop, List.map_cons, List.sum_cons]
    omega

/-- Reads that find their bytes. -/
theorem reads_file {cs : List Read} : ∀ {m : Mem} {f : CFile},
    (cs.map Read.size).sum ≤ f.rest.length →
      (reads m f cs).2 = ⟨f.rest.drop (cs.map Read.size).sum, f.eof⟩ := by
  induction cs with
  | nil =>
    intro m f _
    rfl
  | cons c cs ih =>
    intro m f h
    rw [List.map_cons, List.sum_cons] at h ⊢
    have hhead : f.fread m c.off c.size = (m.store c.off (f.rest.take c.size),
        ⟨f.rest.drop c.size, f.eof⟩) :=
      fread_append m c.off (List.take_append_drop c.size f.rest).symm
        (by rw [List.length_take, Nat.min_eq_left (by omega)])
    rw [reads, hhead, ih (by rw [List.length_drop]; omega), List.drop_drop]

/-! ## Loops that read until `feof` -/

/-- What is left to do: nothing after the end of the file was noticed. -/
def left : Nat := if f.eof then 0 else f.rest.length + 1

theorem left_of_eof {f : CFile} (h : f.eof = true) : f.left = 0 := if_pos h

theorem left_of_not_eof {f : CFile} (h : f.eof = false) : f.left = f.rest.length + 1 :=
  if_neg (by simp [h])

theorem left_le : f.left ≤ f.rest.length + 1 := by
  unfold left
  split <;> omega

end CFile

/-! ## Files opened for appending -/

/-- The contents of the files, by name. -/
abbrev Files := Bytes → Bytes

namespace Files

/-- Output to the file of the given name, opened with `ios::app`. -/
def append (d : Files) (name bs : Bytes) : Files := Function.update d name (d name ++ bs)

theorem append_self (d : Files) (name bs : Bytes) : d.append name bs name = d name ++ bs :=
  Function.update_self ..

theorem append_of_ne (d : Files) {name n : Bytes} (bs : Bytes) (h : n ≠ name) :
    d.append name bs n = d n := Function.update_of_ne h ..

/-- **A file holds what was written to it**, in order, behind what it held before. -/
theorem foldl_append {α : Type*} (name text : α → Bytes) (n : Bytes) (l : List α) :
    ∀ d : Files, l.foldl (fun d a => d.append (name a) (text a)) d n =
      d n ++ (l.filter fun a => decide (name a = n)).flatMap text := by
  induction l with
  | nil => exact fun d => (List.append_nil _).symm
  | cons a l ih =>
    intro d
    rw [List.foldl_cons, ih]
    by_cases hn : name a = n
    · rw [List.filter_cons_of_pos (by simpa using hn), List.flatMap_cons, ← List.append_assoc,
        ← hn, append_self]
    · rw [List.filter_cons_of_neg (by simpa using hn), append_of_ne d _ (Ne.symm hn)]

end Files

end CLib
