import HttpDecoder.Capture

/-!
# The packet array

`tmp1` has 2000 bytes, and the third `fread` of an iteration takes its size from the packet:
from `tot_len` less 20, an `int` that becomes a `size_t`, or from the payload length of an
IPv6 header.

* `freads` — the calls of `fread` of an iteration; `readFrame_eq_reads` — they are what the
  iteration does.
* `NeverOverrun` — no iteration of the read loop stores a byte beyond the array.
* `FrameAt` — where the frames of a file start, read off the file alone.
* `neverOverrun_iff` — **when the array is never overrun**: when every frame that starts more
  than 2000 bytes before the end of the file fits the array.
-/

namespace HttpDecoder

open CLib

/-! ## The calls of `fread` -/

/-- The calls of `fread` in an iteration. -/
def freads (tmp1 : Mem) (f : CFile) : List CFile.Read :=
  let head := f.fread tmp1 0 14
  if isIpv4 head.1 then
    let iphead := head.2.fread head.1 14 20
    let len := ntohs (ld16 iphead.1 16)
    [⟨0, 14⟩, ⟨14, 20⟩, ⟨34, sizeT (len.toNat - 20)⟩]
  else if isIpv6 head.1 then
    let iphead := head.2.fread head.1 14 40
    let len := ntohs (ld16 iphead.1 18)
    [⟨0, 14⟩, ⟨14, 40⟩, ⟨54, len.toNat⟩]
  else [⟨0, 14⟩]

/-- They are all an iteration does to the array and to the file. -/
theorem readFrame_eq_reads (tmp1 : Mem) (f : CFile) :
    ((readFrame tmp1 f).tmp1, (readFrame tmp1 f).file) = CFile.reads tmp1 f (freads tmp1 f) := by
  unfold readFrame freads
  simp only
  split_ifs <;> rfl

/-- `sizeof(tmp1)`. -/
def arraySize : Nat := 2000

/-- Every byte that an iteration stores lies inside the array. -/
def StoresInside (tmp1 : Mem) (f : CFile) : Prop :=
  ∀ i, CFile.Stored i f.rest (freads tmp1 f) → i < arraySize

/-- This is to say that its calls of `fread` leave the memory behind the array alone, whatever
lies there. -/
theorem storesInside_iff_behind (tmp1 : Mem) (f : CFile) : StoresInside tmp1 f ↔
    ∀ (m : Mem) (i : Nat), arraySize ≤ i → (CFile.reads m f (freads tmp1 f)).1 i = m i := by
  constructor
  · intro h m i hi
    exact CFile.reads_of_not_stored fun hstored => absurd (h i hstored) (not_lt.mpr hi)
  · intro h i hstored
    by_contra hi
    have hsame := CFile.stored_iff.mp hstored (fun _ => 0) fun _ => 1
    rw [h _ i (not_lt.mp hi), h _ i (not_lt.mp hi)] at hsame
    exact absurd hsame (by decide)

/-- The read loop comes to the test of `feof` with an array and a file. -/
inductive ComesTo (tmp1 : Mem) (file : Bytes) : Mem → CFile → Prop
  | start : ComesTo tmp1 file tmp1 ⟨file, false⟩
  | next {m : Mem} {f : CFile} : ComesTo tmp1 file m f → f.eof = false →
      ComesTo tmp1 file (readFrame m f).tmp1 (readFrame m f).file

/-- No iteration stores a byte beyond the array, `tmp1` being what it holds at first. -/
def NeverOverrun (tmp1 : Mem) (file : Bytes) : Prop :=
  ∀ m f, ComesTo tmp1 file m f → f.eof = false → StoresInside m f

/-- These are the iterations of the read loop. -/
theorem mem_readLoop_iff (tmp1 : Mem) (file : Bytes) (it : Iteration) :
    it ∈ readLoop tmp1 ⟨file, false⟩ ↔
      ∃ m f, ComesTo tmp1 file m f ∧ f.eof = false ∧ it = readFrame m f := by
  constructor
  · -- the loop from any state it comes to, by the bytes left
    suffices hloop : ∀ (n : Nat) (m : Mem) (f : CFile), ComesTo tmp1 file m f →
        it ∈ iterations n m f →
          ∃ m f, ComesTo tmp1 file m f ∧ f.eof = false ∧ it = readFrame m f from
      hloop _ _ _ ComesTo.start
    intro n
    induction n with
    | zero => exact fun _ _ _ hit => absurd hit List.not_mem_nil
    | succ n ih =>
      intro m f hcomes hit
      cases heof : f.eof with
      | true =>
        rw [iterations_of_eof heof] at hit
        exact absurd hit List.not_mem_nil
      | false =>
        rw [iterations_succ heof] at hit
        rcases List.mem_cons.mp hit with rfl | hit
        · exact ⟨m, f, hcomes, heof, rfl⟩
        · exact ih _ _ (hcomes.next heof) hit
  · rintro ⟨m, f, hcomes, heof, rfl⟩
    have hsub : ∀ it ∈ readLoop m f, it ∈ readLoop tmp1 ⟨file, false⟩ := by
      clear heof
      induction hcomes with
      | start => exact fun _ hit => hit
      | next _ heof ih =>
        intro it hit
        apply ih
        rw [readLoop_eq, heof]
        exact List.mem_cons_of_mem _ hit
    apply hsub
    rw [readLoop_eq, heof]
    exact List.mem_cons_self

/-! ## Frames of a file -/

/-- The bytes of the file that an iteration takes, `rest` being what has not been read yet. -/
def frameSize (rest : Bytes) : Nat :=
  if be16 rest 12 = 0x0800 then 14 + be16 rest 16
  else if be16 rest 12 = 0xdd86 then 54 + be16 rest 18
  else 14

/-- The frame has the IPv4 header it is read with, and fits the array. -/
structure FrameFits (rest : Bytes) : Prop where
  /-- An IPv4 packet is no shorter than its header. -/
  header : be16 rest 12 = 0x0800 → 20 ≤ be16 rest 16
  /-- It is no longer than the array. -/
  size : frameSize rest ≤ arraySize

theorem frameFits_iff {rest : Bytes} : FrameFits rest ↔
    (be16 rest 12 = 0x0800 → 20 ≤ be16 rest 16) ∧ frameSize rest ≤ arraySize :=
  ⟨fun h => ⟨h.header, h.size⟩, fun h => ⟨h.1, h.2⟩⟩

instance (rest : Bytes) : Decidable (FrameFits rest) := decidable_of_iff' _ frameFits_iff

/-- Frames start at the start of a file and after every frame with more bytes from its start
on than the array holds. -/
inductive FrameAt (file : Bytes) : Bytes → Prop
  | start : FrameAt file file
  /-- The frame after one. -/
  | next {rest : Bytes} : FrameAt file rest → arraySize < rest.length →
      FrameAt file (rest.drop (frameSize rest))

/-! ## One iteration -/

/-- The number of bytes that an iteration asks for. -/
def asked (tmp1 : Mem) (f : CFile) : Nat := ((freads tmp1 f).map CFile.Read.size).sum

/-- An iteration fills the array from its start. -/
theorem inRow_freads (tmp1 : Mem) (f : CFile) : CFile.InRow 0 (freads tmp1 f) := by
  unfold freads
  simp only
  split_ifs <;> simp [CFile.InRow]

/-- It stores what it asks for or what is left of the file, whichever is less. -/
theorem storesInside_iff (m : Mem) (f : CFile) :
    StoresInside m f ↔ min (asked m f) f.rest.length ≤ arraySize := by
  have hstored : ∀ i, CFile.Stored i f.rest (freads m f) ↔ i < min (asked m f) f.rest.length := by
    intro i
    rw [CFile.stored_of_inRow (inRow_freads m f), Nat.zero_add]
    exact and_iff_right (Nat.zero_le i)
  unfold StoresInside
  constructor
  · intro h
    by_contra hlt
    exact lt_irrefl _ (h arraySize ((hstored _).mpr (not_le.mp hlt)))
  · intro h i hi
    exact lt_of_lt_of_le ((hstored i).mp hi) h

theorem be16_lt (fr : Bytes) (i : Nat) : be16 fr i < 2 ^ 16 := by
  have hhigh := (fr.getD i 0).toNat_lt
  have hlow := (fr.getD (i + 1) 0).toNat_lt
  unfold be16
  omega

/-- A field of what was read. -/
theorem toNat_ntohs_take (m : Mem) {rest : Bytes} {n i : Nat} (hi : i + 1 < n)
    (hn : n ≤ rest.length) : (ntohs (ld16 (m.store 0 (rest.take n)) i)).toNat = be16 rest i := by
  have hlen : (rest.take n).length = n := by rw [List.length_take, Nat.min_eq_left hn]
  rw [toNat_ntohs_store m (by omega), ← be16_append _ (rest.drop n) (by omega),
    List.take_append_drop]

/-- The test for IPv6 finds the type with its bytes exchanged. -/
theorem isIpv6_iff (m : Mem) : isIpv6 m = true ↔ (ntohs (ld16 m 12)).toNat = 0xdd86 := by
  have hlow := (m 12).toNat_lt
  have hhigh := (m 13).toNat_lt
  have hraw : (ld16 m 12).toNat = (m 12).toNat + 256 * (m 13).toNat := by
    unfold ld16
    rw [UInt16.toNat_ofNat',
      Nat.mod_eq_of_lt (show (m 12).toNat + 256 * (m 13).toNat < 2 ^ 16 by omega)]
  have htype : ethertypeIpv6.toNat = 0x86dd := rfl
  have hfield : (ntohs (ld16 m 12)).toNat = 256 * (m 12).toNat + (m 13).toNat :=
    toNat_ntohs_ld16 m 12
  unfold isIpv6
  rw [decide_eq_true_iff, ← UInt16.toNat_inj, hraw, htype, hfield]
  omega

section Long

variable (m : Mem) {rest : Bytes} (h : arraySize < rest.length) (eof : Bool)

include h

/-- With enough bytes left the calls of `fread` are known from the file. -/
theorem freads_long : freads m ⟨rest, eof⟩ =
    if be16 rest 12 = 0x0800 then
      [⟨0, 14⟩, ⟨14, 20⟩, ⟨34, sizeT ((be16 rest 16 : Nat) - 20)⟩]
    else if be16 rest 12 = 0xdd86 then [⟨0, 14⟩, ⟨14, 40⟩, ⟨54, be16 rest 18⟩]
    else [⟨0, 14⟩] := by
  have hsize : arraySize = 2000 := rfl
  have hhead : (CFile.fread ⟨rest, eof⟩ m 0 14).1 = m.store 0 (rest.take 14) :=
    CFile.fread_fst ..
  have hiphead : ∀ n, ((CFile.fread ⟨rest, eof⟩ m 0 14).2.fread
      (m.store 0 (rest.take 14)) 14 n).1 = m.store 0 (rest.take (14 + n)) := by
    intro n
    rw [CFile.fread_fst, CFile.rest_fread, Mem.store_next m (by rw [List.length_take]; omega),
      List.take_add]
  have hipv4 : isIpv4 (m.store 0 (rest.take 14)) = true ↔ be16 rest 12 = 0x0800 := by
    rw [isIpv4_iff, toNat_ntohs_take m (by omega) (by omega)]
  have hipv6 : isIpv6 (m.store 0 (rest.take 14)) = true ↔ be16 rest 12 = 0xdd86 := by
    rw [isIpv6_iff, toNat_ntohs_take m (by omega) (by omega)]
  unfold freads
  simp only [hhead, hiphead, hipv4, hipv6]
  rw [toNat_ntohs_take m (show 16 + 1 < 14 + 20 by omega) (by omega),
    toNat_ntohs_take m (show 18 + 1 < 14 + 40 by omega) (by omega)]

/-- What is asked for is no more than the array holds exactly if the frame fits. -/
theorem asked_le_iff : asked m ⟨rest, eof⟩ ≤ arraySize ↔ FrameFits rest := by
  have hsize : arraySize = 2000 := rfl
  have hlt := be16_lt rest 16
  rw [asked, freads_long m h]
  by_cases hipv4 : be16 rest 12 = 0x0800
  · have hfits : FrameFits rest ↔ 20 ≤ be16 rest 16 ∧ 14 + be16 rest 16 ≤ arraySize := by
      rw [frameFits_iff, frameSize, if_pos hipv4]
      exact and_congr_left fun _ => ⟨fun hheader => hheader hipv4, fun hheader _ => hheader⟩
    rw [if_pos hipv4, hfits]
    show 14 + (20 + (sizeT _ + 0)) ≤ arraySize ↔ _
    unfold sizeT
    omega
  · rw [if_neg hipv4, frameFits_iff, frameSize, if_neg hipv4]
    split_ifs with hipv6
    · show 14 + (40 + (be16 rest 18 + 0)) ≤ arraySize ↔ _
      omega
    · exact iff_of_true (by decide) ⟨fun hipv4' => absurd hipv4' hipv4, by decide⟩

/-- And then it is the frame. -/
theorem asked_eq (hfits : FrameFits rest) : asked m ⟨rest, eof⟩ = frameSize rest := by
  have hlt := be16_lt rest 16
  rw [asked, freads_long m h]
  unfold frameSize
  split_ifs with hipv4 hipv6
  · have hheader := hfits.header hipv4
    have hsizeT := sizeT_of_nonneg (n := (be16 rest 16 : Nat) - 20) (by omega) (by omega)
    simp only [List.map_cons, List.map_nil, List.sum_cons, List.sum_nil, hsizeT]
    omega
  · simp only [List.map_cons, List.map_nil, List.sum_cons, List.sum_nil]
    omega
  · rfl

/-- Such an iteration stays inside the array exactly if the frame fits. -/
theorem storesInside_iff_fits : StoresInside m ⟨rest, eof⟩ ↔ FrameFits rest := by
  rw [storesInside_iff, ← asked_le_iff m h eof, min_le_iff]
  exact or_iff_left (not_le.mpr h)

/-- Then the next one starts after it. -/
theorem readFrame_file_of_fits (hfits : FrameFits rest) :
    (readFrame m ⟨rest, eof⟩).file = ⟨rest.drop (frameSize rest), eof⟩ := by
  have hle := hfits.size
  have hasked := asked_eq m h eof hfits
  have hread : (CFile.reads m ⟨rest, eof⟩ (freads m ⟨rest, eof⟩)).2 = _ :=
    CFile.reads_file (show asked m ⟨rest, eof⟩ ≤ rest.length by omega)
  rw [← hasked]
  exact (congrArg Prod.snd (readFrame_eq_reads m ⟨rest, eof⟩)).trans hread

end Long

/-! ## Every iteration -/

/-- The frames of the file are what the iterations start at, as long as they fit. -/
theorem comesTo_of_frameAt {tmp1 : Mem} {file rest : Bytes} (h : NeverOverrun tmp1 file)
    (hat : FrameAt file rest) : ∃ m, ComesTo tmp1 file m ⟨rest, false⟩ := by
  induction hat with
  | start => exact ⟨tmp1, ComesTo.start⟩
  | @next rest _ hlen ih =>
    obtain ⟨m, hcomes⟩ := ih
    have hfits := (storesInside_iff_fits m hlen false).mp (h m _ hcomes rfl)
    refine ⟨(readFrame m ⟨rest, false⟩).tmp1, ?_⟩
    rw [← readFrame_file_of_fits m hlen false hfits]
    exact hcomes.next rfl

/-- While the frames fit, every iteration starts at one or has no more bytes left than the
array holds. -/
theorem frameAt_of_comesTo {tmp1 : Mem} {file : Bytes}
    (h : ∀ rest, FrameAt file rest → arraySize < rest.length → FrameFits rest) {m : Mem}
    {f : CFile} (hcomes : ComesTo tmp1 file m f) :
    f.rest.length ≤ arraySize ∨ (FrameAt file f.rest ∧ f.eof = false) := by
  induction hcomes with
  | start => exact Or.inr ⟨FrameAt.start, rfl⟩
  | @next m f _ heof ih =>
    rcases ih with hshort | ⟨hat, -⟩
    · obtain ⟨hrest, -⟩ := readFrame_rest_le m f
      exact Or.inl (hrest.trans ((CFile.length_fread_le ..).trans hshort))
    · by_cases hlen : arraySize < f.rest.length
      · obtain ⟨rest, eof⟩ := f
        rw [readFrame_file_of_fits m hlen eof (h _ hat hlen)]
        exact Or.inr ⟨hat.next hlen, heof⟩
      · obtain ⟨hrest, -⟩ := readFrame_rest_le m f
        exact Or.inl (hrest.trans ((CFile.length_fread_le ..).trans (not_lt.mp hlen)))

/-- **When the array is never overrun.**  For every file, whatever the array held before:
exactly if every frame that starts more than 2000 bytes before the end of the file fits the
array, and is no shorter than its header if it is one of IPv4. -/
theorem neverOverrun_iff (tmp1 : Mem) (file : Bytes) :
    NeverOverrun tmp1 file ↔
      ∀ rest, FrameAt file rest → arraySize < rest.length → FrameFits rest := by
  constructor
  · intro h rest hat hlen
    obtain ⟨m, hcomes⟩ := comesTo_of_frameAt h hat
    exact (storesInside_iff_fits m hlen false).mp (h m _ hcomes rfl)
  · intro h m f hcomes heof
    by_cases hlen : arraySize < f.rest.length
    · have hat : FrameAt file f.rest :=
        ((frameAt_of_comesTo h hcomes).resolve_left (not_le.mpr hlen)).1
      obtain ⟨rest, eof⟩ := f
      exact (storesInside_iff_fits m hlen eof).mpr (h rest hat hlen)
    · rw [storesInside_iff]
      omega

/-- An IPv4 frame of 2014 bytes. -/
def jumboFrame : Bytes :=
  List.replicate 12 0 ++ [0x08, 0x00, 0x45, 0x00, 0x07, 0xd0] ++ List.replicate 1996 0

/-- Its last bytes are stored beyond the array. -/
theorem not_neverOverrun_jumboFrame : ¬ NeverOverrun (fun _ => 0) jumboFrame := by
  intro h
  have hlen : arraySize < jumboFrame.length := by
    rw [jumboFrame, List.length_append, List.length_replicate]
    decide
  have hfits := (storesInside_iff_fits (fun _ => 0) hlen false).mp (h _ _ ComesTo.start rfl)
  have htype : be16 jumboFrame 12 = 0x0800 := rfl
  have htot : be16 jumboFrame 16 = 2000 := rfl
  have hsize := hfits.size
  rw [frameSize, if_pos htype, htot] at hsize
  exact absurd hsize (by decide)

end HttpDecoder
