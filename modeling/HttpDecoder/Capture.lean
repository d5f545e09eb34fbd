import HttpDecoder.AppMain

/-!
# Capture files

What the read loop makes of a file of Ethernet frames.

* `Ipv4Frame`, `Ipv6Frame` — complete frames that fit the array.
* `readFrame_ipv4`, `readFrame_ipv6` — the iteration that starts at one: the first reads the
  frame, the second its Ethernet header only.
* `aligned_iff` — **when every iteration starts at a frame**: when there is no IPv6 frame.
* `workCalls_tail` — the calls of `Work` for a file that breaks off: one for each whole frame, and
  one more.
* `framesOnce_iff` — **when every frame is given to `Work` once**: hardly ever, for the last
  frame is given twice.
-/

namespace HttpDecoder

open CLib CHandle

/-! ## Frames -/

/-- The 16-bit field at `i`, in network byte order. -/
def be16 (fr : Bytes) (i : Nat) : Nat := 256 * (fr.getD i 0).toNat + (fr.getD (i + 1) 0).toNat

/-- A complete IPv4 frame. -/
structure Ipv4Frame (fr : Bytes) : Prop where
  ether_type : be16 fr 12 = 0x0800
  /-- `tot_len` counts what follows the Ethernet header. -/
  tot_len : 14 + be16 fr 16 = fr.length
  header : 20 ≤ be16 fr 16
  /-- The frame fits the array. -/
  fits : be16 fr 16 ≤ 1986

/-- A complete IPv6 frame. -/
structure Ipv6Frame (fr : Bytes) : Prop where
  ether_type : be16 fr 12 = 0x86dd
  /-- `plen` counts what follows the IPv6 header, which is there. -/
  plen : 54 + be16 fr 18 = fr.length
  fits : fr.length ≤ 2000

theorem be16_append (a b : Bytes) {i : Nat} (h : i + 1 < a.length) : be16 (a ++ b) i = be16 a i := by
  unfold be16
  rw [List.getD_append _ _ _ _ (by omega), List.getD_append _ _ _ _ h]

/-- A field of what was stored at the start of the array. -/
theorem toNat_ntohs_store (m : Mem) {bs : Bytes} {i : Nat} (h : i + 1 < bs.length) :
    (ntohs (ld16 (m.store 0 bs) i)).toNat = be16 bs i := by
  have hget : ∀ j, j < bs.length → m.store 0 bs j = bs.getD j 0 := by
    intro j hj
    have hstore := Mem.store_get m 0 hj
    rw [Nat.zero_add] at hstore
    rw [hstore, List.getD_eq_getElem _ _ hj]
  rw [toNat_ntohs_ld16, hget i (by omega), hget (i + 1) h]
  rfl

/-- The test for IPv4 reads the type in network byte order. -/
theorem isIpv4_iff (m : Mem) : isIpv4 m = true ↔ (ntohs (ld16 m 12)).toNat = 0x0800 := by
  unfold isIpv4 ethertypeIp
  rw [decide_eq_true_iff, ← UInt16.toNat_inj]
  rfl

/-- The test for IPv6 reads it as it lies in memory, so it never finds the type of an IPv6
frame. -/
theorem isIpv6_of_type {m : Mem} (h : (ntohs (ld16 m 12)).toNat = 0x86dd) : isIpv6 m = false := by
  unfold isIpv6 ethertypeIpv6
  refine decide_eq_false fun hraw => ?_
  rw [hraw] at h
  exact absurd h (by decide)

/-! ## One iteration -/

/-- The iteration that starts at an IPv4 frame reads it. -/
theorem readFrame_ipv4 {fr : Bytes} (hfr : Ipv4Frame fr) (m : Mem) (rest : Bytes) :
    readFrame m ⟨fr ++ rest, false⟩ =
      ⟨⟨fr ++ rest, false⟩, m.store 0 fr, ⟨rest, false⟩, true⟩ := by
  obtain ⟨htype, htot, hhead, hfits⟩ := hfr
  obtain ⟨a, b, p, rfl, ha, hb, hp⟩ : ∃ a b p, fr = a ++ (b ++ p) ∧ a.length = 14 ∧
      b.length = 20 ∧ p.length = be16 fr 16 - 20 :=
    ⟨fr.take 14, (fr.drop 14).take 20, (fr.drop 14).drop 20,
      by rw [List.take_append_drop, List.take_append_drop],
      by rw [List.length_take]; omega,
      by rw [List.length_take, List.length_drop]; omega,
      by rw [List.length_drop, List.length_drop]; omega⟩
  have h₁ : CFile.fread ⟨a ++ (b ++ p) ++ rest, false⟩ m 0 14 =
      (m.store 0 a, ⟨b ++ (p ++ rest), false⟩) :=
    CFile.fread_append m 0 (by simp) ha.symm
  have h₂ : CFile.fread ⟨b ++ (p ++ rest), false⟩ (m.store 0 a) 14 20 =
      (m.store 0 (a ++ b), ⟨p ++ rest, false⟩) := by
    rw [CFile.fread_append (m.store 0 a) 14 rfl hb.symm, Mem.store_next m ha]
  have h₃ : CFile.fread ⟨p ++ rest, false⟩ (m.store 0 (a ++ b)) 34 p.length =
      (m.store 0 (a ++ b ++ p), ⟨rest, false⟩) := by
    rw [CFile.fread_append (m.store 0 (a ++ b)) 34 rfl rfl,
      Mem.store_next m (by rw [List.length_append, ha, hb])]
  have hip : isIpv4 (m.store 0 a) = true := by
    rw [isIpv4_iff, toNat_ntohs_store m (by omega), ← htype, be16_append _ _ (by omega)]
  have hlen : (ntohs (ld16 (m.store 0 (a ++ b)) 16)).toNat = be16 (a ++ (b ++ p)) 16 := by
    have hab : 16 + 1 < (a ++ b).length := by rw [List.length_append]; omega
    rw [toNat_ntohs_store m hab, ← List.append_assoc a b p, be16_append _ _ hab]
  have hsize : sizeT ((be16 (a ++ (b ++ p)) 16 : Nat) - 20) = p.length := by
    rw [sizeT_of_nonneg (by omega) (by omega), hp]
    omega
  unfold readFrame
  simp only [h₁, if_pos hip, h₂, hlen, hsize, h₃]
  rw [List.append_assoc a b p]

/-- The iteration that starts at an IPv6 frame reads its Ethernet header. -/
theorem readFrame_ipv6 {fr : Bytes} (hfr : Ipv6Frame fr) (m : Mem) (rest : Bytes) :
    readFrame m ⟨fr ++ rest, false⟩ =
      ⟨⟨fr ++ rest, false⟩, m.store 0 (fr.take 14), ⟨fr.drop 14 ++ rest, false⟩, false⟩ := by
  have hlen := hfr.plen
  have hhead : (fr.take 14).length = 14 := by rw [List.length_take]; omega
  have h₁ : CFile.fread ⟨fr ++ rest, false⟩ m 0 14 =
      (m.store 0 (fr.take 14), ⟨fr.drop 14 ++ rest, false⟩) :=
    CFile.fread_append m 0 (by simp [← List.append_assoc]) hhead.symm
  have htype : (ntohs (ld16 (m.store 0 (fr.take 14)) 12)).toNat = 0x86dd := by
    rw [toNat_ntohs_store m (by omega), ← hfr.ether_type, ← be16_append _ (fr.drop 14) (by omega),
      List.take_append_drop]
  have hip : ¬ isIpv4 (m.store 0 (fr.take 14)) = true := by
    rw [isIpv4_iff, htype]
    decide
  unfold readFrame
  simp only [h₁, if_neg hip, isIpv6_of_type htype]
  rfl

/-! ## Every iteration starts at a frame -/

/-- The iteration starts at a frame of the file, or at its end, and reads nothing beyond
that frame. -/
def InStep (frames : List Bytes) (it : Iteration) : Prop :=
  ∃ k, it.start.rest = (frames.drop k).flatten ∧ it.file.rest = (frames.drop (k + 1)).flatten

/-- So do all iterations of the read loop. -/
def Aligned (tmp1 : Mem) (frames : List Bytes) : Prop :=
  ∀ it ∈ readLoop tmp1 ⟨frames.flatten, false⟩, InStep frames it

/-- At the end of the file one more iteration reads nothing. -/
theorem readLoop_nil (m : Mem) : ∃ it, readLoop m ⟨[], false⟩ = [it] ∧ it.start.rest = [] ∧
    it.file.rest = [] := by
  have hshort : CFile.fread ⟨[], false⟩ m 0 14 = (m.store 0 [], ⟨[], true⟩) :=
    CFile.fread_short m 0 (by decide)
  obtain ⟨hrest, heof⟩ := readFrame_rest_le m ⟨[], false⟩
  rw [hshort] at hrest heof
  refine ⟨readFrame m ⟨[], false⟩, ?_, by rw [readFrame_start],
    List.length_eq_zero_iff.mp (Nat.le_zero.mp hrest)⟩
  rw [readLoop_eq, if_neg (by simp), readLoop_eq, if_pos (heof rfl)]

/-- The loop on a file that starts with an IPv4 frame. -/
theorem readLoop_ipv4 {fr : Bytes} (hfr : Ipv4Frame fr) (m : Mem) (rest : Bytes) :
    readLoop m ⟨fr ++ rest, false⟩ =
      ⟨⟨fr ++ rest, false⟩, m.store 0 fr, ⟨rest, false⟩, true⟩ ::
        readLoop (m.store 0 fr) ⟨rest, false⟩ := by
  rw [readLoop_eq, if_neg (by simp), readFrame_ipv4 hfr]

/-- IPv4 frames are read one by one. -/
theorem inStep_ipv4 {frs : List Bytes} (hfrs : ∀ fr ∈ frs, Ipv4Frame fr) :
    ∀ (pre : List Bytes) (m : Mem), ∀ it ∈ readLoop m ⟨frs.flatten, false⟩,
      InStep (pre ++ frs) it := by
  induction frs with
  | nil =>
    intro pre m it hit
    obtain ⟨last, hloop, hstart, hfile⟩ := readLoop_nil m
    rw [List.flatten_nil, hloop] at hit
    rw [List.mem_singleton.mp hit]
    refine ⟨pre.length, ?_, ?_⟩
    · rw [hstart, List.drop_of_length_le (by simp), List.flatten_nil]
    · rw [hfile, List.drop_of_length_le (by simp), List.flatten_nil]
  | cons fr frs ih =>
    intro pre m it hit
    rw [List.flatten_cons, readLoop_ipv4 (hfrs fr List.mem_cons_self)] at hit
    rcases List.mem_cons.mp hit with rfl | hit
    · refine ⟨pre.length, ?_, ?_⟩
      · rw [List.drop_left, List.flatten_cons]
      · rw [List.drop_length_add_append, List.drop_one, List.tail_cons]
    · have hrest := ih (fun g hg => hfrs g (List.mem_cons_of_mem _ hg)) (pre ++ [fr]) _ it hit
      rwa [List.append_assoc, List.singleton_append] at hrest

/-- The first IPv6 frame of a file. -/
theorem exists_first_ipv6 {frames : List Bytes}
    (hframes : ∀ fr ∈ frames, Ipv4Frame fr ∨ Ipv6Frame fr) (h : ∃ fr ∈ frames, Ipv6Frame fr) :
    ∃ pre fr post, frames = pre ++ fr :: post ∧ (∀ g ∈ pre, Ipv4Frame g) ∧ Ipv6Frame fr := by
  induction frames with
  | nil =>
    obtain ⟨fr, hfr, -⟩ := h
    exact absurd hfr List.not_mem_nil
  | cons fr frs ih =>
    by_cases hfr : Ipv6Frame fr
    · exact ⟨[], fr, frs, rfl, fun g hg => absurd hg List.not_mem_nil, hfr⟩
    · have hrest : ∃ g ∈ frs, Ipv6Frame g := by
        obtain ⟨g, hg, hg6⟩ := h
        rcases List.mem_cons.mp hg with rfl | hg
        · exact absurd hg6 hfr
        · exact ⟨g, hg, hg6⟩
      obtain ⟨pre, g, post, rfl, hpre, hg⟩ :=
        ih (fun g hg => hframes g (List.mem_cons_of_mem _ hg)) hrest
      refine ⟨fr :: pre, g, post, rfl, fun g' hg' => ?_, hg⟩
      rcases List.mem_cons.mp hg' with rfl | hg'
      · exact (hframes g' List.mem_cons_self).resolve_right hfr
      · exact hpre g' hg'

/-- After the Ethernet header of an IPv6 frame the loop goes on within that frame. -/
theorem exists_within_ipv6 {pre : List Bytes} (hpre : ∀ g ∈ pre, Ipv4Frame g) {fr : Bytes}
    (hfr : Ipv6Frame fr) (post : List Bytes) :
    ∀ m : Mem, ∃ it ∈ readLoop m ⟨(pre ++ fr :: post).flatten, false⟩,
      it.start.rest = fr.drop 14 ++ post.flatten := by
  induction pre with
  | nil =>
    intro m
    refine ⟨readFrame (m.store 0 (fr.take 14)) ⟨fr.drop 14 ++ post.flatten, false⟩, ?_,
      by rw [readFrame_start]⟩
    rw [List.nil_append, List.flatten_cons, readLoop_eq, if_neg (by simp), readFrame_ipv6 hfr,
      readLoop_eq (m.store 0 (fr.take 14)), if_neg (by simp)]
    exact List.mem_cons_of_mem _ List.mem_cons_self
  | cons g pre ih =>
    intro m
    obtain ⟨it, hit, hstart⟩ := ih (fun g' hg' => hpre g' (List.mem_cons_of_mem _ hg')) (m.store 0 g)
    refine ⟨it, ?_, hstart⟩
    rw [List.cons_append, List.flatten_cons, readLoop_ipv4 (hpre g List.mem_cons_self)]
    exact List.mem_cons_of_mem _ hit

/-- No frame starts there. -/
theorem within_ne_drop {pre post : List Bytes} {fr : Bytes} (hfr : 14 < fr.length) (k : Nat) :
    fr.drop 14 ++ post.flatten ≠ ((pre ++ fr :: post).drop k).flatten := by
  have hsuffix : ∀ (l : List Bytes) n, (l.drop n).flatten.length ≤ l.flatten.length := by
    intro l n
    conv_rhs => rw [← List.take_append_drop n l, List.flatten_append, List.length_append]
    exact Nat.le_add_left _ _
  intro h
  have hlen := congrArg List.length h
  rw [List.length_append, List.length_drop] at hlen
  by_cases hk : k ≤ pre.length
  · rw [List.drop_append_of_le_length hk, List.flatten_append, List.flatten_cons,
      List.length_append, List.length_append] at hlen
    omega
  · obtain ⟨n, rfl⟩ := Nat.exists_eq_add_of_le (Nat.succ_le_of_lt (not_le.mp hk))
    have hdrop : (pre ++ fr :: post).drop (pre.length.succ + n) = post.drop n := by
      rw [Nat.succ_add, ← Nat.add_succ, List.drop_length_add_append, List.drop_succ_cons]
    rw [hdrop] at hlen
    have hpost := hsuffix post n
    omega

theorem not_aligned_of_ipv6 {pre : List Bytes} (hpre : ∀ g ∈ pre, Ipv4Frame g) {fr : Bytes}
    (hfr : Ipv6Frame fr) (post : List Bytes) (tmp1 : Mem) :
    ¬ Aligned tmp1 (pre ++ fr :: post) := by
  intro haligned
  obtain ⟨it, hit, hstart⟩ := exists_within_ipv6 hpre hfr post tmp1
  obtain ⟨k, hk, -⟩ := haligned it hit
  have hlen := hfr.plen
  exact within_ne_drop (by omega) k (hstart.symm.trans hk)

/-- **When every iteration starts at a frame.**  For every file of complete IPv4 and IPv6
frames in any order, whatever the array held before: exactly if there is no IPv6 frame. -/
theorem aligned_iff {frames : List Bytes}
    (hframes : ∀ fr ∈ frames, Ipv4Frame fr ∨ Ipv6Frame fr) (tmp1 : Mem) :
    Aligned tmp1 frames ↔ ∀ fr ∈ frames, ¬ Ipv6Frame fr := by
  constructor
  · intro haligned fr₀ hfr₀ hipv6
    obtain ⟨pre, fr, post, rfl, hpre, hfr⟩ := exists_first_ipv6 hframes ⟨fr₀, hfr₀, hipv6⟩
    exact not_aligned_of_ipv6 hpre hfr post tmp1 haligned
  · intro hnone it hit
    exact inStep_ipv4 (fun fr hfr => (hframes fr hfr).resolve_right (hnone fr hfr)) [] tmp1 it hit

/-- An IPv4 frame without payload. -/
def ipv4Sample : Bytes :=
  List.replicate 12 0 ++ [0x08, 0x00, 0x45, 0x00, 0x00, 20] ++ List.replicate 16 0

/-- An IPv6 frame without payload. -/
def ipv6Sample : Bytes := List.replicate 12 0 ++ [0x86, 0xdd] ++ List.replicate 40 0

theorem ipv4Frame_sample : Ipv4Frame ipv4Sample where
  ether_type := by decide
  tot_len := by decide
  header := by decide
  fits := by decide

theorem ipv6Frame_sample : Ipv6Frame ipv6Sample where
  ether_type := by decide
  plen := by decide
  fits := by decide

theorem aligned_iff_sample : Aligned (fun _ => 0) [ipv4Sample, ipv6Sample] ↔
    ∀ fr ∈ [ipv4Sample, ipv6Sample], ¬ Ipv6Frame fr := by
  refine aligned_iff (fun fr hfr => ?_) _
  rcases List.mem_pair.mp hfr with rfl | rfl
  · exact Or.inl ipv4Frame_sample
  · exact Or.inr ipv6Frame_sample

/-- A file with one IPv6 frame. -/
theorem not_aligned_ipv6Sample : ¬ Aligned (fun _ => 0) [ipv6Sample] :=
  not_aligned_of_ipv6 (fun _ hg => absurd hg List.not_mem_nil) ipv6Frame_sample [] _

/-! ## Every frame once -/

/-- `Work` is called once for each frame, with its bytes. -/
def FramesOnce (tmp1 : Mem) (frames : List Bytes) (tail : Bytes) : Prop :=
  List.Forall₂ (fun msg fr => msg.Holds 0 fr) (workCalls tmp1 (frames.flatten ++ tail)) frames

/-- The start of an IPv4 frame, or nothing. -/
def Cut (tail : Bytes) : Prop := ∃ fr, Ipv4Frame fr ∧ tail <+: fr ∧ tail ≠ fr

/-- The calls of `Work` of some iterations. -/
def worksOf (its : List Iteration) : List Mem :=
  its.filterMap fun it => if it.work then some it.tmp1 else none

theorem isIpv4_iff_bytes (m : Mem) : isIpv4 m = true ↔ (m 12).toNat = 8 ∧ (m 13).toNat = 0 := by
  have hlow := (m 13).toNat_lt
  have hfield : (ntohs (ld16 m 12)).toNat = 256 * (m 12).toNat + (m 13).toNat :=
    toNat_ntohs_ld16 m 12
  rw [isIpv4_iff, hfield]
  omega

/-- An array that holds an IPv4 frame shows its type. -/
theorem isIpv4_of_holds {m : Mem} {fr : Bytes} (hfr : Ipv4Frame fr) (h : m.Holds 0 fr) :
    isIpv4 m = true := by
  have htype : 256 * (fr.getD 12 0).toNat + (fr.getD 13 0).toNat = 0x0800 := hfr.ether_type
  have htot := hfr.tot_len
  have hhead := hfr.header
  have hget : ∀ j, j < fr.length → m j = fr.getD j 0 := by
    intro j hj
    rw [List.getD_eq_getElem _ _ hj, ← h.get hj, Nat.zero_add]
  have hlow := (fr.getD 13 0).toNat_lt
  rw [isIpv4_iff_bytes, hget 12 (by omega), hget 13 (by omega)]
  omega

/-- Where the start of an IPv4 frame is stored over another one, the type stays. -/
theorem isIpv4_store {m : Mem} (hm : isIpv4 m = true) {fr tail : Bytes} (hfr : Ipv4Frame fr)
    (htail : tail <+: fr) : isIpv4 (m.store 0 tail) = true := by
  obtain ⟨rest, rfl⟩ := htail
  have htype : 256 * ((tail ++ rest).getD 12 0).toNat + ((tail ++ rest).getD 13 0).toNat =
      0x0800 := hfr.ether_type
  have hget : ∀ j, j < tail.length → m.store 0 tail j = (tail ++ rest).getD j 0 := by
    intro j hj
    have hstore := Mem.store_get m 0 hj
    rw [Nat.zero_add] at hstore
    rw [hstore, List.getD_append _ _ _ _ hj, List.getD_eq_getElem _ _ hj]
  have hkeep : ∀ j, ¬ j < tail.length → m.store 0 tail j = m j :=
    fun j hj => Mem.store_of_le m (by omega)
  have hlow := ((tail ++ rest).getD 13 0).toNat_lt
  rw [isIpv4_iff_bytes] at hm ⊢
  constructor
  · by_cases h : 12 < tail.length
    · rw [hget 12 h]
      omega
    · rw [hkeep 12 h, hm.1]
  · by_cases h : 13 < tail.length
    · rw [hget 13 h]
      omega
    · rw [hkeep 13 h, hm.2]

/-- **What the loop does at the end of the file**: if the array shows the type of an IPv4
frame, `Work` is called once more. -/
theorem readLoop_cut {m : Mem} {tail : Bytes} (htail : Cut tail)
    (hm : isIpv4 (m.store 0 (tail.take 14)) = true) :
    ∃ it, readLoop m ⟨tail, false⟩ = [it] ∧ it.work = true := by
  obtain ⟨fr, ⟨htype, htot, hhead, hfits⟩, ⟨rest, rfl⟩, hne⟩ := htail
  have hrest : 0 < rest.length := by
    rw [List.length_pos_iff]
    rintro rfl
    exact hne (List.append_nil tail).symm
  rw [List.length_append] at htot
  have h₁ : (CFile.fread ⟨tail, false⟩ m 0 14).1 = m.store 0 (tail.take 14) := rfl
  have hdone : (readFrame m ⟨tail, false⟩).work = true ∧
      (readFrame m ⟨tail, false⟩).file.eof = true := by
    unfold readFrame
    simp only [h₁, if_pos hm, true_and]
    by_cases hshort : tail.length < 14
    · refine CFile.eof_fread _ _ (CFile.eof_fread _ _ ?_ _) _
      rw [CFile.fread_short m 0 hshort]
    obtain ⟨a, q, rfl, ha⟩ : ∃ a q, tail = a ++ q ∧ a.length = 14 :=
      ⟨tail.take 14, tail.drop 14, (List.take_append_drop ..).symm,
        by rw [List.length_take]; omega⟩
    rw [CFile.fread_append m 0 rfl ha.symm, ← ha, List.take_left, ha]
    by_cases hshort' : q.length < 20
    · refine CFile.eof_fread _ _ ?_ _
      rw [CFile.fread_short _ 14 hshort']
    obtain ⟨b, p, rfl, hb⟩ : ∃ b p, q = b ++ p ∧ b.length = 20 :=
      ⟨q.take 20, q.drop 20, (List.take_append_drop ..).symm, by rw [List.length_take]; omega⟩
    have hab : 16 + 1 < (a ++ b).length := by rw [List.length_append]; omega
    have hlen : (ntohs (ld16 (m.store 0 (a ++ b)) 16)).toNat = be16 (a ++ (b ++ p) ++ rest) 16 := by
      rw [toNat_ntohs_store m hab, ← List.append_assoc a b p, List.append_assoc (a ++ b),
        be16_append _ _ hab]
    rw [CFile.fread_append (m.store 0 a) 14 rfl hb.symm, Mem.store_next m ha]
    simp only [hlen]
    simp only [List.length_append] at htot hshort hshort'
    have hlonger : p.length < sizeT ((be16 (a ++ (b ++ p) ++ rest) 16 : Nat) - 20) := by
      rw [sizeT_of_nonneg (by omega) (by omega)]
      omega
    rw [CFile.fread_short _ 34 hlonger]
  refine ⟨readFrame m ⟨tail, false⟩, ?_, hdone.1⟩
  rw [readLoop_eq, if_neg (by simp), readLoop_eq, if_pos hdone.2]

/-- Where the file breaks off in an Ethernet header, the rest of the array stays. -/
theorem tmp1_readFrame {m : Mem} {tail : Bytes} (hlen : tail.length ≤ 14)
    (hm : isIpv4 (m.store 0 tail) = true) :
    (readFrame m ⟨tail, false⟩).tmp1 = m.store 0 tail := by
  have hhead : (CFile.fread ⟨tail, false⟩ m 0 14).1 = m.store 0 tail := by
    rw [CFile.fread_fst, List.take_of_length_le hlen]
  have hempty : (CFile.fread ⟨tail, false⟩ m 0 14).2.rest = [] := by
    rw [CFile.rest_fread, List.drop_of_length_le hlen]
  have hkeep : ∀ (f : CFile) (m : Mem) (off size : Nat), f.rest = [] →
      (f.fread m off size).1 = m ∧ (f.fread m off size).2.rest = [] := by
    intro f m off size hf
    rw [CFile.fread_fst, CFile.rest_fread, hf, List.take_nil, List.drop_nil]
    exact ⟨Mem.store_nil .., rfl⟩
  unfold readFrame
  simp only [hhead, if_pos hm]
  obtain ⟨hfst, hrest⟩ := hkeep _ (m.store 0 tail) 14 20 hempty
  rw [(hkeep _ _ 34 _ hrest).1, hfst]

/-- What the calls for complete frames get, and the array they leave, with the last frame. -/
theorem worksOf_frames {frames : List Bytes} (hframes : ∀ fr ∈ frames, Ipv4Frame fr)
    (hne : frames ≠ []) (tail : Bytes) : ∀ m : Mem, ∃ msgs m',
      worksOf (readLoop m ⟨frames.flatten ++ tail, false⟩) =
        msgs ++ worksOf (readLoop m' ⟨tail, false⟩) ∧
      List.Forall₂ (fun (msg : Mem) fr => msg.Holds 0 fr) msgs frames ∧
      m'.Holds 0 (frames.getLast hne) := by
  induction frames with
  | nil => exact absurd rfl hne
  | cons fr frs ih =>
    intro m
    have hfr := hframes fr List.mem_cons_self
    have hholds : (m.store 0 fr).Holds 0 fr := Mem.holds_store m 0 fr
    have hfirst : worksOf (readLoop m ⟨(fr :: frs).flatten ++ tail, false⟩) =
        m.store 0 fr :: worksOf (readLoop (m.store 0 fr) ⟨frs.flatten ++ tail, false⟩) := by
      rw [List.flatten_cons, List.append_assoc, readLoop_ipv4 hfr]
      rfl
    rw [hfirst]
    by_cases hfrs : frs = []
    · subst hfrs
      exact ⟨[m.store 0 fr], m.store 0 fr, rfl, .cons hholds .nil, hholds⟩
    · obtain ⟨msgs, m', hworks, hmsgs, hlast⟩ :=
        ih (fun g hg => hframes g (List.mem_cons_of_mem _ hg)) hfrs (m.store 0 fr)
      refine ⟨m.store 0 fr :: msgs, m', by rw [hworks]; rfl, .cons hholds hmsgs, ?_⟩
      rwa [List.getLast_cons hfrs]

/-- **The calls of `Work` for a file that goes on behind its frames**: one for each frame, with
its bytes at the start of the array, and one more; where the file breaks off in an Ethernet
header, that is the last frame again under the start of this header. -/
theorem workCalls_tail {frames : List Bytes} (hframes : ∀ fr ∈ frames, Ipv4Frame fr)
    (hne : frames ≠ []) {tail : Bytes} (htail : Cut tail) (tmp1 : Mem) : ∃ msgs last,
      workCalls tmp1 (frames.flatten ++ tail) = msgs ++ [last] ∧
      List.Forall₂ (fun (msg : Mem) fr => msg.Holds 0 fr) msgs frames ∧
      (tail.length ≤ 14 → ∃ m : Mem, m.Holds 0 (frames.getLast hne) ∧ last = m.store 0 tail) := by
  obtain ⟨msgs, m, hworks, hmsgs, hlast⟩ := worksOf_frames hframes hne tail tmp1
  have htype : isIpv4 m = true := isIpv4_of_holds (hframes _ (List.getLast_mem hne)) hlast
  obtain ⟨fr, hfr, hprefix, -⟩ := id htail
  have hcut : isIpv4 (m.store 0 (tail.take 14)) = true :=
    isIpv4_store htype hfr ((List.take_prefix 14 tail).trans hprefix)
  obtain ⟨it, hloop, hwork⟩ := readLoop_cut htail hcut
  have hit : readFrame m ⟨tail, false⟩ = it := by
    rw [readLoop_eq, if_neg (by simp)] at hloop
    exact (List.cons.inj hloop).1
  refine ⟨msgs, it.tmp1, ?_, hmsgs, fun hlen => ⟨m, hlast, ?_⟩⟩
  · show worksOf (readLoop tmp1 ⟨frames.flatten ++ tail, false⟩) = _
    rw [hworks, hloop]
    simp [worksOf, hwork]
  · rw [List.take_of_length_le hlen] at hcut
    rw [← hit, tmp1_readFrame hlen hcut]

/-- **The calls of `Work` for a file with a complete frame**: one for each frame, and one
more at the end of the file. -/
theorem length_workCalls {frames : List Bytes} (hframes : ∀ fr ∈ frames, Ipv4Frame fr)
    (hne : frames ≠ []) {tail : Bytes} (htail : Cut tail) (tmp1 : Mem) :
    (workCalls tmp1 (frames.flatten ++ tail)).length = frames.length + 1 := by
  obtain ⟨msgs, last, hcalls, hmsgs, -⟩ := workCalls_tail hframes hne htail tmp1
  rw [hcalls, List.length_append, hmsgs.length_eq, List.length_singleton]

/-- A complete Ethernet header of an IPv4 frame is recognised. -/
theorem isIpv4_head {m : Mem} {tail : Bytes} (htail : Cut tail) (hlen : 14 ≤ tail.length) :
    isIpv4 (m.store 0 (tail.take 14)) = true := by
  obtain ⟨fr, hfr, ⟨rest, rfl⟩, -⟩ := htail
  have hhead : (tail.take 14).length = 14 := by rw [List.length_take]; omega
  rw [isIpv4_iff, toNat_ntohs_store m (by omega), ← hfr.ether_type,
    be16_append _ rest (by omega), ← be16_append _ (tail.drop 14) (by omega),
    List.take_append_drop]

/-- The loop takes the header for that of a packet. -/
def recognised (head : Mem) : Bool := isIpv4 head || isIpv6 head

/-- For a file without a complete frame `Work` is called unless the header the array then
shows is not recognised. -/
theorem workCalls_cut {tail : Bytes} (htail : Cut tail) (tmp1 : Mem) :
    workCalls tmp1 tail = [] ↔ recognised (tmp1.store 0 (tail.take 14)) = false := by
  have hhead : (CFile.fread ⟨tail, false⟩ tmp1 0 14).1 = tmp1.store 0 (tail.take 14) := rfl
  show worksOf (readLoop tmp1 ⟨tail, false⟩) = [] ↔ _
  cases hipv4 : isIpv4 (tmp1.store 0 (tail.take 14)) with
  | true =>
    obtain ⟨it, hloop, hwork⟩ := readLoop_cut htail hipv4
    rw [hloop]
    simp [worksOf, hwork, recognised, hipv4]
  | false =>
    have hshort : tail.length < 14 := by
      by_contra hlen
      rw [isIpv4_head htail (not_lt.mp hlen)] at hipv4
      exact absurd hipv4 (by simp)
    have heof : (readFrame tmp1 ⟨tail, false⟩).file.eof = true :=
      (readFrame_rest_le tmp1 ⟨tail, false⟩).2 (by rw [CFile.fread_short _ _ hshort])
    have hwork : (readFrame tmp1 ⟨tail, false⟩).work = isIpv6 (tmp1.store 0 (tail.take 14)) := by
      unfold readFrame
      simp only [hhead, hipv4]
      cases isIpv6 (tmp1.store 0 (tail.take 14)) <;> rfl
    rw [readLoop_eq, if_neg (by simp), readLoop_eq, if_pos heof]
    cases hipv6 : isIpv6 (tmp1.store 0 (tail.take 14)) <;>
      simp [worksOf, hwork, recognised, hipv4, hipv6]

/-- **When every frame is given to `Work` once.**  For every file of complete IPv4 frames
followed by the start of one or by nothing, whatever the array held before: exactly if there
is no complete frame and the header that the array then shows is not recognised. -/
theorem framesOnce_iff {frames : List Bytes} (hframes : ∀ fr ∈ frames, Ipv4Frame fr)
    {tail : Bytes} (htail : Cut tail) (tmp1 : Mem) :
    FramesOnce tmp1 frames tail ↔
      frames = [] ∧ recognised (tmp1.store 0 (tail.take 14)) = false := by
  by_cases hne : frames = []
  · subst hne
    rw [← workCalls_cut htail tmp1]
    unfold FramesOnce
    rw [List.flatten_nil, List.nil_append, List.forall₂_nil_right_iff]
    simp
  · refine iff_of_false (fun honce => ?_) fun h => hne h.1
    have hlen := length_workCalls hframes hne htail tmp1
    have heq := honce.length_eq
    omega

/-- One complete frame. -/
theorem framesOnce_iff_sample : FramesOnce (fun _ => 0) [ipv4Sample] [] ↔
    [ipv4Sample] = [] ∧ recognised (Mem.store (fun _ => 0) 0 ([].take 14)) = false :=
  framesOnce_iff (fun _ hfr => List.mem_singleton.mp hfr ▸ ipv4Frame_sample)
    ⟨ipv4Sample, ipv4Frame_sample, List.nil_prefix, by decide⟩ _

/-- It is given to `Work` twice. -/
theorem not_framesOnce_sample : Ipv4Frame ipv4Sample ∧
    ¬ FramesOnce (fun _ => 0) [ipv4Sample] [] := by
  refine ⟨ipv4Frame_sample, fun honce => ?_⟩
  have hlen : (workCalls (fun _ => 0) ([ipv4Sample].flatten ++ [])).length = 2 := by
    decide +kernel
  have heq := honce.length_eq
  rw [hlen] at heq
  exact absurd heq (by decide)

end HttpDecoder
