import HttpDecoder.Capture
import HttpDecoder.DataLength

/-!
# TCP frames, written out and read back

`Format` walks over the headers of a frame by their length fields.

* `net16`, `net32` — fields in network byte order; `ntohs_of_holds`, `ntohl_of_holds` — they are
  read back.
* `TcpFrame`, `TcpFrame.bytes` — the parts of a frame, options included, and the frame.
* `TcpFrame.laid` — where the parts lie in memory.
* `TcpFrame.ReadBy` — what the decoder reads are these parts; `readBy_format` — **`Format` reads
  them back**.
* `workCalls_ipv4`, `capture_roundTrip` — so does **the read loop with a whole capture file**.
-/

namespace HttpDecoder

open CLib CHandle

/-! ## Network byte order -/

/-- A 16-bit field, the high byte first. -/
def net16 (n : UInt16) : Bytes := [UInt8.ofNat (n.toNat / 256), UInt8.ofNat n.toNat]

/-- A 32-bit field, the high byte first. -/
def net32 (n : UInt32) : Bytes :=
  [UInt8.ofNat (n.toNat / 16777216), UInt8.ofNat (n.toNat / 65536), UInt8.ofNat (n.toNat / 256),
    UInt8.ofNat n.toNat]

@[simp] theorem length_net16 (n : UInt16) : (net16 n).length = 2 := rfl

@[simp] theorem length_net32 (n : UInt32) : (net32 n).length = 4 := rfl

section Fields

variable {m : Mem} {i : Nat}

/-- A 16-bit field is read back. -/
theorem ntohs_of_holds {n : UInt16} (h : m.Holds i (net16 n)) : ntohs (ld16 m i) = n := by
  have hn := n.toNat_lt
  obtain ⟨h₀, h⟩ := Mem.holds_cons.mp h
  obtain ⟨h₁, -⟩ := Mem.holds_cons.mp h
  apply UInt16.toNat_inj.mp
  rw [toNat_ntohs_ld16, h₀, h₁, UInt8.toNat_ofNat', UInt8.toNat_ofNat']
  omega

/-- A 32-bit field is read back. -/
theorem ntohl_of_holds {n : UInt32} (h : m.Holds i (net32 n)) : ntohl (ld32 m i) = n := by
  have hn := n.toNat_lt
  obtain ⟨h₀, h⟩ := Mem.holds_cons.mp h
  obtain ⟨h₁, h⟩ := Mem.holds_cons.mp h
  obtain ⟨h₂, h⟩ := Mem.holds_cons.mp h
  obtain ⟨h₃, -⟩ := Mem.holds_cons.mp h
  change m (i + 2) = _ at h₂
  change m (i + 3) = _ at h₃
  have hb₀ := (m i).toNat_lt
  have hb₁ := (m (i + 1)).toNat_lt
  have hb₂ := (m (i + 2)).toNat_lt
  have hb₃ := (m (i + 3)).toNat_lt
  have hload : (ld32 m i).toNat = (m i).toNat + 256 * (m (i + 1)).toNat +
      65536 * (m (i + 2)).toNat + 16777216 * (m (i + 3)).toNat := by
    unfold ld32
    rw [UInt32.toNat_ofNat', Nat.mod_eq_of_lt (by omega)]
  apply UInt32.toNat_inj.mp
  rw [toNat_ntohl hb₀ hb₁ hb₂ hb₃ hload, h₀, h₁, h₂, h₃, UInt8.toNat_ofNat', UInt8.toNat_ofNat',
    UInt8.toNat_ofNat', UInt8.toNat_ofNat']
  omega

end Fields

/-! ## Frames -/

/-- The parts of a TCP frame.  What the decoder does not look at is kept as bytes. -/
structure TcpFrame where
  /-- The addresses of the Ethernet header. -/
  ether : Bytes
  ether_length : ether.length = 12
  /-- The type of service. -/
  tos : UInt8
  /-- The identification and the fragment offset. -/
  ident : Bytes
  ident_length : ident.length = 4
  /-- The time to live. -/
  ttl : UInt8
  ipCheck : Bytes
  ipCheck_length : ipCheck.length = 2
  src : Endpoint
  dst : Endpoint
  ipOptions : Bytes
  /-- Up to ten words, as those of the TCP header. -/
  ipOptions_words : ipOptions.length % 4 = 0 ∧ ipOptions.length ≤ 40
  seqNo : UInt32
  ackSeqNo : UInt32
  reserved : Fin 16
  fin : Bool
  syn : Bool
  rst : Bool
  /-- The other five flags. -/
  others : Fin 32
  /-- The window, the checksum and the urgent pointer. -/
  window : Bytes
  window_length : window.length = 6
  tcpOptions : Bytes
  tcpOptions_words : tcpOptions.length % 4 = 0 ∧ tcpOptions.length ≤ 40
  payload : Bytes

namespace TcpFrame

variable (f : TcpFrame)

/-- The length of the IP header in words. -/
def ihl : Nat := 5 + f.ipOptions.length / 4

/-- The length of the TCP header in words. -/
def doff : Nat := 5 + f.tcpOptions.length / 4

/-- What `tot_len` counts. -/
def totLen : Nat := 4 * f.ihl + 4 * f.doff + f.payload.length

/-- The byte of the flags. -/
def flags : Nat := f.fin.toNat + 2 * f.syn.toNat + 4 * f.rst.toNat + 8 * f.others

/-- The IP header. -/
def ipHeader : Bytes :=
  [UInt8.ofNat (64 + f.ihl), f.tos] ++ net16 (UInt16.ofNat f.totLen) ++ f.ident ++
    [f.ttl, CFormatPacket.ipprotoTcp] ++ f.ipCheck ++ net32 f.src.ip ++ net32 f.dst.ip ++
    f.ipOptions

/-- The TCP header. -/
def tcpHeader : Bytes :=
  net16 f.src.port ++ net16 f.dst.port ++ net32 f.seqNo ++ net32 f.ackSeqNo ++
    [UInt8.ofNat (16 * f.doff + f.reserved), UInt8.ofNat f.flags] ++ f.window ++ f.tcpOptions

/-- The frame. -/
def bytes : Bytes := f.ether ++ [0x08, 0x00] ++ f.ipHeader ++ f.tcpHeader ++ f.payload

theorem length_ipHeader : f.ipHeader.length = 4 * f.ihl := by
  obtain ⟨hwords, -⟩ := f.ipOptions_words
  simp only [ipHeader, ihl, List.length_append, List.length_cons, List.length_nil, length_net16,
    length_net32, f.ident_length, f.ipCheck_length]
  omega

theorem length_tcpHeader : f.tcpHeader.length = 4 * f.doff := by
  obtain ⟨hwords, -⟩ := f.tcpOptions_words
  simp only [tcpHeader, doff, List.length_append, List.length_cons, List.length_nil, length_net16,
    length_net32, f.window_length]
  omega

theorem length_bytes : f.bytes.length = 14 + f.totLen := by
  simp only [bytes, totLen, List.length_append, List.length_cons, List.length_nil, f.ether_length,
    f.length_ipHeader, f.length_tcpHeader]
  omega

theorem ihl_lt : f.ihl < 16 := by
  obtain ⟨-, hle⟩ := f.ipOptions_words
  unfold ihl
  omega

theorem doff_lt : f.doff < 16 := by
  obtain ⟨-, hle⟩ := f.tcpOptions_words
  unfold doff
  omega

theorem flags_lt : f.flags < 256 := by
  have hfin := f.fin.toNat_le
  have hsyn := f.syn.toNat_le
  have hrst := f.rst.toNat_le
  have hothers := f.others.isLt
  unfold flags
  omega

/-- The parts that the decoder reads, where they lie in memory. -/
structure Laid (m : Mem) : Prop where
  ether_type : (m 12).toNat = 8 ∧ (m 13).toNat = 0
  ihl : (m 14).toNat = 64 + f.ihl
  totLen : m.Holds 16 (net16 (UInt16.ofNat f.totLen))
  protocol : m 23 = CFormatPacket.ipprotoTcp
  saddr : m.Holds 26 (net32 f.src.ip)
  daddr : m.Holds 30 (net32 f.dst.ip)
  source : m.Holds (14 + f.ihl * 4) (net16 f.src.port)
  dest : m.Holds (14 + f.ihl * 4 + 2) (net16 f.dst.port)
  seq : m.Holds (14 + f.ihl * 4 + 4) (net32 f.seqNo)
  ackSeq : m.Holds (14 + f.ihl * 4 + 8) (net32 f.ackSeqNo)
  doff : (m (14 + f.ihl * 4 + 12)).toNat = 16 * f.doff + f.reserved
  flags : (m (14 + f.ihl * 4 + 13)).toNat = f.flags
  payload : m.Holds (14 + (f.ihl * 4 + f.doff * 4)) f.payload

variable {f}

/-- **The parts of a frame lie where the length fields say.** -/
theorem laid {m : Mem} (h : m.Holds 0 f.bytes) : f.Laid m := by
  have hihl := f.ihl_lt
  have hdoff := f.doff_lt
  have hreserved := f.reserved.isLt
  simp only [bytes, Mem.holds_append, List.length_append, List.length_cons, List.length_nil,
    f.ether_length, f.length_ipHeader, f.length_tcpHeader, Nat.zero_add] at h
  obtain ⟨⟨⟨⟨-, htype⟩, hip⟩, htcp⟩, hpayload⟩ := h
  simp only [ipHeader, Mem.holds_append, List.length_append, List.length_cons, List.length_nil,
    length_net16, length_net32, f.ident_length, f.ipCheck_length] at hip
  obtain ⟨⟨⟨⟨⟨⟨⟨hfirst, htot⟩, -⟩, hproto⟩, -⟩, hsaddr⟩, hdaddr⟩, -⟩ := hip
  simp only [tcpHeader, Mem.holds_append, List.length_append, List.length_cons, List.length_nil,
    length_net16, length_net32, f.window_length] at htcp
  obtain ⟨⟨⟨⟨⟨⟨hsource, hdest⟩, hseq⟩, hack⟩, hlast⟩, -⟩, -⟩ := htcp
  obtain ⟨htype₁, htype⟩ := Mem.holds_cons.mp htype
  obtain ⟨htype₂, -⟩ := Mem.holds_cons.mp htype
  obtain ⟨hfirst, -⟩ := Mem.holds_cons.mp hfirst
  obtain ⟨-, hproto⟩ := Mem.holds_cons.mp hproto
  obtain ⟨hproto, -⟩ := Mem.holds_cons.mp hproto
  obtain ⟨hlast₁, hlast⟩ := Mem.holds_cons.mp hlast
  obtain ⟨hlast₂, -⟩ := Mem.holds_cons.mp hlast
  have hword : 14 + f.ihl * 4 = 12 + (0 + 1 + 1) + 4 * f.ihl := by omega
  refine ⟨⟨by rw [htype₁]; rfl, by rw [htype₂]; rfl⟩, ?_, htot, hproto, hsaddr, hdaddr,
    ?_, ?_, ?_, ?_, ?_, ?_, ?_⟩
  · rw [hfirst, UInt8.toNat_ofNat', Nat.mod_eq_of_lt (by omega)]
  · rw [hword]
    exact hsource
  · rw [hword]
    exact hdest
  · rw [hword]
    exact hseq
  · rw [hword]
    exact hack
  · rw [hword]
    exact (congrArg UInt8.toNat hlast₁).trans
      (by rw [UInt8.toNat_ofNat', Nat.mod_eq_of_lt (by omega)])
  · rw [hword]
    exact (congrArg UInt8.toNat hlast₂).trans
      (by rw [UInt8.toNat_ofNat', Nat.mod_eq_of_lt f.flags_lt])
  · rw [show 14 + (f.ihl * 4 + f.doff * 4) = 12 + (0 + 1 + 1) + 4 * f.ihl + 4 * f.doff by omega]
    exact hpayload

/-! ## Reading them back -/

variable (f) in
/-- What the decoder reads of a packet are the parts of the frame. -/
structure ReadBy (p : CFormatPacket) : Prop where
  protocol : p.iphdr.protocol = CFormatPacket.ipprotoTcp
  src : p.src = f.src
  dst : p.dst = f.dst
  seqNo : p.seqNo = f.seqNo
  ackSeqNo : p.ackSeqNo = f.ackSeqNo
  fin : p.tcphdr.fin = f.fin
  rst : p.tcphdr.rst = f.rst
  dataLen : p.dataLen = f.payload.length
  payload : p.payload = f.payload

/-- The flags are read back from their byte. -/
theorem flags_bits : decide (f.flags % 2 = 1) = f.fin ∧ decide (f.flags / 4 % 2 = 1) = f.rst := by
  unfold flags
  have hsyn := f.syn.toNat_le
  cases f.fin <;> cases f.rst <;> simp only [Bool.toNat_true, Bool.toNat_false, decide_eq_true_eq,
    decide_eq_false_iff_not] <;> omega

/-- **`Format` reads the parts of a frame back**, whatever options its headers have. -/
theorem readBy_format {m : Mem} (h : m.Holds 0 f.bytes) (hsmall : f.totLen < 2 ^ 15)
    (now : TimeVal) : f.ReadBy (CFormatPacket.format m now) := by
  have hlaid := laid h
  have hdoff := f.doff_lt
  have hreserved := f.reserved.isLt
  have hihl : (m 14).toNat % 16 = f.ihl := by
    have hlt := f.ihl_lt
    rw [hlaid.ihl]
    omega
  have htcp : (CFormatPacket.format m now).iphdr.protocol = CFormatPacket.ipprotoTcp :=
    hlaid.protocol
  have hdoff' : (m (14 + (m 14).toNat % 16 * 4 + 12)).toNat / 16 = f.doff := by
    rw [hihl, hlaid.doff]
    omega
  have htot : (ntohs (ld16 m 16)).toNat = f.totLen := by
    rw [ntohs_of_holds hlaid.totLen, UInt16.toNat_ofNat', Nat.mod_eq_of_lt (by omega)]
  have hlen : (CFormatPacket.format m now).payloadLen = f.payload.length := by
    show ((ntohs (ld16 m 16)).toNat : Int) - 4 * (((m 14).toNat % 16 : Nat) : Int) -
      4 * (((m (14 + (m 14).toNat % 16 * 4 + 12)).toNat / 16 : Nat) : Int) = _
    rw [htot, hdoff', hihl, totLen]
    push_cast
    ring
  have hbound : f.payload.length < 2 ^ 15 := by
    unfold totLen at hsmall
    omega
  refine ⟨htcp, ?_, ?_, ?_, ?_, ?_, ?_, ?_, ?_⟩
  · show (⟨ntohl (ld32 m 26), ntohs (ld16 m (14 + (m 14).toNat % 16 * 4))⟩ : Endpoint) = _
    rw [hihl, ntohl_of_holds hlaid.saddr, ntohs_of_holds hlaid.source]
  · show (⟨ntohl (ld32 m 30), ntohs (ld16 m (14 + (m 14).toNat % 16 * 4 + 2))⟩ : Endpoint) = _
    rw [hihl, ntohl_of_holds hlaid.daddr, ntohs_of_holds hlaid.dest]
  · show ntohl (ld32 m (14 + (m 14).toNat % 16 * 4 + 4)) = _
    rw [hihl, ntohl_of_holds hlaid.seq]
  · show ntohl (ld32 m (14 + (m 14).toNat % 16 * 4 + 8)) = _
    rw [hihl, ntohl_of_holds hlaid.ackSeq]
  · show decide ((m (14 + (m 14).toNat % 16 * 4 + 13)).toNat % 2 = 1) = _
    rw [hihl, hlaid.flags, flags_bits.1]
  · show decide ((m (14 + (m 14).toNat % 16 * 4 + 13)).toNat / 4 % 2 = 1) = _
    rw [hihl, hlaid.flags, flags_bits.2]
  · rw [CFormatPacket.dataLen_format htcp, hlen]
    unfold toInt16
    omega
  · have hsize := CFormatPacket.dataSize_format_of_nonneg htcp (by omega) (by omega)
    have hdata : (CFormatPacket.format m now).data = m.shift (14 + (f.ihl * 4 + f.doff * 4)) := by
      show m.shift (14 + (if (CFormatPacket.format m now).iphdr.protocol = _ then
        (m 14).toNat % 16 * 4 + (m (14 + (m 14).toNat % 16 * 4 + 12)).toNat / 16 * 4 else _)) = _
      rw [if_pos htcp, hdoff', hihl]
    have hsize' : (CFormatPacket.format m now).dataSize = f.payload.length := by omega
    rw [CFormatPacket.payload, hdata, hsize', Mem.read_shift, Nat.add_zero]
    exact hlaid.payload

/-- A frame that is not too long fits the array. -/
theorem ipv4Frame_bytes (hfits : f.totLen ≤ 1986) : Ipv4Frame f.bytes := by
  have hlaid : f.Laid fun i => f.bytes.getD i 0 := by
    refine laid (Mem.holds_iff_get.mpr fun i hi => ?_)
    show f.bytes.getD (0 + i) 0 = _
    rw [Nat.zero_add, List.getD_eq_getElem _ _ hi]
  have htot : be16 f.bytes 16 = f.totLen := by
    obtain ⟨h₀, h⟩ := Mem.holds_cons.mp hlaid.totLen
    obtain ⟨h₁, -⟩ := Mem.holds_cons.mp h
    unfold be16
    rw [h₀, h₁, UInt8.toNat_ofNat', UInt8.toNat_ofNat', UInt16.toNat_ofNat']
    omega
  have hlen := f.length_bytes
  refine ⟨?_, ?_, ?_, ?_⟩
  · obtain ⟨h₀, h₁⟩ := hlaid.ether_type
    unfold be16
    rw [h₀, h₁]
  · rw [htot, hlen]
  · rw [htot]
    unfold totLen ihl
    omega
  · rwa [htot]

end TcpFrame

/-! ## Whole capture files -/

/-- **The calls of `Work` for a file of IPv4 frames**: one for each frame, with its bytes at
the start of the array, and one more for the last. -/
theorem workCalls_ipv4 {frames : List Bytes} (hframes : ∀ fr ∈ frames, Ipv4Frame fr)
    (hne : frames ≠ []) : ∀ tmp1 : Mem, List.Forall₂ (fun (msg : Mem) fr => msg.Holds 0 fr)
      (workCalls tmp1 frames.flatten) (frames ++ [frames.getLast hne]) := by
  intro tmp1
  have hnil : Cut [] := by
    have hhead : Ipv4Frame (frames.head hne) := hframes _ (List.head_mem hne)
    refine ⟨frames.head hne, hhead, List.nil_prefix, fun hempty => ?_⟩
    have htot := hhead.tot_len
    rw [← hempty, List.length_nil] at htot
    omega
  obtain ⟨msgs, last, hcalls, hmsgs, hlast⟩ := workCalls_tail hframes hne hnil tmp1
  obtain ⟨m, hholds, rfl⟩ := hlast (Nat.zero_le _)
  rw [List.append_nil, Mem.store_nil] at hcalls
  rw [hcalls]
  exact List.rel_append hmsgs (.cons hholds .nil)

/-- Related arrays are formatted to related packets. -/
theorem forall₂_mapIdx {α β γ δ : Type*} {R : α → β → Prop} {Q : γ → δ → Prop} {l : List α}
    {l' : List β} (h : List.Forall₂ R l l') : ∀ {f : Nat → α → γ} {g : Nat → β → δ},
      (∀ i a b, R a b → Q (f i a) (g i b)) → List.Forall₂ Q (l.mapIdx f) (l'.mapIdx g) := by
  induction h with
  | nil => exact fun _ => .nil
  | cons hab _ ih =>
    intro f g hfg
    rw [List.mapIdx_cons, List.mapIdx_cons]
    exact .cons (hfg 0 _ _ hab) (ih fun i => hfg (i + 1))

/-- **A capture file is read back.**  For every file of TCP frames that fit the array, whatever
options they have, whatever the array held before and whatever the clock says: the packets that
`Process` is called with have exactly the parts of the frames, in order, and of the last one
again. -/
theorem capture_roundTrip {fs : List TcpFrame} (hfits : ∀ f ∈ fs, f.totLen ≤ 1986) (hne : fs ≠ [])
    (tmp1 : Mem) (supply : Nat → TimeVal × Env) :
    List.Forall₂ (fun x f => f.ReadBy x.packet)
      (arrivals supply (workCalls tmp1 (fs.flatMap TcpFrame.bytes))) (fs ++ [fs.getLast hne]) := by
  have hne' : fs.map TcpFrame.bytes ≠ [] := by simpa using hne
  have hframes : ∀ fr ∈ fs.map TcpFrame.bytes, Ipv4Frame fr := by
    intro fr hfr
    obtain ⟨f, hf, rfl⟩ := List.mem_map.mp hfr
    exact TcpFrame.ipv4Frame_bytes (hfits f hf)
  have hcalls := workCalls_ipv4 hframes hne' tmp1
  rw [List.getLast_map, ← List.map_singleton, ← List.map_append,
    List.forall₂_map_right_iff] at hcalls
  rw [List.flatMap_def]
  have hall : ∀ f ∈ fs ++ [fs.getLast hne], f.totLen ≤ 1986 := by
    intro f hf
    rcases List.mem_append.mp hf with hf | hf
    · exact hfits f hf
    · exact hfits f (List.mem_singleton.mp hf ▸ List.getLast_mem hne)
  have hboth := (List.forall₂_and_left _ _).mpr ⟨hall, hcalls.flip⟩
  have hself : (fs ++ [fs.getLast hne]).mapIdx (fun _ f => f) = fs ++ [fs.getLast hne] :=
    List.mapIdx_eq_iff.mpr fun i => by simp
  rw [← hself]
  refine forall₂_mapIdx hboth.flip fun i msg f hf => ?_
  have hfit : f.totLen ≤ 1986 := hf.1
  exact TcpFrame.readBy_format hf.2 (by omega) (supply i).1

/-- A frame with options in both headers. -/
def optionsFrame : TcpFrame where
  ether := List.replicate 12 0
  ether_length := rfl
  tos := 0
  ident := [0, 1, 64, 0]
  ident_length := rfl
  ttl := 64
  ipCheck := [0, 0]
  ipCheck_length := rfl
  src := ⟨1, 1000⟩
  dst := ⟨2, 80⟩
  ipOptions := [1, 1, 1, 0]
  ipOptions_words := by decide
  seqNo := 7
  ackSeqNo := 9
  reserved := 0
  fin := false
  syn := false
  rst := false
  others := 3
  window := [1, 0, 0, 0, 0, 0]
  window_length := rfl
  tcpOptions := [1, 1, 1, 1, 1, 1, 1, 0]
  tcpOptions_words := by decide
  payload := [71, 69, 84]

/-- A shorter one, back, without options. -/
def plainFrame : TcpFrame :=
  { optionsFrame with
    src := ⟨2, 80⟩
    dst := ⟨1, 1000⟩
    ipOptions := []
    ipOptions_words := by decide
    seqNo := 9
    tcpOptions := []
    tcpOptions_words := by decide
    payload := [72] }

/-- Both in a file: the second is read over the first, of which more is left in the array. -/
theorem capture_roundTrip_frames : List.Forall₂ (fun x f => TcpFrame.ReadBy f x.packet)
    (arrivals (fun _ => (⟨0, 0⟩, Env.granting 0))
      (workCalls (fun _ => 255) ([optionsFrame, plainFrame].flatMap TcpFrame.bytes)))
    [optionsFrame, plainFrame, plainFrame] := by
  have hfits : ∀ f ∈ [optionsFrame, plainFrame], f.totLen ≤ 1986 := by decide
  exact capture_roundTrip hfits (List.cons_ne_nil _ _) _ _

end HttpDecoder
