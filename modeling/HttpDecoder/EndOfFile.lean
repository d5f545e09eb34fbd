import HttpDecoder.Repetition
import HttpDecoder.RequestHead
import HttpDecoder.TcpFrame

/-!
# What the read loop makes of the array

The read loop keeps one array for all frames, and gives the last frame to `Work` twice.  Neither
can be seen from outside.

* `SamePacket` — two packets of which `Process` reads the same; `process_samePacket` —
  **`Process` does the same with both**.
* `SelfContained` — the headers and the payload of a frame lie within it; `format_samePacket` —
  what an earlier, longer frame left in the array is not read then.
* `Pass` — the read loop on a file of frames; `Pass.Sound.run_calls` — **its calls do what the
  frames do, one by one**.
* `captures_once` — **every frame of every file counts once**.
-/

namespace HttpDecoder

open CLib CHandle

/-! ## Packets that cannot be told apart -/

/-- The packet with other memory behind `m_pData`. -/
def CFormatPacket.withData (p : CFormatPacket) (data : Mem) : CFormatPacket :=
  { p with data := data }

/-- What `Process` reads of the two packets is the same. -/
structure SamePacket (p q : CFormatPacket) : Prop where
  iphdr : p.iphdr = q.iphdr
  tcphdr : p.tcphdr = q.tcphdr
  dataLen : p.dataLen = q.dataLen
  time : p.time = q.time
  payload : p.payload = q.payload

theorem SamePacket.eq_withData {p q : CFormatPacket} (h : SamePacket p q) :
    q = p.withData q.data := by
  obtain ⟨hip, htcp, hlen, htime, -⟩ := h
  obtain ⟨iphdr, tcphdr, data, dataLen, time⟩ := q
  obtain rfl : p.iphdr = iphdr := hip
  obtain rfl : p.tcphdr = tcphdr := htcp
  obtain rfl : p.dataLen = dataLen := hlen
  obtain rfl : p.time = time := htime
  rfl

/-- `memcpy` looks at the bytes it copies only. -/
theorem write_congr {p q : Mem} {size : Nat} (h : p.read 0 size = q.read 0 size) (m : Mem)
    (off : Nat) : m.write off p size = m.write off q size := by
  funext i
  unfold Mem.write
  by_cases hi : off ≤ i ∧ i < off + size
  · have hget : (p.read 0 size)[i - off]? = (q.read 0 size)[i - off]? := by rw [h]
    have hlt : i - off < size := by omega
    rw [if_pos hi, if_pos hi]
    simpa [Mem.read, hlt] using hget
  · rw [if_neg hi, if_neg hi]

/-- So `Append` does. -/
theorem append_congr {p q : Mem} {size : Nat} (h : p.read 0 size = q.read 0 size) (a : Alloc)
    (b : CBuffer) : b.append a (some p) size = b.append a (some q) size := by
  unfold CBuffer.append
  simp only [write_congr h]

section WithData

variable {p : CFormatPacket} {data : Mem}

/-- Filing looks at the payload only. -/
theorem processData_withData (h : (p.withData data).payload = p.payload) (B : Boost) (e : Env)
    (way : UInt32) (s : CSession) :
    processData B e (p.withData data) way s = processData B e p way s := by
  have hdata : (p.withData data).data = data := rfl
  have hsize : (p.withData data).dataSize = p.dataSize := rfl
  have happend := append_congr (show data.read 0 p.dataSize = p.data.read 0 p.dataSize from h)
    e.append
  have hreq : ∀ s, CHandle.appendRequest e (p.withData data) s = CHandle.appendRequest e p s := by
    intro s
    simp only [CHandle.appendRequest, hdata, hsize, happend]
  have hrsp : ∀ s, CHandle.appendResponse e (p.withData data) s =
      CHandle.appendResponse e p s := by
    intro s
    simp only [CHandle.appendResponse, hdata, hsize, happend]
  have hseq : (p.withData data).seqNo = p.seqNo := rfl
  have hack : (p.withData data).ackSeqNo = p.ackSeqNo := rfl
  have hstampReq : ∀ s, CHandle.stampRequest (p.withData data) s = CHandle.stampRequest p s :=
    fun _ => rfl
  have hstampRsp : ∀ s, CHandle.stampResponse (p.withData data) s = CHandle.stampResponse p s :=
    fun _ => rfl
  unfold processData
  simp only [hseq, hack, hstampReq, hstampRsp, hreq, hrsp]

/-- The session is found, and created, by the headers. -/
theorem findOrCreate_withData (t : CSessionHashTable) (pInfo : Option CSharedBehaviorInfo)
    (e : Env) (info : CSharedBehaviorInfo) :
    findOrCreate t ⟨p.withData data, pInfo, e⟩ info = findOrCreate t ⟨p, pInfo, e⟩ info := rfl

/-- So `Process` looks at the headers and the payload only. -/
theorem process_withData (h : (p.withData data).payload = p.payload) (B : Boost) (g : CHandle)
    (info : Option CSharedBehaviorInfo) (e : Env) :
    g.process B ⟨p.withData data, info, e⟩ = g.process B ⟨p, info, e⟩ := by
  have hcloses : (p.withData data).closes = p.closes := rfl
  have hrepeated : ∀ s, repeated (p.withData data) s = repeated p s := fun _ => rfl
  have hlen : (p.withData data).dataLen = p.dataLen := rfl
  have hends : (p.withData data).srcIp = p.srcIp ∧ (p.withData data).dstIp = p.dstIp ∧
      (p.withData data).srcPort = p.srcPort ∧ (p.withData data).dstPort = p.dstPort :=
    ⟨rfl, rfl, rfl, rfl⟩
  unfold process
  simp only [findOrCreate_withData, hcloses, hrepeated, hlen, hends.1, hends.2.1, hends.2.2.1,
    hends.2.2.2, processData_withData h]

end WithData

/-- **`Process` does the same with packets that cannot be told apart.** -/
theorem process_samePacket (B : Boost) (g : CHandle) {p q : CFormatPacket} (h : SamePacket p q)
    (e : Env) : g.process B (Arrival.call ⟨p, e⟩) = g.process B (Arrival.call ⟨q, e⟩) := by
  have hq := h.eq_withData
  have hpayload : (p.withData q.data).payload = p.payload := by rw [← hq, h.payload]
  rw [hq]
  exact (process_withData hpayload B g (some (behavior p)) e).symm

/-- **So it does in whole runs.** -/
theorem run_samePackets (B : Boost) {xs ys : List Arrival}
    (h : List.Forall₂ (fun x y => SamePacket x.packet y.packet ∧ x.env = y.env) xs ys)
    (g : CHandle) :
    (handleMachine B).run g (xs.map Arrival.call) =
      (handleMachine B).run g (ys.map Arrival.call) := by
  obtain ⟨hstate, hout⟩ := (handleMachine B).run_sim (handleMachine B) (R := Eq) (O := Eq)
    (E := fun x y => ∃ p q e, x = Arrival.call ⟨p, e⟩ ∧ y = Arrival.call ⟨q, e⟩ ∧ SamePacket p q)
    (fun s t x y hst hxy => by
      obtain ⟨p, q, e, rfl, rfl, hpq⟩ := hxy
      subst hst
      have hprocess := process_samePacket B s hpq e
      constructor
      · exact congrArg Processed.handle hprocess
      · exact List.forall₂_eq_eq_eq ▸ congrArg Processed.calls hprocess)
    (List.forall₂_map_left_iff.mpr (List.forall₂_map_right_iff.mpr (h.imp fun x y h =>
      ⟨x.packet, y.packet, x.env, rfl, by rw [h.2], h.1⟩))) g g rfl
  exact Prod.ext hstate (List.forall₂_eq_eq_eq ▸ hout)

/-! ## Frames in the array -/

/-- Where `Format` finds the transport header. -/
def transportAt (packet : Mem) : Nat := 14 + (packet 14).toNat % 16 * 4

/-- Where it finds the payload. -/
def payloadAt (packet : Mem) : Nat :=
  if packet 23 = CFormatPacket.ipprotoTcp then
    transportAt packet + (packet (transportAt packet + 12)).toNat / 16 * 4
  else transportAt packet + 8

section Format

variable (packet : Mem) (now : TimeVal)

theorem format_tcphdr : (CFormatPacket.format packet now).tcphdr =
    { source := ld16 packet (transportAt packet)
      dest := ld16 packet (transportAt packet + 2)
      seq := ld32 packet (transportAt packet + 4)
      ackSeq := ld32 packet (transportAt packet + 8)
      doff := (packet (transportAt packet + 12)).toNat / 16
      fin := (packet (transportAt packet + 13)).toNat % 2 = 1
      rst := (packet (transportAt packet + 13)).toNat / 4 % 2 = 1 } := rfl

/-- The payload is what `tot_len` leaves behind its start. -/
theorem format_data : (CFormatPacket.format packet now).data = packet.shift (payloadAt packet) ∧
    (CFormatPacket.format packet now).dataLen =
      toInt16 (toInt16 (ntohs (ld16 packet 16)).toNat - (payloadAt packet - 14 : Nat)) := by
  obtain ⟨offset, hoffset, hdata, hlen⟩ : ∃ offset, payloadAt packet = 14 + offset ∧
      (CFormatPacket.format packet now).data = packet.shift (14 + offset) ∧
      (CFormatPacket.format packet now).dataLen =
        toInt16 (toInt16 (ntohs (ld16 packet 16)).toNat - offset) := by
    refine ⟨_, ?_, rfl, rfl⟩
    show (if packet 23 = CFormatPacket.ipprotoTcp then _ else _) =
      14 + if packet 23 = CFormatPacket.ipprotoTcp then _ else _
    split
    · rw [transportAt, Nat.add_assoc]
    · rw [transportAt, Nat.add_assoc]
  rw [hoffset, Nat.add_sub_cancel_left]
  exact ⟨hdata, hlen⟩

end Format

/-- An IPv4 frame that ends behind all that `Format` reads. -/
structure SelfContained (fr : Bytes) : Prop extends Ipv4Frame fr where
  /-- The transport header, up to the flags. -/
  transport : transportAt (memOf fr) + 14 ≤ fr.length
  /-- The start of the payload. -/
  payload : payloadAt (memOf fr) ≤ fr.length

section Loads

variable {m m' : Mem} {i : Nat}

theorem ld16_congr (h : ∀ k, k < 2 → m (i + k) = m' (i + k)) : ld16 m i = ld16 m' i := by
  have h₀ := h 0 (by decide)
  have h₁ := h 1 (by decide)
  rw [Nat.add_zero] at h₀
  rw [ld16, ld16, h₀, h₁]

theorem ld32_congr (h : ∀ k, k < 4 → m (i + k) = m' (i + k)) : ld32 m i = ld32 m' i := by
  have h₀ := h 0 (by decide)
  have h₁ := h 1 (by decide)
  have h₂ := h 2 (by decide)
  have h₃ := h 3 (by decide)
  rw [Nat.add_zero] at h₀
  rw [ld32, ld32, h₀, h₁, h₂, h₃]

end Loads

section Frame

variable {fr : Bytes} {m : Mem}

/-- The array shows the frame. -/
theorem get_of_holds (h : m.Holds 0 fr) {i : Nat} (hi : i < fr.length) : m i = memOf fr i := by
  have hget := h.get hi
  rw [Nat.zero_add] at hget
  rw [hget, memOf, List.getD_eq_getElem _ _ hi]

/-- So the transport header and the payload are found where they are in the frame. -/
theorem payloadAt_of_holds (hfr : SelfContained fr) (h : m.Holds 0 fr) :
    transportAt m = transportAt (memOf fr) ∧ payloadAt m = payloadAt (memOf fr) := by
  have hlen := hfr.tot_len
  have hhead := hfr.header
  have htransport := hfr.transport
  have hat : transportAt m = transportAt (memOf fr) := by
    rw [transportAt, transportAt, get_of_holds h (show 14 < fr.length by omega)]
  refine ⟨hat, ?_⟩
  rw [payloadAt, payloadAt, hat, get_of_holds h (show 23 < fr.length by omega),
    get_of_holds h (show transportAt (memOf fr) + 12 < fr.length by omega)]

/-- The payload of a self-contained frame ends with it. -/
theorem dataSize_memOf (hfr : SelfContained fr) (now : TimeVal) :
    payloadAt (memOf fr) + (CFormatPacket.format (memOf fr) now).dataSize = fr.length := by
  have hlen := hfr.tot_len
  have hfits := hfr.fits
  have htransport := hfr.transport
  have hpayload := hfr.payload
  have hstart : 14 ≤ payloadAt (memOf fr) := by
    unfold payloadAt
    split <;> unfold transportAt <;> omega
  have htot : (ntohs (ld16 (memOf fr) 16)).toNat = be16 fr 16 := toNat_ntohs_ld16 ..
  have hdata : (CFormatPacket.format (memOf fr) now).dataLen =
      (fr.length - payloadAt (memOf fr) : Nat) := by
    rw [(format_data (memOf fr) now).2, htot]
    unfold toInt16
    omega
  rw [CFormatPacket.dataSize, hdata, sizeT_of_nonneg (Int.natCast_nonneg _) (by omega),
    Int.toNat_natCast]
  omega

/-- **What lies behind a self-contained frame is not read.** -/
theorem format_samePacket (hfr : SelfContained fr) (h : m.Holds 0 fr) (now : TimeVal) :
    SamePacket (CFormatPacket.format m now) (CFormatPacket.format (memOf fr) now) := by
  have hlen := hfr.tot_len
  have hhead := hfr.header
  have htransport := hfr.transport
  obtain ⟨hat, hpat⟩ := payloadAt_of_holds hfr h
  have hip : (CFormatPacket.format m now).iphdr = (CFormatPacket.format (memOf fr) now).iphdr := by
    show IpHdr.mk _ _ _ _ _ = IpHdr.mk _ _ _ _ _
    rw [get_of_holds h (show 14 < fr.length by omega),
      get_of_holds h (show 23 < fr.length by omega),
      ld16_congr fun k hk => get_of_holds h (show 16 + k < fr.length by omega),
      ld32_congr fun k hk => get_of_holds h (show 26 + k < fr.length by omega),
      ld32_congr fun k hk => get_of_holds h (show 30 + k < fr.length by omega)]
  have htcp :
      (CFormatPacket.format m now).tcphdr = (CFormatPacket.format (memOf fr) now).tcphdr := by
    rw [format_tcphdr, format_tcphdr, hat,
      get_of_holds h (show transportAt (memOf fr) + 12 < fr.length by omega),
      get_of_holds h (show transportAt (memOf fr) + 13 < fr.length by omega),
      ld16_congr fun k hk => get_of_holds h (show transportAt (memOf fr) + k < fr.length by omega),
      ld16_congr fun k hk =>
        get_of_holds h (show transportAt (memOf fr) + 2 + k < fr.length by omega),
      ld32_congr fun k hk =>
        get_of_holds h (show transportAt (memOf fr) + 4 + k < fr.length by omega),
      ld32_congr fun k hk =>
        get_of_holds h (show transportAt (memOf fr) + 8 + k < fr.length by omega)]
  have hdataLen : (CFormatPacket.format m now).dataLen =
      (CFormatPacket.format (memOf fr) now).dataLen := by
    rw [(format_data m now).2, (format_data (memOf fr) now).2, hpat,
      ld16_congr fun k hk => get_of_holds h (show 16 + k < fr.length by omega)]
  refine ⟨hip, htcp, hdataLen, rfl, ?_⟩
  have hsize := dataSize_memOf hfr now
  rw [CFormatPacket.payload, CFormatPacket.payload, (format_data m now).1,
    (format_data (memOf fr) now).1, hpat, CFormatPacket.dataSize, hdataLen, Mem.read_shift,
    Mem.read_shift]
  refine Mem.read_congr fun i hi => ?_
  rw [Nat.add_zero]
  exact get_of_holds h (by unfold CFormatPacket.dataSize at hsize; omega)

end Frame

theorem holds_memOf (bs : Bytes) : (memOf bs).Holds 0 bs := by
  refine Mem.holds_iff_get.mpr fun i hi => ?_
  rw [Nat.zero_add]
  exact List.getD_eq_getElem _ _ hi

/-- Every TCP frame that fits the array is self-contained. -/
theorem TcpFrame.selfContained_bytes {f : TcpFrame} (hfits : f.totLen ≤ 1986) :
    SelfContained f.bytes := by
  have hlaid := TcpFrame.laid (holds_memOf f.bytes)
  have hihl := f.ihl_lt
  have hdoff := f.doff_lt
  have hreserved := f.reserved.isLt
  have hlength := f.length_bytes
  have hat : transportAt (memOf f.bytes) = 14 + f.ihl * 4 := by
    rw [transportAt, hlaid.ihl]
    omega
  have hpayload : payloadAt (memOf f.bytes) = 14 + f.ihl * 4 + f.doff * 4 := by
    rw [payloadAt, if_pos hlaid.protocol, hat, hlaid.doff]
    omega
  have htot : f.totLen = 4 * f.ihl + 4 * f.doff + f.payload.length := rfl
  have hfive : 5 ≤ f.doff := Nat.le_add_right ..
  exact ⟨ipv4Frame_bytes hfits, by omega, by omega⟩

/-- Arrays that hold the frames are formatted to the packets of the frames alone in memory. -/
theorem samePackets_arrivals (supply : Nat → TimeVal × Env) {frames : List Bytes}
    (hframes : ∀ fr ∈ frames, SelfContained fr) {msgs : List Mem}
    (h : List.Forall₂ (fun (msg : Mem) fr => msg.Holds 0 fr) msgs frames) :
    List.Forall₂ (fun x y : Arrival => SamePacket x.packet y.packet ∧ x.env = y.env)
      (arrivals supply msgs) (arrivals supply (frames.map memOf)) := by
  have hboth := (List.forall₂_and_left _ _).mpr ⟨hframes, h.flip⟩
  have hmem : List.Forall₂ (fun msg msg' => ∃ fr, SelfContained fr ∧ msg.Holds 0 fr ∧
      msg' = memOf fr) msgs (frames.map memOf) :=
    List.forall₂_map_right_iff.mpr (hboth.flip.imp fun msg fr hfr => ⟨fr, hfr.1, hfr.2, rfl⟩)
  refine forall₂_mapIdx hmem fun i msg msg' hmsg => ?_
  obtain ⟨fr, hfr, hholds, rfl⟩ := hmsg
  exact ⟨format_samePacket hfr hholds _, rfl⟩

/-! ## Whole capture files -/

/-- One pass of the read loop over a file of frames. -/
structure Pass where
  /-- The time and the environment of each call of `Work`. -/
  supply : Nat → TimeVal × Env
  /-- The array before. -/
  tmp1 : Mem
  /-- The frames in the file. -/
  frames : List Bytes

namespace Pass

variable (r : Pass)

/-- The calls of `Process`. -/
def calls : List Call := (arrivals r.supply (workCalls r.tmp1 r.frames.flatten)).map Arrival.call

/-- The packets if every frame came once, alone in memory. -/
def once : List Arrival := arrivals r.supply (r.frames.map memOf)

/-- A frame as it comes, alone in memory, with the `i`-th call. -/
def arrival (fr : Bytes) (i : Nat) : Arrival :=
  ⟨CFormatPacket.format (memOf fr) (r.supply i).1, (r.supply i).2⟩

/-- The last frame when it comes again. -/
def again : List Arrival :=
  r.frames.getLast?.toList.map fun fr => r.arrival fr r.frames.length

/-- The file has frames in it, all self-contained. -/
structure Sound : Prop where
  frames_ne : r.frames ≠ []
  frames : ∀ fr ∈ r.frames, SelfContained fr

variable {r}

/-- The packets of a pass are those of the frames and the last one again. -/
theorem Sound.arrivals_concat (h : r.Sound) :
    arrivals r.supply ((r.frames ++ [r.frames.getLast h.frames_ne]).map memOf) =
      r.once ++ r.again := by
  rw [List.map_append, List.map_singleton, arrivals, List.mapIdx_concat, List.length_map, once,
    again, List.getLast?_eq_some_getLast h.frames_ne]
  rfl

/-- **The calls of a pass do what these packets do.** -/
theorem Sound.run_calls (B : Boost) (h : r.Sound) (g : CHandle) :
    (handleMachine B).run g r.calls =
      (handleMachine B).run g ((r.once ++ r.again).map Arrival.call) := by
  have hcalls := workCalls_ipv4 (fun fr hfr => (h.frames fr hfr).toIpv4Frame) h.frames_ne r.tmp1
  have hall : ∀ fr ∈ r.frames ++ [r.frames.getLast h.frames_ne], SelfContained fr := by
    intro fr hfr
    rcases List.mem_append.mp hfr with hfr | hfr
    · exact h.frames fr hfr
    · exact List.mem_singleton.mp hfr ▸ h.frames _ (List.getLast_mem h.frames_ne)
  have hsame := samePackets_arrivals r.supply hall hcalls
  rw [h.arrivals_concat] at hsame
  exact run_samePackets B hsame g

/-- The repetition of the last frame is a packet that comes again. -/
theorem Sound.repeats (h : r.Sound) : Repeats r.once (r.once ++ r.again) := by
  obtain ⟨pre, last, hsplit⟩ : ∃ pre last, r.frames = pre ++ [last] :=
    ⟨_, _, (List.dropLast_append_getLast h.frames_ne).symm⟩
  have honce : r.once = arrivals r.supply (pre.map memOf) ++ [r.arrival last pre.length] := by
    rw [once, hsplit, List.map_append, List.map_singleton, arrivals, List.mapIdx_concat,
      List.length_map]
    rfl
  have hagain : r.again = [r.arrival last r.frames.length] := by
    rw [again, hsplit, List.getLast?_append, List.getLast?_singleton]
    rfl
  rw [hagain, honce, List.append_assoc]
  show Repeats _ (_ ++ r.arrival last pre.length :: ([] ++ r.arrival last r.frames.length :: []))
  exact .again .refl ⟨rfl, rfl, rfl, rfl⟩ fun z hz => absurd hz List.not_mem_nil

/-- Every packet of a pass comes with one of its calls. -/
theorem Sound.env_mem (h : r.Sound) {x : Arrival} (hx : x ∈ r.once ++ r.again) :
    ∃ i ≤ r.frames.length, x.env = (r.supply i).2 := by
  rw [← h.arrivals_concat] at hx
  obtain ⟨i, hi, rfl⟩ := List.mem_mapIdx.mp hx
  rw [List.length_map, List.length_append, List.length_singleton] at hi
  exact ⟨i, by omega, rfl⟩

/-- The packets of some passes, every last frame coming again. -/
theorem repeats_flatMap {rs : List Pass} (h : ∀ r ∈ rs, r.Sound) :
    Repeats (rs.flatMap once) (rs.flatMap fun r => r.once ++ r.again) := by
  induction rs with
  | nil => exact .refl
  | cons r rs ih =>
    obtain ⟨hr, hrs⟩ := List.forall_mem_cons.mp h
    rw [List.flatMap_cons, List.flatMap_cons]
    exact hr.repeats.append (ih hrs)

/-- The calls of some passes. -/
theorem run_flatMap (B : Boost) {rs : List Pass} (h : ∀ r ∈ rs, r.Sound) : ∀ g : CHandle,
    (handleMachine B).run g (rs.flatMap calls) =
      (handleMachine B).run g ((rs.flatMap fun r => r.once ++ r.again).map Arrival.call) := by
  induction rs with
  | nil => exact fun _ => rfl
  | cons r rs ih =>
    intro g
    obtain ⟨hr, hrs⟩ := List.forall_mem_cons.mp h
    rw [List.flatMap_cons, List.flatMap_cons, List.map_append, Machine.run_append,
      Machine.run_append, hr.run_calls, ih hrs]

/-- No sweep is due during the passes. -/
def Quiet (g : CHandle) (rs : List Pass) : Prop :=
  ∀ r ∈ rs, ∀ i ≤ r.frames.length,
    (r.supply i).2.timeCheck - g.lastTimeOutCheck < timeoutCheckDur

/-- **The handle after some passes** has sent the records of the frames, and has their sessions,
but for the times. -/
theorem run_once (B : Boost) {g : CHandle} (hw : g.sesHash.WF) {rs : List Pass}
    (h : ∀ r ∈ rs, r.Sound) (hquiet : Quiet g rs) :
    let r := (handleMachine B).run g (rs.flatMap calls)
    let o := (handleMachine B).run g ((rs.flatMap once).map Arrival.call)
    Sessions.Near o.1.sesHash.session r.1.sesHash.session ∧ sentBy o.2 = sentBy r.2 := by
  intro r o
  rw [show r = _ from run_flatMap B h g]
  refine handle_repeats B hw (repeats_flatMap h) fun y hy => ?_
  obtain ⟨p, hp, hy⟩ := List.mem_flatMap.mp hy
  obtain ⟨i, hi, henv⟩ := (h p hp).env_mem hy
  rw [henv]
  exact hquiet p hp i hi

end Pass

/-- **Every frame counts once.**  However many files of self-contained IPv4 frames a reachable
handle reads, one after the other, whatever the array holds at the start of each: the reports are
those of one run in which every frame of every file comes once, alone in memory, and the sessions
are the same but for their times, as long as no sweep is due. -/
theorem captures_once (B : Boost) {g : CHandle} (hr : Reachable B g) {rs : List Pass}
    (h : ∀ r ∈ rs, r.Sound) (hquiet : Pass.Quiet g rs) :
    let r := (handleMachine B).run g (rs.flatMap Pass.calls)
    let o := (handleMachine B).run g ((rs.flatMap Pass.once).map Arrival.call)
    (∀ d, disk d r.2 = disk d o.2) ∧
      ∀ c, SameButTimes (o.1.sesHash.session c) (r.1.sesHash.session c) := by
  intro r o
  obtain ⟨hnear, hsent⟩ := Pass.run_once B hr.wf h hquiet
  refine ⟨fun d => ?_, hnear⟩
  unfold disk
  rw [show sentBy o.2 = sentBy r.2 from hsent]

/-- A pass over a file with one frame, which has options in both headers. -/
def optionsPass : Pass := ⟨fun _ => (⟨0, 0⟩, Env.granting 0), fun _ => 255, [optionsFrame.bytes]⟩

theorem optionsPass_sound : optionsPass.Sound :=
  ⟨List.cons_ne_nil _ _, fun _ hfr =>
    List.mem_singleton.mp hfr ▸ TcpFrame.selfContained_bytes (by decide)⟩

/-- Two passes over it. -/
theorem captures_once_options :
    disk (fun _ => []) ((handleMachine Boost.decimal).run (init blankSes 0)
        ([optionsPass, optionsPass].flatMap Pass.calls)).2 =
      disk (fun _ => []) ((handleMachine Boost.decimal).run (init blankSes 0)
        (([optionsPass, optionsPass].flatMap Pass.once).map Arrival.call)).2 ∧
    SameButTimes
      (((handleMachine Boost.decimal).run (init blankSes 0)
        (([optionsPass, optionsPass].flatMap Pass.once).map Arrival.call)).1.sesHash.session
          s(optionsFrame.src, optionsFrame.dst))
      (((handleMachine Boost.decimal).run (init blankSes 0)
        ([optionsPass, optionsPass].flatMap Pass.calls)).1.sesHash.session
          s(optionsFrame.src, optionsFrame.dst)) := by
  have hmem : ∀ r ∈ [optionsPass, optionsPass], r = optionsPass := by simp
  have hsound : ∀ r ∈ [optionsPass, optionsPass], r.Sound :=
    fun r hr => hmem r hr ▸ optionsPass_sound
  have hquiet : Pass.Quiet (init blankSes 0) [optionsPass, optionsPass] := by
    intro r hr i _
    rw [hmem r hr]
    show (0 : Int) - 0 < 120
    decide
  obtain ⟨hdisk, hses⟩ := captures_once Boost.decimal ⟨blankSes, 0, [], rfl⟩ hsound hquiet
  exact ⟨hdisk _, hses _⟩

end HttpDecoder
