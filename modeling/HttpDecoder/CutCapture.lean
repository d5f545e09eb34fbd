import HttpDecoder.EndOfFile

/-!
# Captures that break off

A capture file may end anywhere, also within a frame.  The frames that are whole count as they do
in a file that ends behind them.

* `format_header` — `Format` does not look at the Ethernet header.
* `Pass.Sound.run_cutCalls` — a file that breaks off brings its whole frames and one more packet.
* `cut_capture` — **the files hold the report of the whole frames**, and nothing else when the file
  breaks off in the Ethernet header of the next one.
-/

namespace HttpDecoder

open CLib CHandle

/-! ## The Ethernet header -/

/-- `Format` does not look at the Ethernet header. -/
theorem format_header {m m' : Mem} (h : ∀ i, 14 ≤ i → m i = m' i) (now : TimeVal) :
    SamePacket (CFormatPacket.format m now) (CFormatPacket.format m' now) := by
  have h16 : ∀ i, 14 ≤ i → ld16 m i = ld16 m' i :=
    fun i hi => ld16_congr fun k _ => h (i + k) (by omega)
  have h32 : ∀ i, 14 ≤ i → ld32 m i = ld32 m' i :=
    fun i hi => ld32_congr fun k _ => h (i + k) (by omega)
  have hat : transportAt m = transportAt m' := by
    rw [transportAt, transportAt, h 14 le_rfl]
  have hfrom : 14 ≤ transportAt m' := Nat.le_add_right ..
  have hpat : payloadAt m = payloadAt m' := by
    rw [payloadAt, payloadAt, hat, h 23 (by decide), h (transportAt m' + 12) (by omega)]
  have hip : (CFormatPacket.format m now).iphdr = (CFormatPacket.format m' now).iphdr := by
    show IpHdr.mk _ _ _ _ _ = IpHdr.mk _ _ _ _ _
    rw [h 14 le_rfl, h 23 (by decide), h16 16 (by decide), h32 26 (by decide), h32 30 (by decide)]
  have htcp : (CFormatPacket.format m now).tcphdr = (CFormatPacket.format m' now).tcphdr := by
    rw [format_tcphdr, format_tcphdr, hat, h (transportAt m' + 12) (by omega),
      h (transportAt m' + 13) (by omega), h16 _ hfrom, h16 (transportAt m' + 2) (by omega),
      h32 (transportAt m' + 4) (by omega), h32 (transportAt m' + 8) (by omega)]
  have hlen : (CFormatPacket.format m now).dataLen = (CFormatPacket.format m' now).dataLen := by
    rw [(format_data m now).2, (format_data m' now).2, hpat, h16 16 (by decide)]
  have hstart : 14 ≤ payloadAt m' := by
    unfold payloadAt
    split <;> omega
  refine ⟨hip, htcp, hlen, rfl, ?_⟩
  rw [CFormatPacket.payload, CFormatPacket.payload, (format_data m now).1,
    (format_data m' now).1, hpat, CFormatPacket.dataSize, CFormatPacket.dataSize, hlen,
    Mem.read_shift, Mem.read_shift]
  exact Mem.read_congr fun i _ => h _ (by omega)

theorem SamePacket.trans {p q q' : CFormatPacket} (h : SamePacket p q) (h' : SamePacket q q') :
    SamePacket p q' where
  iphdr := h.iphdr.trans h'.iphdr
  tcphdr := h.tcphdr.trans h'.tcphdr
  dataLen := h.dataLen.trans h'.dataLen
  time := h.time.trans h'.time
  payload := h.payload.trans h'.payload

/-! ## One pass -/

/-- More calls of `Parse` only add to the files. -/
theorem prefix_disk (d : Files) (ks ks' : List ParseCall) (name : Bytes) :
    disk d ks name <+: disk d (ks ++ ks') name := by
  unfold disk sentBy
  rw [List.filterMap_append, List.foldl_append]
  exact ⟨_, (Files.foldl_append Record.file Record.text name _ _).symm⟩

namespace Pass

variable {r : Pass} {tail : Bytes}

/-- The calls of `Process` for a file that goes on behind its frames. -/
def cutCalls (r : Pass) (tail : Bytes) : List Call :=
  (arrivals r.supply (workCalls r.tmp1 (r.frames.flatten ++ tail))).map Arrival.call

/-- **A file that breaks off brings its whole frames and one more packet**, which is the last
frame again where the file breaks off in an Ethernet header. -/
theorem Sound.run_cutCalls (B : Boost) (h : r.Sound) (htail : Cut tail) (g : CHandle) :
    ∃ y : Arrival, (handleMachine B).run g (r.cutCalls tail) =
        (handleMachine B).run g ((r.once ++ [y]).map Arrival.call) ∧
      (tail.length ≤ 14 → [y] = r.again) := by
  obtain ⟨msgs, last, hworks, hmsgs, hshort⟩ :=
    workCalls_tail (fun fr hfr => (h.frames fr hfr).toIpv4Frame) h.frames_ne htail r.tmp1
  have hlength := hmsgs.length_eq
  have harrivals : arrivals r.supply (msgs ++ [last]) = arrivals r.supply msgs ++
      [⟨CFormatPacket.format last (r.supply r.frames.length).1, (r.supply r.frames.length).2⟩] := by
    rw [arrivals, List.mapIdx_concat, hlength]
    rfl
  have hsame : List.Forall₂ (fun x y : Arrival => SamePacket x.packet y.packet ∧ x.env = y.env)
      (arrivals r.supply msgs) r.once := samePackets_arrivals r.supply h.frames hmsgs
  unfold cutCalls
  rw [hworks, harrivals]
  by_cases hlen : tail.length ≤ 14
  · obtain ⟨m, hholds, rfl⟩ := hshort hlen
    have hfr := h.frames _ (List.getLast_mem h.frames_ne)
    have hbehind : ∀ i, 14 ≤ i → (m.store 0 tail) i = m i :=
      fun i hi => Mem.store_of_le m (by omega)
    have hpacket : SamePacket (CFormatPacket.format (m.store 0 tail) (r.supply r.frames.length).1)
        (r.arrival (r.frames.getLast h.frames_ne) r.frames.length).packet :=
      (format_header hbehind _).trans (format_samePacket hfr hholds _)
    have hlast : List.Forall₂ (fun x y : Arrival => SamePacket x.packet y.packet ∧ x.env = y.env)
        [⟨CFormatPacket.format (m.store 0 tail) (r.supply r.frames.length).1,
          (r.supply r.frames.length).2⟩]
        [r.arrival (r.frames.getLast h.frames_ne) r.frames.length] :=
      .cons ⟨hpacket, rfl⟩ .nil
    refine ⟨r.arrival (r.frames.getLast h.frames_ne) r.frames.length, ?_, fun _ => ?_⟩
    · exact run_samePackets B (List.rel_append hsame hlast) g
    · rw [again, List.getLast?_eq_some_getLast h.frames_ne]
      rfl
  · refine ⟨_, run_samePackets B (List.rel_append hsame (.cons ⟨?_, rfl⟩ .nil)) g,
      fun h => absurd h hlen⟩
    exact ⟨rfl, rfl, rfl, rfl, rfl⟩

end Pass

/-- **A capture that breaks off.**  Wherever a file of self-contained frames breaks off in the next
one, whatever the array holds and whatever is swept: every file ends up with what the whole frames
alone have written to it, and perhaps more behind it.  When it breaks off in the Ethernet header
and no sweep is due, there is nothing more, and the sessions are those that the whole frames alone
leave, but for their times. -/
theorem cut_capture (B : Boost) {g : CHandle} (hr : Reachable B g) {r : Pass} (h : r.Sound)
    {tail : Bytes} (htail : Cut tail) :
    let u := (handleMachine B).run g (r.cutCalls tail)
    let o := (handleMachine B).run g (r.once.map Arrival.call)
    (∀ d name, disk d o.2 name <+: disk d u.2 name) ∧
      (tail.length ≤ 14 → Pass.Quiet g [r] → (∀ d, disk d u.2 = disk d o.2) ∧
        ∀ c, SameButTimes (o.1.sesHash.session c) (u.1.sesHash.session c)) := by
  intro u o
  obtain ⟨y, hrun, hagain⟩ := h.run_cutCalls B htail g
  constructor
  · intro d name
    rw [show u = _ from hrun, List.map_append, Machine.run_append]
    exact prefix_disk d o.2 _ name
  · intro hlen hquiet
    have hsound : ∀ r' ∈ [r], r'.Sound := fun r' hr' => List.mem_singleton.mp hr' ▸ h
    obtain ⟨hnear, hsent⟩ := Pass.run_once B hr.wf hsound hquiet
    have hcalls : u = (handleMachine B).run g ([r].flatMap Pass.calls) := by
      rw [show u = _ from hrun, hagain hlen, ← h.run_calls B g, List.flatMap_singleton]
    have honce : o = (handleMachine B).run g (([r].flatMap Pass.once).map Arrival.call) := by
      rw [List.flatMap_singleton]
    rw [hcalls, honce]
    refine ⟨fun d => ?_, hnear⟩
    unfold disk
    rw [hsent]

/-- The capture `optionsPass` with ten bytes of the next frame behind it. -/
theorem cut_capture_options :
    disk (fun _ => []) ((handleMachine Boost.decimal).run (init blankSes 0)
        (optionsPass.cutCalls (optionsFrame.bytes.take 10))).2 =
      disk (fun _ => []) ((handleMachine Boost.decimal).run (init blankSes 0)
        (optionsPass.once.map Arrival.call)).2 ∧
    SameButTimes
      (((handleMachine Boost.decimal).run (init blankSes 0)
        (optionsPass.once.map Arrival.call)).1.sesHash.session
          s(optionsFrame.src, optionsFrame.dst))
      (((handleMachine Boost.decimal).run (init blankSes 0)
        (optionsPass.cutCalls (optionsFrame.bytes.take 10))).1.sesHash.session
          s(optionsFrame.src, optionsFrame.dst)) := by
  have hframe : SelfContained optionsFrame.bytes := TcpFrame.selfContained_bytes (by decide)
  have hlen : (optionsFrame.bytes.take 10).length ≤ 14 :=
    (List.length_take_le ..).trans (by decide)
  have hcut : Cut (optionsFrame.bytes.take 10) := by
    refine ⟨optionsFrame.bytes, hframe.toIpv4Frame, List.take_prefix .., fun heq => ?_⟩
    have hlong : 34 ≤ optionsFrame.bytes.length := by
      have htot := hframe.tot_len
      have hheader := hframe.header
      omega
    rw [← heq] at hlong
    omega
  have hquiet : Pass.Quiet (init blankSes 0) [optionsPass] := by
    intro r hr i _
    rw [List.mem_singleton.mp hr]
    show (0 : Int) - 0 < 120
    decide
  obtain ⟨hdisk, hses⟩ :=
    (cut_capture Boost.decimal ⟨blankSes, 0, [], rfl⟩ optionsPass_sound hcut).2 hlen hquiet
  exact ⟨hdisk _, hses _⟩

end HttpDecoder
