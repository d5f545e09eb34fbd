import HttpDecoder.Suppression

/-!
# The length handed to `Append`

`Format` puts the difference of a 16-bit total length and the two header lengths into an
`int16_t`, and `Process` converts that to `size_t`.

* `payloadLen` — the difference as an integer.
* `dataLen_format`, `dataSize_format` — what `GetDataLen` answers, and what `size_t` makes
  of it.
* `ReachesAppend` — the packet gets as far as `Append`; `reachesAppend_process` — what that
  means for the session.
* `exactSize_iff` — **when the size is the length of the payload**.
-/

namespace HttpDecoder

open CLib CHandle

namespace CFormatPacket

/-- `tot_len - 4*ihl - 4*doff` without bounds. -/
def payloadLen (p : CFormatPacket) : Int :=
  (ntohs p.iphdr.totLen).toNat - 4 * (p.iphdr.ihl : Int) - 4 * (p.tcphdr.doff : Int)

section Format

variable (msg : Mem) (now : TimeVal)

/-- The header fields leave this much. -/
theorem payloadLen_format : -120 ≤ (format msg now).payloadLen ∧
    (format msg now).payloadLen < 2 ^ 16 := by
  have hihl : (format msg now).iphdr.ihl < 16 := Nat.mod_lt _ (by decide)
  have hdoff : (format msg now).tcphdr.doff < 16 := by
    have hbyte := (msg (14 + (msg 14).toNat % 16 * 4 + 12)).toNat_lt
    show (msg (14 + (msg 14).toNat % 16 * 4 + 12)).toNat / 16 < 16
    omega
  have htot := (ntohs (format msg now).iphdr.totLen).toNat_lt
  unfold payloadLen
  omega

variable {msg now}

/-- `GetDataLen` answers the difference as a 16-bit value. -/
theorem dataLen_format (htcp : (format msg now).iphdr.protocol = ipprotoTcp) :
    (format msg now).dataLen = toInt16 (format msg now).payloadLen := by
  have hoffset : (format msg now).dataLen =
      toInt16 (toInt16 (ntohs (format msg now).iphdr.totLen).toNat -
        ((format msg now).iphdr.ihl * 4 + (format msg now).tcphdr.doff * 4 : Nat)) := by
    show toInt16 (_ - ((if (format msg now).iphdr.protocol = ipprotoTcp then _ else _ : Nat) : Int)) = _
    rw [if_pos htcp]
    rfl
  rw [hoffset]
  unfold toInt16 payloadLen
  push_cast
  omega

/-- It is zero for packets without payload only. -/
theorem dataLen_format_eq_zero_iff (htcp : (format msg now).iphdr.protocol = ipprotoTcp) :
    (format msg now).dataLen = 0 ↔ (format msg now).payloadLen = 0 := by
  obtain ⟨hlo, hhi⟩ := payloadLen_format msg now
  rw [dataLen_format htcp]
  unfold toInt16
  omega

/-- `size_t` keeps a 16-bit value that is not negative. -/
theorem dataSize_format_of_nonneg (htcp : (format msg now).iphdr.protocol = ipprotoTcp)
    (hlo : 0 ≤ (format msg now).payloadLen) (hhi : (format msg now).payloadLen < 2 ^ 15) :
    ((format msg now).dataSize : Int) = (format msg now).payloadLen := by
  have hlen : (format msg now).dataLen = (format msg now).payloadLen := by
    rw [dataLen_format htcp]
    unfold toInt16
    omega
  unfold dataSize sizeT
  omega

/-- Any other comes out above `2 ^ 63`. -/
theorem dataSize_format_of_neg (htcp : (format msg now).iphdr.protocol = ipprotoTcp)
    (h : (format msg now).payloadLen < 0 ∨ 2 ^ 15 ≤ (format msg now).payloadLen) :
    2 ^ 63 ≤ (format msg now).dataSize := by
  obtain ⟨hlo, hhi⟩ := payloadLen_format msg now
  have hlen : (format msg now).dataLen < 0 ∧ -2 ^ 15 ≤ (format msg now).dataLen := by
    rw [dataLen_format htcp]
    unfold toInt16
    omega
  unfold dataSize sizeT
  omega

end Format

end CFormatPacket

/-! ## Reaching `Append` -/

/-- `Process` gets as far as `Append` for a packet that meets the session `s`. -/
def ReachesAppend (x : Arrival) (s : CSession) : Prop := Traced.accepts x.packet s = true

/-- The size handed to `Append` is the length of the payload, which is positive. -/
def ExactSize (B : Boost) (h : CHandle) (x : Arrival) : Prop :=
  ReachesAppend x (h.meets B x.call (behavior x.packet)) →
    (x.packet.dataSize : Int) = x.packet.payloadLen ∧ 0 < x.packet.payloadLen

/-- **The calls of `Append`.**  A packet that gets there has `GetDataLen()` bytes, as a
`size_t`, appended to a buffer of its session; any other leaves both buffers. -/
theorem reachesAppend_process (B : Boost) {h : CHandle} (hw : h.sesHash.WF) (x : Arrival) :
    let s := h.meets B x.call (behavior x.packet)
    (ReachesAppend x s → ∃ s',
      (h.process B x.call).handle.sesHash.session x.packet.conn = some s' ∧
        AppendsPayload x s s') ∧
    (¬ ReachesAppend x s → ∀ s' ∈ (h.process B x.call).handle.sesHash.session x.packet.conn,
      s' = s) := by
  intro s
  have hself := (process_meets B hw (Arrival.call_info x)).1.self
  rw [Arrival.call_packet] at hself
  constructor
  · intro hreach
    rw [Traced.serve_of_accepts (x := x.call) hreach] at hself
    exact ⟨_, hself, processData_appends B x s⟩
  · intro hnot s' hs'
    rw [hself] at hs'
    cases hopen : x.packet.closes with
    | true =>
      unfold serve at hs'
      rw [Arrival.call_packet, if_pos hopen] at hs'
      exact absurd hs' (by simp)
    | false =>
      rw [Traced.serve_of_not_accepts hopen (Bool.not_eq_true _ ▸ hnot)] at hs'
      exact (Option.some.inj hs').symm

/-- **When the size is the length of the payload.**  In every reachable state, for every
TCP frame: `Append` is reached for the session the packet meets or not at all, and the
size it then gets is the positive `tot_len - 4*ihl - 4*doff` exactly if the packet does
not get there or that number is at least 0 and below 32768. -/
theorem exactSize_iff {B : Boost} {h : CHandle} (hr : Reachable B h) {msg : Mem} {now : TimeVal}
    (htcp : (CFormatPacket.format msg now).iphdr.protocol = CFormatPacket.ipprotoTcp) (e : Env) :
    let x : Arrival := ⟨CFormatPacket.format msg now, e⟩
    let s := h.meets B x.call (behavior x.packet)
    ((ReachesAppend x s → ∃ s',
        (h.process B x.call).handle.sesHash.session x.packet.conn = some s' ∧
          AppendsPayload x s s') ∧
      (¬ ReachesAppend x s → ∀ s' ∈ (h.process B x.call).handle.sesHash.session x.packet.conn,
        s' = s)) ∧
    (ExactSize B h x ↔ x.packet.closes = true ∨ s.seqNo = x.packet.seqNo ∨
      (0 ≤ x.packet.payloadLen ∧ x.packet.payloadLen < 2 ^ 15)) := by
  intro x s
  refine ⟨reachesAppend_process B hr.wf x, ?_⟩
  have hreach : ReachesAppend x s ↔ x.packet.closes = false ∧ s.seqNo ≠ x.packet.seqNo ∧
      x.packet.payloadLen ≠ 0 := by
    rw [ReachesAppend, Traced.accepts_iff, Ne, Ne, Ne,
      CFormatPacket.dataLen_format_eq_zero_iff htcp]
  constructor
  · intro hexact
    by_contra hnot
    push Not at hnot
    obtain ⟨hopen, hnew, hrange⟩ := hnot
    have hbad : x.packet.payloadLen < 0 ∨ 2 ^ 15 ≤ x.packet.payloadLen := by
      by_cases hlo : 0 ≤ x.packet.payloadLen
      · exact Or.inr (hrange hlo)
      · exact Or.inl (not_le.mp hlo)
    have hne : x.packet.payloadLen ≠ 0 := by omega
    obtain ⟨hsize, -⟩ := hexact (hreach.mpr ⟨Bool.not_eq_true _ ▸ hopen, hnew, hne⟩)
    have hhuge := CFormatPacket.dataSize_format_of_neg htcp hbad
    have hhi := (CFormatPacket.payloadLen_format msg now).2
    have hhuge' : 2 ^ 63 ≤ x.packet.dataSize := hhuge
    have hhi' : x.packet.payloadLen < 2 ^ 16 := hhi
    omega
  · intro hcond hgets
    obtain ⟨hopen, hnew, hne⟩ := hreach.mp hgets
    rcases hcond with hclose | hrep | ⟨hlo, hhi⟩
    · rw [hopen] at hclose
      cases hclose
    · exact absurd hrep hnew
    · exact ⟨CFormatPacket.dataSize_format_of_nonneg htcp hlo hhi, by omega⟩

/-! ## Frames whose length comes out negative -/

/-- A TCP frame whose total length is `256 * hi + lo`, both headers having 20 bytes. -/
def frameOfLen (hi lo : UInt8) : Mem := fun i =>
  (List.replicate 12 0 ++ [0x08, 0x00] ++
    [0x45, 0, hi, lo, 0, 0, 0, 0, 64, 6, 0, 0, 0, 0, 0, 1, 0, 0, 0, 2] ++
    [3, 232, 0, 80, 0, 0, 0, 6, 0, 0, 0, 0, 0x50, 0x18, 0, 0, 0, 0, 0, 0]).getD i 65

/-- Such a frame as it arrives. -/
def arrivalOfLen (hi lo : UInt8) : Arrival :=
  ⟨CFormatPacket.format (frameOfLen hi lo) ⟨1, 0⟩, Env.granting 0⟩

theorem exactSize_iff_oneByte :
    let x := arrivalOfLen 0 41
    let s := (init blankSes 0).meets Boost.decimal x.call (behavior x.packet)
    ((ReachesAppend x s → ∃ s', ((init blankSes 0).process Boost.decimal x.call).handle.sesHash.session
          x.packet.conn = some s' ∧ AppendsPayload x s s') ∧
      (¬ ReachesAppend x s → ∀ s' ∈ ((init blankSes 0).process Boost.decimal
        x.call).handle.sesHash.session x.packet.conn, s' = s)) ∧
    (ExactSize Boost.decimal (init blankSes 0) x ↔ x.packet.closes = true ∨
      s.seqNo = x.packet.seqNo ∨ (0 ≤ x.packet.payloadLen ∧ x.packet.payloadLen < 2 ^ 15)) := by
  have hr : Reachable Boost.decimal (init blankSes 0) := ⟨blankSes, 0, [], rfl⟩
  have htcp : (CFormatPacket.format (frameOfLen 0 41) ⟨1, 0⟩).iphdr.protocol =
      CFormatPacket.ipprotoTcp := by decide
  exact exactSize_iff hr htcp (Env.granting 0)

/-- A frame whose headers exceed its total length, and one with 32768 bytes of payload. -/
theorem not_exactSize_negative :
    (¬ ExactSize Boost.decimal (init blankSes 0) (arrivalOfLen 0 20) ∧
      (arrivalOfLen 0 20).packet.payloadLen = -20 ∧
      (arrivalOfLen 0 20).packet.dataSize = 2 ^ 64 - 20) ∧
    ¬ ExactSize Boost.decimal (init blankSes 0) (arrivalOfLen 128 40) ∧
      (arrivalOfLen 128 40).packet.payloadLen = 32768 ∧
      (arrivalOfLen 128 40).packet.dataSize = 2 ^ 64 - 32768 := by
  have hshort : ReachesAppend (arrivalOfLen 0 20) ((init blankSes 0).meets Boost.decimal
      (arrivalOfLen 0 20).call (behavior (arrivalOfLen 0 20).packet)) := by
    unfold ReachesAppend
    decide +kernel
  have hlong : ReachesAppend (arrivalOfLen 128 40) ((init blankSes 0).meets Boost.decimal
      (arrivalOfLen 128 40).call (behavior (arrivalOfLen 128 40).packet)) := by
    unfold ReachesAppend
    decide +kernel
  refine ⟨⟨fun h => ?_, by decide +kernel, by decide +kernel⟩, fun h => ?_, by decide +kernel,
    by decide +kernel⟩
  · exact absurd (h hshort).1 (by decide +kernel)
  · exact absurd (h hlong).1 (by decide +kernel)

end HttpDecoder
