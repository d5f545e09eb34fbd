import HttpDecoder.Suppression
import HttpDecoder.TableInvariant

/-!
# Packets that are not TCP

`Format` asks for the protocol to know how long the transport header is, and points
`m_pTcphdr` behind the IP header whatever the answer.  `Process` does not ask: it takes
ports, number and flags from there.

* `transport` — the bytes behind the IP header.
* `seqNo_format`, `closes_format` — what `Process` takes from them; `dataLen_format_other`
  — the length of a frame that is not TCP.
* `Untouched` — a call that, but for its sweep, leaves every session alone.
* `untouched_iff_dropped` — the calls that do; `untouched_iff` — **the frames that are not
  TCP and do**.
-/

namespace HttpDecoder

open CLib CHandle

/-! ## What is read behind the IP header -/

/-- The byte at `i` behind the IP header. -/
def transport (msg : Mem) (i : Nat) : UInt8 := msg (14 + (msg 14).toNat % 16 * 4 + i)

section Format

variable {msg : Mem} {now : TimeVal}

/-- The number is the bytes 4 to 7, which in a datagram are its length and checksum. -/
theorem seqNo_format : (CFormatPacket.format msg now).seqNo.toNat =
    (transport msg 7).toNat + 256 * (transport msg 6).toNat + 65536 * (transport msg 5).toNat +
      16777216 * (transport msg 4).toNat := by
  have hb := fun i => (transport msg i).toNat_lt
  have hload : (CFormatPacket.format msg now).tcphdr.seq.toNat =
      (transport msg 4).toNat + 256 * (transport msg 5).toNat +
        65536 * (transport msg 6).toNat + 16777216 * (transport msg 7).toNat := by
    show (UInt32.ofNat ((transport msg 4).toNat + 256 * (transport msg 5).toNat +
      65536 * (transport msg 6).toNat + 16777216 * (transport msg 7).toNat)).toNat = _
    have h4 := hb 4
    have h5 := hb 5
    have h6 := hb 6
    have h7 := hb 7
    rw [UInt32.toNat_ofNat']
    omega
  exact toNat_ntohl (hb 4) (hb 5) (hb 6) (hb 7) hload

/-- The flags are two bits of byte 13, which in a datagram is payload. -/
theorem closes_format : (CFormatPacket.format msg now).closes = false ↔
    (transport msg 13).toNat % 2 = 0 ∧ (transport msg 13).toNat / 4 % 2 = 0 := by
  have hflags : (CFormatPacket.format msg now).closes =
      (decide ((transport msg 13).toNat % 2 = 1) ||
        decide ((transport msg 13).toNat / 4 % 2 = 1)) := rfl
  rw [hflags, Bool.or_eq_false_iff, decide_eq_false_iff_not, decide_eq_false_iff_not]
  omega

/-- A frame that is not TCP is empty if it ends 8 bytes behind the IP header. -/
theorem dataLen_format_other
    (hproto : (CFormatPacket.format msg now).iphdr.protocol ≠ CFormatPacket.ipprotoTcp) :
    (CFormatPacket.format msg now).dataLen = 0 ↔
      (ntohs (CFormatPacket.format msg now).iphdr.totLen).toNat =
        4 * (CFormatPacket.format msg now).iphdr.ihl + 8 := by
  have hihl : (CFormatPacket.format msg now).iphdr.ihl < 16 := Nat.mod_lt _ (by decide)
  have htot := (ntohs (CFormatPacket.format msg now).iphdr.totLen).toNat_lt
  have hoffset : (CFormatPacket.format msg now).dataLen =
      toInt16 (toInt16 (ntohs (CFormatPacket.format msg now).iphdr.totLen).toNat -
        ((CFormatPacket.format msg now).iphdr.ihl * 4 + 8 : Nat)) := by
    show toInt16 (_ - ((if (CFormatPacket.format msg now).iphdr.protocol =
      CFormatPacket.ipprotoTcp then _ else _ : Nat) : Int)) = _
    rw [if_neg hproto]
    rfl
  rw [hoffset]
  unfold toInt16
  omega

end Format

/-! ## Calls that touch no session -/

/-- Outside its sweep, the call creates, changes, parses and removes no session. -/
structure Untouched (B : Boost) (h : CHandle) (x : Call) : Prop where
  /-- Every connection has the session the sweep left it. -/
  sessions : ∀ c, (h.process B x).handle.sesHash.session c =
    (h.timeOutCheck B x.env).1.sesHash.session c
  /-- The calls of `Parse` are those of the sweep. -/
  calls : (h.process B x).calls = (h.timeOutCheck B x.env).2

section Dropped

variable {B : Boost} {h : CHandle} {x : Call} {info : CSharedBehaviorInfo}

/-- A call that serves a packet without a trace closes nothing. -/
theorem closes_of_serve_nil {s : CSession} (hout : (serve B x info s).2 = []) :
    x.packet.closes = false := by
  rw [← Bool.not_eq_true]
  intro hclose
  unfold serve at hout
  rw [if_pos hclose] at hout
  cases hout

/-- What is served and not closed is there afterwards. -/
theorem serve_fst_ne_none {s : CSession} (hopen : x.packet.closes = false) :
    (serve B x info s).1 ≠ none := by
  cases hacc : Traced.accepts x.packet s with
  | true =>
    rw [Traced.serve_of_accepts hacc]
    exact Option.some_ne_none _
  | false =>
    rw [Traced.serve_of_not_accepts hopen hacc]
    exact Option.some_ne_none _

/-- A call that touches no session meets one it need not refresh, closes nothing and finds
the packet repeated or empty. -/
theorem Untouched.dropped (hun : Untouched B h x) (hw : h.sesHash.WF) (hinfo : x.info = some info) :
    ∃ s, (h.timeOutCheck B x.env).1.sesHash.session x.packet.conn = some s ∧
      s.refreshTime = x.env.timeFind % 2 ^ 32 ∧ x.packet.closes = false ∧
      (s.seqNo = x.packet.seqNo ∨ x.packet.dataLen = 0) := by
  obtain ⟨hset, a, hcalls⟩ := process_meets B hw hinfo
  have hopen : x.packet.closes = false := by
    have hnil := hun.calls
    rw [hcalls] at hnil
    apply closes_of_serve_nil
    exact List.map_eq_nil_iff.mp (List.append_right_eq_self.mp hnil)
  have hself := hset.self
  rw [hun.sessions] at hself
  obtain ⟨s, hsw⟩ := Option.ne_none_iff_exists'.mp (hself ▸ serve_fst_ne_none hopen)
  have hmeets : h.meets B x info = { s with refreshTime := x.env.timeFind % 2 ^ 32 } := by
    rw [meets, hsw]
    rfl
  rw [hsw] at hself
  cases hacc : Traced.accepts x.packet (h.meets B x info) with
  | true =>
    -- a packet that is filed gives the session another number
    rw [Traced.serve_of_accepts hacc] at hself
    have hnumber := congrArg CSession.seqNo (Option.some.inj hself)
    rw [Traced.processData_seqNo] at hnumber
    have hnew := (Traced.accepts_iff.mp hacc).2.1
    rw [hmeets] at hnew
    exact absurd hnumber hnew
  | false =>
    rw [Traced.serve_of_not_accepts hopen hacc, hmeets] at hself
    refine ⟨s, hsw, congrArg CSession.refreshTime (Option.some.inj hself), hopen, ?_⟩
    by_contra hnot
    obtain ⟨hnew, hdata⟩ := not_or.mp hnot
    rw [Traced.accepts_iff.mpr ⟨hopen, by rw [hmeets]; exact hnew, hdata⟩] at hacc
    cases hacc

/-- Such a call touches no session. -/
theorem untouched_of_dropped {s : CSession} (hw : h.sesHash.WF) (hinfo : x.info = some info)
    (hsw : (h.timeOutCheck B x.env).1.sesHash.session x.packet.conn = some s)
    (hfresh : s.refreshTime = x.env.timeFind % 2 ^ 32) (hopen : x.packet.closes = false)
    (hdrop : s.seqNo = x.packet.seqNo ∨ x.packet.dataLen = 0) : Untouched B h x := by
  obtain ⟨hset, a, hcalls⟩ := process_meets B hw hinfo
  have hmeets : h.meets B x info = s := by
    rw [meets, hsw]
    show ({ s with refreshTime := x.env.timeFind % 2 ^ 32 } : CSession) = s
    rw [← hfresh]
  have hacc : Traced.accepts x.packet s = false := by
    rw [← Bool.not_eq_true, Traced.accepts_iff]
    rintro ⟨-, hnew, hdata⟩
    exact hdrop.elim hnew hdata
  rw [hmeets, Traced.serve_of_not_accepts hopen hacc] at hset hcalls
  refine ⟨fun c => ?_, hcalls.trans (List.append_nil _)⟩
  by_cases hc : x.packet.conn = c
  · rw [← hc, hset.self, hsw]
  · exact hset.other c hc

/-- **The calls that touch no session** are those whose packet meets a session it need not
refresh, closes nothing and is repeated or empty. -/
theorem untouched_iff_dropped (hw : h.sesHash.WF) (hinfo : x.info = some info) :
    Untouched B h x ↔ ∃ s, (h.timeOutCheck B x.env).1.sesHash.session x.packet.conn = some s ∧
      s.refreshTime = x.env.timeFind % 2 ^ 32 ∧ x.packet.closes = false ∧
      (s.seqNo = x.packet.seqNo ∨ x.packet.dataLen = 0) := by
  constructor
  · intro hun
    exact hun.dropped hw hinfo
  · rintro ⟨s, hsw, hfresh, hopen, hdrop⟩
    exact untouched_of_dropped hw hinfo hsw hfresh hopen hdrop

end Dropped

/-- **The frames that are not TCP and touch no session.**  In every reachable state: those
whose endpoints have a session, refreshed within the same second, where byte 13 behind
the IP header shows neither FIN nor RST and the bytes 4 to 7 show the number of the
session, unless the frame ends after 8 bytes. -/
theorem untouched_iff {B : Boost} {h : CHandle} (hr : Reachable B h) {msg : Mem} {now : TimeVal}
    (hproto : (CFormatPacket.format msg now).iphdr.protocol ≠ CFormatPacket.ipprotoTcp) (e : Env) :
    let x : Arrival := ⟨CFormatPacket.format msg now, e⟩
    Untouched B h x.call ↔
      ∃ s, (h.timeOutCheck B e).1.sesHash.session x.packet.conn = some s ∧
        s.refreshTime = e.timeFind % 2 ^ 32 ∧
        ((transport msg 13).toNat % 2 = 0 ∧ (transport msg 13).toNat / 4 % 2 = 0) ∧
        (s.seqNo.toNat = (transport msg 7).toNat + 256 * (transport msg 6).toNat +
            65536 * (transport msg 5).toNat + 16777216 * (transport msg 4).toNat ∨
          (ntohs x.packet.iphdr.totLen).toNat = 4 * x.packet.iphdr.ihl + 8) := by
  intro x
  rw [untouched_iff_dropped hr.wf (Arrival.call_info x)]
  apply exists_congr
  intro s
  rw [Arrival.call_packet, closes_format, dataLen_format_other hproto, ← UInt32.toNat_inj,
    seqNo_format]
  rfl

/-! ## A datagram on the ports of a session -/

/-- A UDP frame from 1:1000 to 2:80 with six bytes of data. -/
def datagram (data : UInt8) : Mem := fun i =>
  (List.replicate 12 0 ++ [0x08, 0x00] ++
    [0x45, 0, 0, 34, 0, 0, 0, 0, 64, 17, 0, 0, 0, 0, 0, 1, 0, 0, 0, 2] ++
    [3, 232, 0, 80, 0, 14, 0, 0] ++ List.replicate 6 data).getD i 0

/-- Such a frame as it arrives. -/
def datagramArrival (data : UInt8) : Arrival :=
  ⟨CFormatPacket.format (datagram data) ⟨1, 0⟩, Env.granting 0⟩

theorem untouched_iff_datagram :
    let x := datagramArrival 1
    Untouched Boost.decimal afterRequest x.call ↔
      ∃ s, (afterRequest.timeOutCheck Boost.decimal (Env.granting 0)).1.sesHash.session
          x.packet.conn = some s ∧
        s.refreshTime = (Env.granting 0).timeFind % 2 ^ 32 ∧
        ((transport (datagram 1) 13).toNat % 2 = 0 ∧
          (transport (datagram 1) 13).toNat / 4 % 2 = 0) ∧
        (s.seqNo.toNat = (transport (datagram 1) 7).toNat + 256 * (transport (datagram 1) 6).toNat +
            65536 * (transport (datagram 1) 5).toNat +
            16777216 * (transport (datagram 1) 4).toNat ∨
          (ntohs x.packet.iphdr.totLen).toNat = 4 * x.packet.iphdr.ihl + 8) := by
  have hr : Reachable Boost.decimal afterRequest := ⟨_, _, _, rfl⟩
  have hproto : (CFormatPacket.format (datagram 1) ⟨1, 0⟩).iphdr.protocol ≠
      CFormatPacket.ipprotoTcp := by decide
  exact untouched_iff hr hproto (Env.granting 0)

/-- It removes the session, for its data has the bit of the FIN flag; on an empty table
it opens one. -/
theorem not_untouched_datagram :
    ¬ Untouched Boost.decimal afterRequest (datagramArrival 1).call ∧
      ¬ Untouched Boost.decimal (init blankSes 0) (datagramArrival 0).call := by
  constructor
  · intro hun
    have hsame := hun.sessions s(⟨1, 1000⟩, ⟨2, 80⟩)
    have hbefore : ((afterRequest.timeOutCheck Boost.decimal
        (datagramArrival 1).call.env).1.sesHash.session s(⟨1, 1000⟩, ⟨2, 80⟩)).isSome = true := by
      decide +kernel
    have hafter : ((afterRequest.process Boost.decimal
        (datagramArrival 1).call).handle.sesHash.session s(⟨1, 1000⟩, ⟨2, 80⟩)).isSome =
          false := by
      decide +kernel
    rw [hsame, hbefore] at hafter
    cases hafter
  · intro hun
    have hsame := hun.sessions s(⟨1, 1000⟩, ⟨2, 80⟩)
    have hbefore : (((init blankSes 0).timeOutCheck Boost.decimal
        (datagramArrival 0).call.env).1.sesHash.session s(⟨1, 1000⟩, ⟨2, 80⟩)).isSome =
          false := by
      decide +kernel
    have hafter : (((init blankSes 0).process Boost.decimal
        (datagramArrival 0).call).handle.sesHash.session s(⟨1, 1000⟩, ⟨2, 80⟩)).isSome =
          true := by
      decide +kernel
    rw [hsame, hbefore] at hafter
    cases hafter

end HttpDecoder
