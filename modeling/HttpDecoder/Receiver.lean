import HttpDecoder.Handle

/-!
# `Receiver`: from a frame to a call of `Process`

`Receiver.h` and `Receiver.cpp`.  `handleMessage` formats the frame, decides the
direction from the destination port alone, and calls `Process`.
-/

namespace HttpDecoder

open CLib

/-- The behaviour record `Receiver::HandleMessage` fills in for a packet: the
server is the receiver when the destination port is 80, and the sender
otherwise. -/
def behavior (p : CFormatPacket) : CSharedBehaviorInfo :=
  if p.dstPort = 0x50 then
    { ip := p.dstIp
      port := p.dstPort.toUInt32
      behaviorId := p.iphdr.protocol.toUInt32
      matchWay := c2sMatch }
  else
    { ip := p.srcIp
      port := p.srcPort.toUInt32
      behaviorId := p.iphdr.protocol.toUInt32
      matchWay := s2cMatch }

/-- A packet to port 80 goes to the server. -/
theorem behavior_matchWay_of_eq {p : CFormatPacket} (h : p.dst.port = 80) :
    (behavior p).matchWay = c2sMatch := by
  unfold behavior
  rw [if_pos (show p.dstPort = 0x50 from h)]

/-- Every other packet goes to the client. -/
theorem behavior_matchWay_of_ne {p : CFormatPacket} (h : p.dst.port ≠ 80) :
    (behavior p).matchWay = s2cMatch := by
  unfold behavior
  rw [if_neg (show ¬ p.dstPort = 0x50 from h)]

/-- A packet with what the outside world supplies while it is processed. -/
structure Arrival where
  packet : CFormatPacket
  env : Env

/-- The call of `Process` that `HandleMessage` makes for a packet. -/
def Arrival.call (x : Arrival) : Call := ⟨x.packet, some (behavior x.packet), x.env⟩

@[simp] theorem Arrival.call_packet (x : Arrival) : x.call.packet = x.packet := rfl

@[simp] theorem Arrival.call_info (x : Arrival) : x.call.info = some (behavior x.packet) := rfl

@[simp] theorem Arrival.call_env (x : Arrival) : x.call.env = x.env := rfl

/-- Filing a packet to port 80. -/
theorem processData_of_port (B : Boost) {x : Arrival} (hport : x.packet.dst.port = 80)
    (s : CSession) :
    let r := CHandle.parseFull B x.env.parse (s.setSeq x.packet.seqNo x.packet.ackSeqNo)
    let q := CHandle.appendRequest x.env x.packet (CHandle.stampRequest x.packet r.1)
    CHandle.processData B x.env x.packet (behavior x.packet).matchWay s = ⟨q.2, r.2, q.1⟩ := by
  unfold CHandle.processData
  rw [behavior_matchWay_of_eq hport]
  rfl

/-- Filing any other packet. -/
theorem processData_of_port_ne (B : Boost) {x : Arrival} (hport : x.packet.dst.port ≠ 80)
    (s : CSession) :
    let q := CHandle.appendResponse x.env x.packet
      (CHandle.stampResponse x.packet (s.setSeq x.packet.seqNo x.packet.ackSeqNo))
    CHandle.processData B x.env x.packet (behavior x.packet).matchWay s = ⟨q.2, [], q.1⟩ := by
  unfold CHandle.processData
  rw [behavior_matchWay_of_ne hport]
  rfl

/-- `Receiver::HandleMessage` on the frame at `msg`; `Receiver::Work` does nothing
else. -/
def handleMessage (B : Boost) (h : CHandle) (msg : Option Mem) (now : TimeVal) (e : Env) :
    CHandle.Processed :=
  match msg with
  | none => ⟨h, none, []⟩
  | some msg => h.process B (Arrival.call ⟨CFormatPacket.format msg now, e⟩)

end HttpDecoder
