import HttpDecoder.Public

/-!
# `CFormatPacket`: one captured frame

`FormatPacket.h` and `FormatPacket.cpp`.  `format` reads the Ethernet, IP and
TCP headers of a frame in memory.  Header fields are kept as they lie in memory
on a little-endian host (`ld16`, `ld32`), and the program swaps them with
`ntohs` and `ntohl` where it uses them.
-/

namespace HttpDecoder

open CLib

/-! ## Byte order -/

/-- A 16-bit load on a little-endian host. -/
def ld16 (m : Mem) (i : Nat) : UInt16 := UInt16.ofNat ((m i).toNat + 256 * (m (i + 1)).toNat)

/-- A 32-bit load on a little-endian host. -/
def ld32 (m : Mem) (i : Nat) : UInt32 :=
  UInt32.ofNat ((m i).toNat + 256 * (m (i + 1)).toNat + 65536 * (m (i + 2)).toNat +
    16777216 * (m (i + 3)).toNat)

/-- `ntohs` on a little-endian host. -/
def ntohs (x : UInt16) : UInt16 := UInt16.ofNat (x.toNat % 256 * 256 + x.toNat / 256)

/-- `ntohl` on a little-endian host. -/
def ntohl (x : UInt32) : UInt32 :=
  UInt32.ofNat (x.toNat % 256 * 16777216 + x.toNat / 256 % 256 * 65536 +
    x.toNat / 65536 % 256 * 256 + x.toNat / 16777216)

/-- A 16-bit field in network byte order. -/
theorem toNat_ntohs_ld16 (m : Mem) (i : Nat) :
    (ntohs (ld16 m i)).toNat = 256 * (m i).toNat + (m (i + 1)).toNat := by
  have h₀ := (m i).toNat_lt
  have h₁ := (m (i + 1)).toNat_lt
  unfold ntohs ld16
  rw [UInt16.toNat_ofNat', UInt16.toNat_ofNat',
    Nat.mod_eq_of_lt (show (m i).toNat + 256 * (m (i + 1)).toNat < 2 ^ 16 by omega)]
  have hdiv : ((m i).toNat + 256 * (m (i + 1)).toNat) / 256 = (m (i + 1)).toNat := by omega
  have hmod : ((m i).toNat + 256 * (m (i + 1)).toNat) % 256 = (m i).toNat := by omega
  rw [hdiv, hmod]
  omega

/-! ## The packet -/

/-- `struct timeval`. -/
structure TimeVal where
  sec : Int
  usec : Int
deriving DecidableEq, Repr

/-- The fields of `struct iphdr` the decoder reads, as they lie in memory. -/
structure IpHdr where
  /-- Header length in 32-bit words. -/
  ihl : Nat
  totLen : UInt16
  protocol : UInt8
  saddr : UInt32
  daddr : UInt32
deriving DecidableEq, Repr

/-- The fields of `struct tcphdr` the decoder reads, as they lie in memory. -/
structure TcpHdr where
  source : UInt16
  dest : UInt16
  seq : UInt32
  ackSeq : UInt32
  /-- Header length in 32-bit words. -/
  doff : Nat
  fin : Bool
  rst : Bool
deriving DecidableEq, Repr

/-- `CFormatPacket` after `Format`. -/
structure CFormatPacket where
  /-- `m_pIphdr`. -/
  iphdr : IpHdr
  /-- `m_pTcphdr`, set for every transport protocol. -/
  tcphdr : TcpHdr
  /-- The memory behind `m_pData`. -/
  data : Mem
  /-- `m_DataLen`. -/
  dataLen : Int
  /-- `_time`. -/
  time : TimeVal

namespace CFormatPacket

/-- `IPPROTO_TCP`. -/
def ipprotoTcp : UInt8 := 6

/-- `CFormatPacket::Format` on the frame at `packet`, at wall-clock time `now`. -/
def format (packet : Mem) (now : TimeVal) : CFormatPacket :=
  let iphdr : IpHdr :=
    { ihl := (packet 14).toNat % 16
      totLen := ld16 packet 16
      protocol := packet 23
      saddr := ld32 packet 26
      daddr := ld32 packet 30 }
  let t := 14 + iphdr.ihl * 4
  let tcphdr : TcpHdr :=
    { source := ld16 packet t
      dest := ld16 packet (t + 2)
      seq := ld32 packet (t + 4)
      ackSeq := ld32 packet (t + 8)
      doff := (packet (t + 12)).toNat / 16
      fin := (packet (t + 13)).toNat % 2 = 1
      rst := (packet (t + 13)).toNat / 4 % 2 = 1 }
  let iplen := toInt16 (ntohs iphdr.totLen).toNat
  -- only the TCP case reads the transport header for its length
  let offset := if iphdr.protocol = ipprotoTcp then iphdr.ihl * 4 + tcphdr.doff * 4
    else iphdr.ihl * 4 + 8
  { iphdr := iphdr
    tcphdr := tcphdr
    data := packet.shift (14 + offset)
    dataLen := toInt16 (iplen - offset)
    time := now }

variable (p : CFormatPacket)

/-- `ntohl(packet.GetSrcIp())`. -/
def srcIp : UInt32 := ntohl p.iphdr.saddr

/-- `ntohl(packet.GetDstIp())`. -/
def dstIp : UInt32 := ntohl p.iphdr.daddr

/-- `ntohs(packet.GetSrcPort())`. -/
def srcPort : UInt16 := ntohs p.tcphdr.source

/-- `ntohs(packet.GetDstPort())`. -/
def dstPort : UInt16 := ntohs p.tcphdr.dest

/-- `ntohl(packet.GetTcphdr()->seq)`. -/
def seqNo : UInt32 := ntohl p.tcphdr.seq

/-- `ntohl(packet.GetTcphdr()->ack_seq)`. -/
def ackSeqNo : UInt32 := ntohl p.tcphdr.ackSeq

/-- `packet.GetPacketTime()->tv_sec * 1000000LL + packet.GetPacketTime()->tv_usec`. -/
def timeStamp : UInt64 :=
  UInt64.ofNat ((p.time.sec * 1000000 + p.time.usec) % 2 ^ 64).toNat

/-- `GetSrcMac`, which answers 0 for every frame. -/
def srcMac : UInt64 := 0

/-- `GetDstMac`, which answers 0 for every frame. -/
def dstMac : UInt64 := 0

/-- The sender of the packet. -/
def src : Endpoint := ⟨p.srcIp, p.srcPort⟩

/-- The receiver of the packet. -/
def dst : Endpoint := ⟨p.dstIp, p.dstPort⟩

/-- The connection the packet belongs to. -/
def conn : Conn := s(p.src, p.dst)

/-- The size handed to `Append`. -/
def dataSize : Nat := sizeT p.dataLen

/-- The bytes handed to `Append`. -/
def payload : Bytes := p.data.read 0 p.dataSize

/-- The packet closes its connection. -/
def closes : Bool := p.tcphdr.fin || p.tcphdr.rst

end CFormatPacket

end HttpDecoder
