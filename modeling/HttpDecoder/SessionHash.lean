import HttpDecoder.Buffer
import HttpDecoder.FormatPacket

/-!
# `CSession` and `CSessionHashTable`

`SessionHash.h` and `SessionHash.cpp`.  Sessions are shared objects: the table
holds pointers to them, and `Process` changes a session through the pointer that
`Find` or `Create` returned.  So the model keeps the objects by address
(`CSessionHashTable.ses`) and the buckets hold addresses.

* `hashVal`, `isSameSes` — the bucket of a pair of endpoints and the test that a
  session connects them, in either direction.
* `find`, `create`, `remove` — the three operations of the table.
-/

namespace HttpDecoder

open CLib

/-! ## Sessions -/

/-- `CSession`. -/
structure CSession where
  serverIp : UInt32
  clientIp : UInt32
  serverPort : UInt16
  clientPort : UInt16
  serverMac : UInt64
  clientMac : UInt64
  createdTime : Int
  refreshTime : Int
  seqNo : UInt32
  ackSeqNo : UInt32
  /-- `Protocol`, the value the behaviour id is cast to. -/
  protocol : UInt32
  reqBuf : CBuffer
  rspBuf : CBuffer
  result : CResult

/-- The allocator's answers to one call of `CSession::Reset`. -/
structure SesAlloc where
  /-- For `ReqBuf.Reset()`. -/
  req : ResetAlloc
  /-- For `RspBuf.Reset()`. -/
  rsp : ResetAlloc

/-- What the outside world supplies to `new CSession()`. -/
structure NewSession where
  /-- What the memory of `SeqNo` holds: no constructor sets it. -/
  seqNo : UInt32
  /-- What the memory of `AckSeqNo` holds. -/
  ackSeqNo : UInt32
  /-- The allocator's answers to the constructors of the two buffers. -/
  bufs : SesAlloc
  /-- The allocator's answers to the `Reset` in the body of the constructor. -/
  reset : SesAlloc

namespace CSession

variable (s : CSession)

/-- The server end of the session. -/
def server : Endpoint := ⟨s.serverIp, s.serverPort⟩

/-- The client end of the session. -/
def client : Endpoint := ⟨s.clientIp, s.clientPort⟩

/-- The connection of the session. -/
def conn : Conn := s(s.server, s.client)

/-- Nothing but the endpoints takes part in the connection. -/
theorem conn_congr {s s' : CSession} (hserver : s'.server = s.server)
    (hclient : s'.client = s.client) : s'.conn = s.conn := by
  rw [conn, conn, hserver, hclient]

/-- The session with new sequence numbers. -/
def setSeq (seqNo ackSeqNo : UInt32) : CSession := { s with seqNo := seqNo, ackSeqNo := ackSeqNo }

@[simp] theorem setSeq_server (n m : UInt32) : (s.setSeq n m).server = s.server := rfl

@[simp] theorem setSeq_client (n m : UInt32) : (s.setSeq n m).client = s.client := rfl

@[simp] theorem setSeq_conn (n m : UInt32) : (s.setSeq n m).conn = s.conn := rfl

@[simp] theorem setSeq_seqNo (n m : UInt32) : (s.setSeq n m).seqNo = n := rfl

@[simp] theorem setSeq_ackSeqNo (n m : UInt32) : (s.setSeq n m).ackSeqNo = m := rfl

@[simp] theorem setSeq_reqBuf (n m : UInt32) : (s.setSeq n m).reqBuf = s.reqBuf := rfl

@[simp] theorem setSeq_rspBuf (n m : UInt32) : (s.setSeq n m).rspBuf = s.rspBuf := rfl

@[simp] theorem setSeq_result (n m : UInt32) : (s.setSeq n m).result = s.result := rfl

/-- `CSession::Reset`. -/
def reset (e : SesAlloc) : CSession :=
  { s with
    reqBuf := s.reqBuf.reset e.req
    rspBuf := s.rspBuf.reset e.rsp
    result := CResult.reset }

@[simp] theorem reset_conn (e : SesAlloc) : (s.reset e).conn = s.conn := rfl

end CSession

/-! ## The table -/

/-- `CSessionHashTable`: the session objects by address, the first address not
handed out yet, and the buckets of `_cseshash`. -/
structure CSessionHashTable where
  /-- The session object at an address. -/
  ses : Nat → CSession
  /-- The address of the next object. -/
  next : Nat
  /-- `_cseshash`, whose 65536 deques hold pointers. -/
  cseshash : UInt16 → List Nat

/-- `CSessionHashTable::HashVal`. -/
def hashVal (srcIp dstIp : UInt32) (srcPort dstPort : UInt16) : UInt16 :=
  let h := (srcIp ^^^ dstIp) ^^^ (srcPort.toUInt32 ^^^ dstPort.toUInt32)
  let h := h ^^^ (h >>> 16)
  let h := h ^^^ (h >>> 8)
  (h &&& 0xffff).toUInt16

/-- `CSessionHashTable::IsSameSes`. -/
def isSameSes (srcIp dstIp : UInt32) (srcPort dstPort : UInt16) (ptr : CSession) : Bool :=
  (ptr.serverIp = srcIp && ptr.clientIp = dstIp && ptr.serverPort = srcPort &&
    ptr.clientPort = dstPort) ||
  (ptr.serverIp = dstIp && ptr.clientIp = srcIp && ptr.serverPort = dstPort &&
    ptr.clientPort = srcPort)

namespace CSessionHashTable

/-- `CSessionHashTable::Init`. -/
def init (ses : Nat → CSession) : CSessionHashTable where
  ses := ses
  next := 0
  cseshash _ := []

variable (t : CSessionHashTable)

/-- A store through the pointer `a`. -/
def set (a : Nat) (s : CSession) : CSessionHashTable :=
  { t with ses := Function.update t.ses a s }

/-- `CSessionHashTable::Find` when `time(0)` answers `now`. -/
def find (now : Int) (srcIp dstIp : UInt32) (srcPort dstPort : UInt16) :
    CSessionHashTable × Option Nat :=
  -- `uint32_t tsNow = time(0)`
  let tsNow := now % 2 ^ 32
  let index := hashVal srcIp dstIp srcPort dstPort
  match (t.cseshash index).find? fun a => isSameSes srcIp dstIp srcPort dstPort (t.ses a) with
  | some a => (t.set a { t.ses a with refreshTime := tsNow }, some a)
  | none => (t, none)

/-- The session `CSessionHashTable::Create` fills in when `time(0)` answers
`now`. -/
def newSession (now : Int) (e : NewSession) (p : CFormatPacket) (info : CSharedBehaviorInfo) :
    CSession :=
  let ptr : CSession :=
    { serverIp := p.dstIp
      clientIp := p.srcIp
      serverPort := p.dstPort
      clientPort := p.srcPort
      serverMac := CFormatPacket.dstMac
      clientMac := CFormatPacket.srcMac
      createdTime := now
      refreshTime := now
      seqNo := e.seqNo
      ackSeqNo := e.ackSeqNo
      protocol := info.behaviorId
      reqBuf := (CBuffer.new e.bufs.req).reset e.reset.req
      rspBuf := (CBuffer.new e.bufs.rsp).reset e.reset.rsp
      result := CResult.reset }
  if info.ip = p.srcIp ∧ info.port = p.srcPort.toUInt32 then
    { ptr with
      serverIp := p.srcIp
      clientIp := p.dstIp
      serverPort := p.srcPort
      clientPort := p.dstPort
      serverMac := CFormatPacket.srcMac
      clientMac := CFormatPacket.dstMac }
  else ptr

/-- `CSessionHashTable::Create`. -/
def create (now : Int) (e : NewSession) (p : CFormatPacket) (info : CSharedBehaviorInfo) :
    CSessionHashTable × Nat :=
  let s := newSession now e p info
  let index := hashVal s.serverIp s.clientIp s.serverPort s.clientPort
  ({ ses := Function.update t.ses t.next s
     next := t.next + 1
     cseshash := Function.update t.cseshash index (t.cseshash index ++ [t.next]) },
    t.next)

/-- `CSessionHashTable::Remove`. -/
def remove (srcIp dstIp : UInt32) (srcPort dstPort : UInt16) : CSessionHashTable :=
  let index := hashVal srcIp dstIp srcPort dstPort
  { t with
    cseshash := Function.update t.cseshash index
      ((t.cseshash index).eraseP fun a => isSameSes srcIp dstIp srcPort dstPort (t.ses a)) }

end CSessionHashTable

end HttpDecoder
