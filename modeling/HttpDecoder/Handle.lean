import HttpDecoder.HttpParse
import HttpDecoder.Lib.StepMachine

/-!
# `CHandle`: processing one packet

`Handle.h` and `Handle.cpp`.

* `timeOutCheck` — the sweep over the session table, guarded by its interval.
* `parseFull`, `stampRequest`, `appendRequest` and their like — the steps that file
  the payload of a data packet; `processData` puts them together.
* `process` — `CHandle::Process`.
* `handleMachine` — the handle as a machine that reads calls of `Process` and
  emits the calls of `Parse` made on the way.

What a call gets from outside (clock, heap, uninitialised memory) is its `Env`.
-/

namespace HttpDecoder

open CLib

/-- `CHandle`. -/
structure CHandle where
  /-- `_sesHash`. -/
  sesHash : CSessionHashTable
  /-- `_lastTimeOutCheck`. -/
  lastTimeOutCheck : Int

/-- What the outside world supplies during one call of `Process`. -/
structure Env where
  /-- `time(0)` in `TimeOutCheck`. -/
  timeCheck : Int
  /-- `time(0)` in `Find`. -/
  timeFind : Int
  /-- `time(0)` in `Create`. -/
  timeCreate : Int
  /-- For the session `Create` allocates. -/
  new : NewSession
  /-- The allocator's answer to `Append`. -/
  append : Alloc
  /-- For the call of `Parse` that the packet triggers. -/
  parse : ParseEnv
  /-- For the call of `Parse` that the sweep makes on the session between the two
  endpoints. -/
  sweep : Endpoint → Endpoint → ParseEnv

/-- One call of `Process`. -/
structure Call where
  packet : CFormatPacket
  /-- `pInfo`, `none` being `NULL`. -/
  info : Option CSharedBehaviorInfo
  env : Env

/-- A call of `Parse`: the session pointer, the session it is handed, and what
`Send` prints. -/
structure ParseCall where
  addr : Nat
  /-- The session before the call. -/
  ses : CSession
  /-- The record, if one is sent. -/
  sent : Option Record

namespace CHandle

/-- `CHandle::Init` when `time(0)` answers `now`. -/
def init (ses : Nat → CSession) (now : Int) : CHandle where
  sesHash := CSessionHashTable.init ses
  lastTimeOutCheck := now

/-! ## The sweep -/

/-- The sweep parses a session that holds data and has been quiet for more than
a minute. -/
def sweepParses (tsNow : Int) (s : CSession) : Bool :=
  (decide (s.reqBuf.len > 0) || decide (s.rspBuf.len > 0)) && decide (tsNow - s.refreshTime > 60)

/-- The sweep erases a session that has been quiet for `TIMEOUT` seconds. -/
def sweepExpires (tsNow : Int) (s : CSession) : Bool := decide (tsNow - s.refreshTime ≥ timeout)

/-- The state of the sweep: the session objects, the bucket kept so far and the
calls of `Parse`. -/
@[ext] structure Sweep where
  /-- The session objects. -/
  ses : Nat → CSession
  /-- The pointers that stay in the bucket. -/
  kept : List Nat
  /-- The calls of `Parse`. -/
  calls : List ParseCall

/-- The inner loop of `TimeOutCheck` over one bucket. -/
def sweepBucket (B : Boost) (e : Env) (ses : Nat → CSession) : List Nat → Sweep
  | [] => ⟨ses, [], []⟩
  | a :: rest =>
    let s := ses a
    let r := parse B (e.sweep s.server s.client) s
    let ses₁ := if sweepParses e.timeCheck s then Function.update ses a r.1 else ses
    let calls := if sweepParses e.timeCheck s then [⟨a, s, r.2⟩] else []
    let q := sweepBucket B e ses₁ rest
    ⟨q.ses, if sweepExpires e.timeCheck (ses₁ a) then q.kept else a :: q.kept, calls ++ q.calls⟩

/-- The outer loop of `TimeOutCheck` with `n` buckets left from `i` on. -/
def sweepTable (B : Boost) (e : Env) (t : CSessionHashTable) (i : Nat) :
    Nat → CSessionHashTable × List ParseCall
  | 0 => (t, [])
  | n + 1 =>
    let index := UInt16.ofNat i
    let q := sweepBucket B e t.ses (t.cseshash index)
    let t₁ := { t with ses := q.ses, cseshash := Function.update t.cseshash index q.kept }
    let r := sweepTable B e t₁ (i + 1) n
    (r.1, q.calls ++ r.2)

/-- The interval guard of `TimeOutCheck` lets the sweep run. -/
def sweeps (h : CHandle) (e : Env) : Bool :=
  !decide (e.timeCheck - h.lastTimeOutCheck < timeoutCheckDur)

/-- `CHandle::TimeOutCheck`, whose loop runs over the buckets below 65535. -/
def timeOutCheck (B : Boost) (h : CHandle) (e : Env) : CHandle × List ParseCall :=
  if h.sweeps e then
    let r := sweepTable B e h.sesHash 0 65535
    ({ h with sesHash := r.1 }, r.2)
  else (h, [])

/-! ## Filing a data packet -/

/-- What filing a data packet leaves: the session, the calls of `Parse` and
whether `Process` goes on to hand out the session through `sesp`. -/
structure Filed where
  ses : CSession
  /-- The session and record of a call of `Parse`. -/
  calls : List (CSession × Option Record)
  /-- `sesp=sesptr` is reached. -/
  done : Bool

/-- `if(sesptr->ReqBuf.GetBufLen() > 0 && sesptr->RspBuf.GetBufLen() > 0)`: a packet to
the server finds a finished exchange and has it parsed. -/
def parseFull (B : Boost) (e : ParseEnv) (s : CSession) :
    CSession × List (CSession × Option Record) :=
  if s.reqBuf.len > 0 ∧ s.rspBuf.len > 0 then ((parse B e s).1, [(s, (parse B e s).2)])
  else (s, [])

/-- The first packet of a request sets its time stamp. -/
def stampRequest (p : CFormatPacket) (s : CSession) : CSession :=
  if s.reqBuf.len = 0 ∧ s.result.requestTimeStamp = 0 then
    { s with result := { s.result with requestTimeStamp := p.timeStamp } }
  else s

/-- The first packet of a response sets its time stamp. -/
def stampResponse (p : CFormatPacket) (s : CSession) : CSession :=
  if s.rspBuf.len = 0 ∧ s.result.responseTimeStamp = 0 then
    { s with result := { s.result with responseTimeStamp := p.timeStamp } }
  else s

/-- `sesptr->ReqBuf.Append(packet.GetData(), packet.GetDataLen())`. -/
def appendRequest (e : Env) (p : CFormatPacket) (s : CSession) : Bool × CSession :=
  let q := s.reqBuf.append e.append (some p.data) p.dataSize
  (q.1, { s with reqBuf := q.2 })

/-- `sesptr->RspBuf.Append(packet.GetData(), packet.GetDataLen())`. -/
def appendResponse (e : Env) (p : CFormatPacket) (s : CSession) : Bool × CSession :=
  let q := s.rspBuf.append e.append (some p.data) p.dataSize
  (q.1, { s with rspBuf := q.2 })

/-- `Process` from the update of `SeqNo` on, for the session behind `sesptr`. -/
def processData (B : Boost) (e : Env) (p : CFormatPacket) (way : UInt32) (s : CSession) :
    Filed :=
  let s₀ := s.setSeq p.seqNo p.ackSeqNo
  if way = unkMatch then ⟨s₀, [], false⟩
  else if way = c2sMatch then
    let r := parseFull B e.parse s₀
    let q := appendRequest e p (stampRequest p r.1)
    ⟨q.2, r.2, q.1⟩
  else if way = s2cMatch then
    let q := appendResponse e p (stampResponse p s₀)
    ⟨q.2, [], q.1⟩
  else ⟨s₀, [], true⟩

/-! ## `Process` -/

/-- What a call of `Process` leaves: the handle, what it assigns to `sesp`, if
anything, and the calls of `Parse`. -/
structure Processed where
  handle : CHandle
  /-- The pointer assigned to `sesp`. -/
  sesp : Option Nat
  /-- The calls of `Parse`, in order. -/
  calls : List ParseCall

/-- The repeated-packet test of `Process`. -/
def repeated (p : CFormatPacket) (s : CSession) : Bool := decide (s.seqNo = p.seqNo)

/-- The session pointer of `Process`: `Find`, and `Create` when that fails. -/
def findOrCreate (t : CSessionHashTable) (x : Call) (info : CSharedBehaviorInfo) :
    CSessionHashTable × Nat :=
  let p := x.packet
  match t.find x.env.timeFind p.srcIp p.dstIp p.srcPort p.dstPort with
  | (t₁, some a) => (t₁, a)
  | (t₁, none) => t₁.create x.env.timeCreate x.env.new p info

/-- `CHandle::Process`. -/
def process (B : Boost) (h : CHandle) (x : Call) : Processed :=
  let sw := h.timeOutCheck B x.env
  match x.info with
  | none => ⟨sw.1, none, sw.2⟩
  | some info =>
    let p := x.packet
    let fc := findOrCreate sw.1.sesHash x info
    let t := fc.1
    let sesptr := fc.2
    if p.closes then
      let r := parse B x.env.parse (t.ses sesptr)
      ⟨{ sw.1 with sesHash := (t.set sesptr r.1).remove p.srcIp p.dstIp p.srcPort p.dstPort },
        none, sw.2 ++ [⟨sesptr, t.ses sesptr, r.2⟩]⟩
    else if repeated p (t.ses sesptr) then ⟨{ sw.1 with sesHash := t }, none, sw.2⟩
    else if p.dataLen = 0 then ⟨{ sw.1 with sesHash := t }, none, sw.2⟩
    else
      let q := processData B x.env p info.matchWay (t.ses sesptr)
      ⟨{ sw.1 with sesHash := t.set sesptr q.ses }, if q.done then some sesptr else none,
        sw.2 ++ q.calls.map fun c => ⟨sesptr, c.1, c.2⟩⟩

end CHandle

/-- The handle as a machine: it reads calls of `Process` and emits the calls of
`Parse` they make. -/
def handleMachine (B : Boost) : Machine CHandle Call ParseCall where
  step h x := ((h.process B x).handle, (h.process B x).calls)

end HttpDecoder
