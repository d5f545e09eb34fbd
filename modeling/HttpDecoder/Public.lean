import HttpDecoder.Lib.Memory

/-!
# Shared definitions: `Public.h` and `BehaviorInfo.h`

The codes of methods, versions and match ways, the timeouts, and the two
records passed around by the decoder: what the behaviour recogniser says about
a packet (`CSharedBehaviorInfo`) and what parsing fills in (`CResult`).
-/

namespace HttpDecoder

open CLib

/-! ## Codes and limits -/

/-- `METUNKNOWN`. -/
def metUnknown : UInt32 := 0

/-- The method names and their codes, `GET` to `CONNECT`. -/
def methodCodes : List (Bytes × UInt32) :=
  [(ascii ['G', 'E', 'T'], 1), (ascii ['P', 'O', 'S', 'T'], 2),
    (ascii ['O', 'P', 'T', 'I', 'O', 'N', 'S'], 3), (ascii ['H', 'E', 'A', 'D'], 4),
    (ascii ['P', 'U', 'T'], 5), (ascii ['D', 'E', 'L', 'E', 'T', 'E'], 6),
    (ascii ['T', 'R', 'A', 'C', 'E'], 7), (ascii ['C', 'O', 'N', 'N', 'E', 'C', 'T'], 8)]

/-- `VERUNKNOWN`. -/
def verUnknown : UInt32 := 0

/-- `TIMEOUT_CHECK_DUR`. -/
def timeoutCheckDur : Int := 120

/-- `TIMEOUT`. -/
def timeout : Int := 3600

/-- `UNK_MATCH`. -/
def unkMatch : UInt32 := 0

/-- `C2S_MATCH`: client to server. -/
def c2sMatch : UInt32 := 1

/-- `S2C_MATCH`: server to client. -/
def s2cMatch : UInt32 := 2

/-- One end of a connection, in host byte order. -/
structure Endpoint where
  ip : UInt32
  port : UInt16
deriving DecidableEq, Repr

/-- A connection: the unordered pair of its ends. -/
abbrev Conn := Sym2 Endpoint

/-! ## The behaviour record -/

/-- `CSharedBehaviorInfo`. -/
structure CSharedBehaviorInfo where
  /-- `m_nIP`, in host byte order. -/
  ip : UInt32
  /-- `m_nPort`, in host byte order. -/
  port : UInt32
  /-- `m_nBehaviorId`. -/
  behaviorId : UInt32
  /-- `m_nIdtMatchWay`. -/
  matchWay : UInt32
deriving DecidableEq, Repr

/-! ## The result record -/

/-- `HeaderMap`, a `std::map` from header names to values. -/
abbrev HeaderMap := Std.ExtTreeMap Bytes Bytes

/-- `CResult`, without the two data strings that nothing fills in. -/
structure CResult where
  /-- `RequestTimeStamp`, in microseconds. -/
  requestTimeStamp : UInt64
  /-- `ResponseTimeStamp`, in microseconds. -/
  responseTimeStamp : UInt64
  method : UInt32
  version : UInt32
  retCode : UInt32
  url : Bytes
  retNote : Bytes
  requestHeader : HeaderMap
  responseHeader : HeaderMap

/-- `CResult::Reset`. -/
def CResult.reset : CResult where
  requestTimeStamp := 0
  responseTimeStamp := 0
  method := metUnknown
  version := verUnknown
  retCode := 0
  url := []
  retNote := []
  requestHeader := ∅
  responseHeader := ∅

end HttpDecoder
