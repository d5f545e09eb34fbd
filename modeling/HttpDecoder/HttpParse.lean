import HttpDecoder.SessionHash

/-!
# `CHttpParse`: decoding one exchange

`HttpParse.h` and `HttpParse.cpp`.  A parsing stage moves a cursor `pos` through
a buffer of `len` bytes by unsigned arithmetic; a `Stage` records its return
value, the cursor and the output it leaves behind and, for the proofs, the
cursor at each evaluation of `len-pos`.

* `getBufByTag` — the search for a delimiter that all stages share.
* `parseMethodAndUri`, `parseRspState`, `parseHeader` — the stages.
* `parse` — `CHttpParse::Parse`: the two threshold tests, the stages, `Send`,
  and the reset on every exit.

The conversions of `boost::lexical_cast` are a parameter (`Boost`).
-/

namespace HttpDecoder

open CLib

/-! ## Characters and the conversion library -/

/-- The space. -/
def sp : UInt8 := 32

/-- The line feed. -/
def lf : UInt8 := 10

/-- The carriage return. -/
def cr : UInt8 := 13

/-- The colon. -/
def colon : UInt8 := 58

/-- `"HTTP/"`. -/
def httpSlash : Bytes := ascii ['H', 'T', 'T', 'P', '/']

/-- The conversions taken from `boost::lexical_cast` and the arithmetic of
`float`. -/
structure Boost where
  /-- The values of `float`. -/
  Flt : Type
  /-- `boost::lexical_cast<float>`, `none` being `bad_lexical_cast`. -/
  castFloat : Bytes → Option Flt
  /-- `(uint32_t) (i * 10)`. -/
  timesTen : Flt → UInt32
  /-- `boost::lexical_cast<uint32_t>`. -/
  castUInt32 : Bytes → Option UInt32

/-! ## The delimiter search -/

/-- The loop of `GetBufByTag` with `n` positions left from `i` on. -/
def findTag (inp : Mem) (tag : Bytes) (i : Nat) : Nat → Option Nat
  | 0 => none
  | n + 1 => if strncmpEq (inp.shift i) tag then some i else findTag inp tag (i + 1) n

/-- `CHttpParse::GetBufByTag`: the return value and the output string, `none`
being the return value `-1`. -/
def getBufByTag (inp : Mem) (len : Int) (tag out : Bytes) : Option (Nat × Bytes) :=
  (findTag inp tag 0 len.toNat).map fun i => (i, out ++ inp.read 0 i)

/-- The call `GetBufByTag(pBuf+pos, len-pos, tag, size, out)`. -/
def getBufAt (pBuf : Mem) (len pos : Nat) (tag out : Bytes) : Option (Nat × Bytes) :=
  getBufByTag (pBuf.shift pos) (toInt32 (sub32 len pos)) tag out

theorem findTag_lt {inp : Mem} {tag : Bytes} {i n j : Nat} (h : findTag inp tag i n = some j) :
    j < i + n := by
  induction n generalizing i with
  | zero => simp [findTag] at h
  | succ n ih =>
    unfold findTag at h
    split at h
    · cases h
      omega
    · have := ih h
      omega

theorem getBufAt_lt {pBuf : Mem} {len pos : Nat} {tag out : Bytes} {r : Nat × Bytes}
    (h : getBufAt pBuf len pos tag out = some r) : r.1 < sub32 len pos := by
  unfold getBufAt getBufByTag at h
  obtain ⟨i, hi, rfl⟩ := Option.map_eq_some_iff.mp h
  have := findTag_lt hi
  have := toInt32_toNat_le (sub32 len pos)
  simp only
  omega

/-! ## Methods and versions -/

/-- `CHttpParse::GetMethod`.  The last branch of the source evaluates the name
`METUNKNOWN` and returns nothing; `und` is the value the caller then finds. -/
def getMethod (und : UInt32) (method : Bytes) : UInt32 :=
  match methodCodes.find? fun m => method = m.1 with
  | some m => m.2
  | none => und

/-- `CHttpParse::GetVersion`. -/
def getVersion (B : Boost) (version : Bytes) : Option UInt32 :=
  if version.length ≠ 8 then none
  else if ¬ httpSlash <:+: version then none
  else
    let tmp := (version.drop 5).take 3
    (B.castFloat tmp).map B.timesTen

/-! ## The stages -/

/-- What a parsing stage leaves behind. -/
structure Stage (α : Type) where
  ok : Bool
  pos : Nat
  out : α
  /-- The cursor at each evaluation of `len-pos`, in order. -/
  evals : List Nat

/-- `CHttpParse::ParseMethodAndUri`. -/
def parseMethodAndUri (B : Boost) (und : UInt32) (pBuf : Mem) (len pos : Nat)
    (result : CResult) : Stage CResult :=
  match getBufAt pBuf len pos [sp] [] with
  | none => ⟨false, pos, result, [pos]⟩
  | some (ret, method) =>
    let pos₁ := u32 (pos + (ret + 1))
    let result₁ := { result with method := getMethod und method }
    match getBufAt pBuf len pos₁ [sp] result₁.url with
    | none => ⟨false, pos₁, result₁, [pos, pos₁]⟩
    | some (ret, url) =>
      let pos₂ := u32 (pos₁ + (ret + 1))
      let result₂ := { result₁ with url := url }
      match getBufAt pBuf len pos₂ [lf] [] with
      | none => ⟨false, pos₂, result₂, [pos, pos₁, pos₂]⟩
      | some (ret, version) =>
        let pos₃ := u32 (pos₂ + (ret + 1))
        match getVersion B version with
        | none => ⟨false, pos₃, result₂, [pos, pos₁, pos₂]⟩
        | some ver => ⟨true, pos₃, { result₂ with version := ver }, [pos, pos₁, pos₂]⟩

/-- `CHttpParse::ParseRspState`. -/
def parseRspState (B : Boost) (pBuf : Mem) (len pos : Nat) (result : CResult) :
    Stage CResult :=
  match getBufAt pBuf len pos [sp] [] with
  | none => ⟨false, pos, result, [pos]⟩
  | some (ret, version) =>
    let pos₁ := u32 (pos + (ret + 1))
    match getVersion B version with
    | none => ⟨false, pos₁, result, [pos]⟩
    | some ver =>
      if ver ≠ result.version then ⟨false, pos₁, result, [pos]⟩
      else
        match getBufAt pBuf len pos₁ [sp] [] with
        | none => ⟨false, pos₁, result, [pos, pos₁]⟩
        | some (ret, rspCode) =>
          let pos₂ := u32 (pos₁ + (ret + 1))
          match B.castUInt32 rspCode with
          | none => ⟨false, pos₂, result, [pos, pos₁]⟩
          | some code =>
            let result₁ := { result with retCode := code }
            match getBufAt pBuf len pos₂ [cr, lf] result₁.retNote with
            | none => ⟨false, pos₂, result₁, [pos, pos₁, pos₂]⟩
            | some (ret, note) =>
              ⟨true, u32 (pos₂ + (ret + 2)), { result₁ with retNote := note },
                [pos, pos₁, pos₂]⟩

/-- `CHttpParse::ParseHeader`. -/
def parseHeader (pBuf : Mem) (len pos : Nat) (headmap : HeaderMap) : Stage HeaderMap :=
  if sub32 len pos = 0 then ⟨false, pos, headmap, [pos]⟩
  else if strncmpEq (pBuf.shift pos) [lf] then ⟨true, u32 (pos + 1), headmap, [pos]⟩
  else if strncmpEq (pBuf.shift pos) [cr, lf] then ⟨true, u32 (pos + 2), headmap, [pos]⟩
  else
    match _hkey : getBufAt pBuf len pos [colon] [] with
    | none => ⟨false, pos, headmap, [pos, pos]⟩
    | some (retKey, key) =>
      let pos₁ := u32 (pos + (retKey + 1))
      match _hvalue : getBufAt pBuf len pos₁ [lf] [] with
      | none => ⟨false, pos₁, headmap, [pos, pos, pos₁]⟩
      | some (retValue, value) =>
        let rest :=
          parseHeader pBuf len (u32 (pos₁ + (retValue + 1))) (headmap.insert key value)
        { rest with evals := [pos, pos, pos₁] ++ rest.evals }
termination_by sub32 len pos
decreasing_by
  have hkey : retKey < sub32 len pos := getBufAt_lt _hkey
  have hvalue : retValue < sub32 len (u32 (pos + (retKey + 1))) := getBufAt_lt _hvalue
  rw [sub32_advance hvalue, sub32_advance hkey]
  omega

/-! ## `Parse` -/

/-- The first block of `Parse`: a request longer than 10 bytes goes through
`ParseMethodAndUri`, `ParseHeader` and `ParseReqData`, which accepts everything. -/
def parseRequest (B : Boost) (und : UInt32) (reqBuf : Mem) (reqLen : Nat) (result : CResult) :
    Stage CResult :=
  if reqLen > 10 then
    let line := parseMethodAndUri B und reqBuf reqLen 0 result
    if ¬ line.ok then line
    else
      let head := parseHeader reqBuf reqLen line.pos line.out.requestHeader
      ⟨head.ok, head.pos, { line.out with requestHeader := head.out }, line.evals ++ head.evals⟩
  else ⟨true, 0, result, []⟩

/-- The second block of `Parse`: a response longer than 10 bytes goes through
`ParseRspState`, `ParseHeader` and `ParseRspData`, which accepts everything. -/
def parseResponse (B : Boost) (rspBuf : Mem) (rspLen : Nat) (result : CResult) :
    Stage CResult :=
  if rspLen > 10 then
    let line := parseRspState B rspBuf rspLen 0 result
    if ¬ line.ok then line
    else
      let head := parseHeader rspBuf rspLen line.pos line.out.responseHeader
      ⟨head.ok, head.pos, { line.out with responseHeader := head.out }, line.evals ++ head.evals⟩
  else ⟨true, 0, result, []⟩

/-- The record `CHttpParse::Send` prints. -/
structure Record where
  client : Endpoint
  server : Endpoint
  method : UInt32
  version : UInt32
  retCode : UInt32
  retNote : Bytes
  url : Bytes
  requestHeader : HeaderMap
  /-- The bytes of `ReqBuf`. -/
  requestContext : Bytes
  responseHeader : HeaderMap
  /-- The bytes of `RspBuf`. -/
  responseContext : Bytes

/-- `CHttpParse::Send`. -/
def send (s : CSession) : Record where
  client := s.client
  server := s.server
  method := s.result.method
  version := s.result.version
  retCode := s.result.retCode
  retNote := s.result.retNote
  url := s.result.url
  requestHeader := s.result.requestHeader
  requestContext := s.reqBuf.contents
  responseHeader := s.result.responseHeader
  responseContext := s.rspBuf.contents

/-- What the outside world supplies to one call of `Parse`. -/
structure ParseEnv where
  /-- What a call of `GetMethod` that returns nothing leaves behind. -/
  method : UInt32
  /-- The allocator's answers to the final `Reset`. -/
  reset : SesAlloc

/-- `CHttpParse::Parse`: the session it leaves and the record it sends, if any.
Every exit resets the session. -/
def parse (B : Boost) (e : ParseEnv) (s : CSession) : CSession × Option Record :=
  match s.reqBuf.buf, s.rspBuf.buf with
  | some reqBuf, some rspBuf =>
    if s.reqBuf.len = 0 ∨ s.rspBuf.len = 0 then (s.reset e.reset, none)
    else
      let req := parseRequest B e.method reqBuf.byte s.reqBuf.len s.result
      let s₁ := { s with result := req.out }
      if ¬ req.ok then (s₁.reset e.reset, none)
      else
        let rsp := parseResponse B rspBuf.byte s.rspBuf.len s₁.result
        let s₂ := { s₁ with result := rsp.out }
        if ¬ rsp.ok then (s₂.reset e.reset, none) else (s₂.reset e.reset, some (send s₂))
  | _, _ => (s.reset e.reset, none)

/-- Whatever a stage wrote into `Result` before it failed, `Parse` leaves the
session as `Reset` would have left it. -/
theorem parse_fst (B : Boost) (e : ParseEnv) (s : CSession) :
    (parse B e s).1 = s.reset e.reset := by
  unfold parse
  split
  · simp only
    split_ifs <;> rfl
  · rfl

/-- A record is sent for two messages only. -/
theorem len_of_sent {B : Boost} {e : ParseEnv} {s : CSession} (h : (parse B e s).2 ≠ none) :
    s.reqBuf.len ≠ 0 ∧ s.rspBuf.len ≠ 0 := by
  unfold parse at h
  split at h
  · by_cases hzero : s.reqBuf.len = 0 ∨ s.rspBuf.len = 0
    · rw [if_pos hzero] at h
      exact absurd rfl h
    · exact not_or.mp hzero
  · exact absurd rfl h

end HttpDecoder
