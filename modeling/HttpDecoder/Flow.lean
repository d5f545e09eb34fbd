import HttpDecoder.Connection

/-!
# The byte streams of a connection

What a session is for, without its heap blocks and clocks: two ends, the sequence
numbers of the last packet that was filed, the bytes buffered in either direction
and the result record (`Flow`).  The sweep, whose decisions hang on the clock, is
an input here (`Due`).

* `Flow.step` — one call of `Process` on a flow.
* `connStep_flow` — **refinement**: as long as the allocator answers and the
  buffered bytes can be counted, a step of the connection is a step of its flow.
* `run_flow` — hence a run without sweep is, for every connection, a run of its
  flow on its own calls.
-/

namespace HttpDecoder

open CLib CHandle

/-- A session without memory and clocks. -/
@[ext] structure Flow where
  /-- The server end. -/
  server : Endpoint
  /-- The client end. -/
  client : Endpoint
  /-- `SeqNo`. -/
  seqNo : UInt32
  /-- `AckSeqNo`. -/
  ackSeqNo : UInt32
  /-- The bytes of `ReqBuf`. -/
  req : Bytes
  /-- The bytes of `RspBuf`. -/
  rsp : Bytes
  /-- `Result`. -/
  result : CResult

/-- The sweep's decisions about one session. -/
structure Due where
  parse : Bool
  erase : Bool

namespace Flow

variable (f : Flow)

/-- What `Parse` leaves. -/
def reset : Flow := { f with req := [], rsp := [], result := CResult.reset }

/-- The flow with new sequence numbers. -/
def setSeq (seqNo ackSeqNo : UInt32) : Flow := { f with seqNo := seqNo, ackSeqNo := ackSeqNo }

/-- The flow a packet opens. -/
def create (e : NewSession) (p : CFormatPacket) (info : CSharedBehaviorInfo) : Flow :=
  let server := if info.ip = p.srcIp ∧ info.port = p.srcPort.toUInt32 then p.src else p.dst
  let client := if info.ip = p.srcIp ∧ info.port = p.srcPort.toUInt32 then p.dst else p.src
  ⟨server, client, e.seqNo, e.ackSeqNo, [], [], CResult.reset⟩

/-- The sweep on one flow. -/
def sweep (d : Due) : Option Flow → Option Flow × List Flow
  | none => (none, [])
  | some f =>
    (if d.erase then none else some (if d.parse then f.reset else f), if d.parse then [f] else [])

/-- When nothing is due the sweep leaves a flow alone. -/
@[simp] theorem sweep_quiet (o : Option Flow) : sweep ⟨false, false⟩ o = (o, []) := by
  cases o <;> rfl

/-- A packet to the server finds a finished exchange. -/
def parseFull : Flow × List Flow :=
  if f.req ≠ [] ∧ f.rsp ≠ [] then (f.reset, [f]) else (f, [])

/-- The first packet of a request sets its time stamp. -/
def stampRequest (p : CFormatPacket) : Flow :=
  if f.req = [] ∧ f.result.requestTimeStamp = 0 then
    { f with result := { f.result with requestTimeStamp := p.timeStamp } }
  else f

/-- The first packet of a response sets its time stamp. -/
def stampResponse (p : CFormatPacket) : Flow :=
  if f.rsp = [] ∧ f.result.responseTimeStamp = 0 then
    { f with result := { f.result with responseTimeStamp := p.timeStamp } }
  else f

/-- The payload joins the request. -/
def appendRequest (p : CFormatPacket) : Flow := { f with req := f.req ++ p.payload }

/-- The payload joins the response. -/
def appendResponse (p : CFormatPacket) : Flow := { f with rsp := f.rsp ++ p.payload }

/-- Filing a data packet. -/
def file (p : CFormatPacket) (way : UInt32) : Flow × List Flow :=
  let f₀ := f.setSeq p.seqNo p.ackSeqNo
  if way = unkMatch then (f₀, [])
  else if way = c2sMatch then ((f₀.parseFull.1.stampRequest p).appendRequest p, f₀.parseFull.2)
  else if way = s2cMatch then ((f₀.stampResponse p).appendResponse p, [])
  else (f₀, [])

/-- `Process` from the FIN/RST test on. -/
def serve (p : CFormatPacket) (info : CSharedBehaviorInfo) : Option Flow × List Flow :=
  if p.closes then (none, [f])
  else if f.seqNo = p.seqNo then (some f, [])
  else if p.dataLen = 0 then (some f, [])
  else (some (f.file p info.matchWay).1, (f.file p info.matchWay).2)

/-- The flow `Process` works on. -/
def opened (x : Call) (info : CSharedBehaviorInfo) : Option Flow → Flow
  | some f => f
  | none => create x.env.new x.packet info

/-- One call of `Process` on the flow of connection `c`. -/
def step (c : Conn) (d : Due) (o : Option Flow) (x : Call) : Option Flow × List Flow :=
  let q := sweep d o
  match x.info with
  | none => q
  | some info =>
    if x.packet.conn = c then
      let r := (opened x info q.1).serve x.packet info
      (r.1, q.2 ++ r.2)
    else q

/-- The lengths of the buffered bytes fit in `uint32_t`. -/
structure Fits : Prop where
  req : f.req.length < 2 ^ 32
  rsp : f.rsp.length < 2 ^ 32

end Flow

/-! ## What a packet does to a flow -/

namespace Flow

section Serve

variable {f : Flow} {p : CFormatPacket} {info : CSharedBehaviorInfo}

theorem serve_closes (h : p.closes = true) : f.serve p info = (none, [f]) := by
  unfold serve
  rw [if_pos h]

/-- A packet with the number of the one filed last is dropped. -/
theorem serve_repeated (hopen : p.closes = false) (h : f.seqNo = p.seqNo) :
    f.serve p info = (some f, []) := by
  unfold serve
  rw [if_neg (by simp [hopen]), if_pos h]

/-- A packet without payload does nothing. -/
theorem serve_empty (hopen : p.closes = false) (h : p.dataLen = 0) :
    f.serve p info = (some f, []) := by
  unfold serve
  rw [if_neg (by simp [hopen]), if_pos h, ite_self]

/-- Every other packet is filed. -/
theorem serve_data (hopen : p.closes = false) (hseq : f.seqNo ≠ p.seqNo) (h : p.dataLen ≠ 0) :
    f.serve p info = (some (f.file p info.matchWay).1, (f.file p info.matchWay).2) := by
  unfold serve
  rw [if_neg (by simp [hopen]), if_neg hseq, if_neg h]

end Serve

/-- What a packet of the connection does when nothing is due. -/
theorem step_quiet {c : Conn} {x : Call} {info : CSharedBehaviorInfo} (hinfo : x.info = some info)
    (hc : x.packet.conn = c) (o : Option Flow) :
    step c ⟨false, false⟩ o x = (opened x info o).serve x.packet info := by
  unfold step
  simp only [sweep_quiet, hinfo, if_pos hc, List.nil_append]

/-- The exchange a flow holds, if it holds one: the bytes of a request and of its
response. -/
def pending (f : Flow) : List (Bytes × Bytes) :=
  if f.req ≠ [] ∧ f.rsp ≠ [] then [(f.req, f.rsp)] else []

section File

variable (f : Flow) (p : CFormatPacket) (way : UInt32)

theorem parseFull_snd : f.parseFull.2.map (fun g => (g.req, g.rsp)) = f.pending := by
  unfold parseFull pending
  split <;> rfl

theorem parseFull_seqNo : f.parseFull.1.seqNo = f.seqNo := by
  unfold parseFull
  split <;> rfl

theorem stampRequest_fields : (f.stampRequest p).seqNo = f.seqNo ∧ (f.stampRequest p).req = f.req ∧
    (f.stampRequest p).rsp = f.rsp := by
  unfold stampRequest
  split <;> exact ⟨rfl, rfl, rfl⟩

theorem stampResponse_fields : (f.stampResponse p).seqNo = f.seqNo ∧
    (f.stampResponse p).req = f.req ∧ (f.stampResponse p).rsp = f.rsp := by
  unfold stampResponse
  split <;> exact ⟨rfl, rfl, rfl⟩

@[simp] theorem setSeq_seqNo (n m : UInt32) : (f.setSeq n m).seqNo = n := rfl

@[simp] theorem setSeq_req (n m : UInt32) : (f.setSeq n m).req = f.req := rfl

@[simp] theorem setSeq_rsp (n m : UInt32) : (f.setSeq n m).rsp = f.rsp := rfl

@[simp] theorem setSeq_pending (n m : UInt32) : (f.setSeq n m).pending = f.pending := rfl

/-- Filing a packet records its sequence number. -/
theorem file_seqNo : (f.file p way).1.seqNo = p.seqNo := by
  unfold file
  generalize hf : f.setSeq p.seqNo p.ackSeqNo = f₀
  have h₀ : f₀.seqNo = p.seqNo := by rw [← hf, setSeq_seqNo]
  rw [← h₀]
  simp only
  split_ifs
  · rfl
  · exact ((f₀.parseFull.1.stampRequest_fields p).1).trans f₀.parseFull_seqNo
  · exact (f₀.stampResponse_fields p).1
  · rfl

/-- A packet to the server: a finished exchange is handed out, then the payload joins
the request. -/
theorem file_request :
    (f.file p c2sMatch).1.req = f.parseFull.1.req ++ p.payload ∧
      (f.file p c2sMatch).1.rsp = f.parseFull.1.rsp ∧
      (f.file p c2sMatch).2.map (fun g => (g.req, g.rsp)) = f.pending := by
  have hunk : ¬ c2sMatch = unkMatch := by decide
  have hfull : ∀ n m, (f.setSeq n m).parseFull.1.req = f.parseFull.1.req ∧
      (f.setSeq n m).parseFull.1.rsp = f.parseFull.1.rsp := by
    intro n m
    unfold parseFull
    rw [setSeq_req, setSeq_rsp]
    split <;> exact ⟨rfl, rfl⟩
  obtain ⟨hreq, hrsp⟩ := hfull p.seqNo p.ackSeqNo
  have hout := (f.setSeq p.seqNo p.ackSeqNo).parseFull_snd
  rw [setSeq_pending] at hout
  unfold file
  simp only [if_neg hunk, if_pos]
  obtain ⟨-, hreq', hrsp'⟩ :=
    (f.setSeq p.seqNo p.ackSeqNo).parseFull.1.stampRequest_fields p
  refine ⟨?_, ?_, hout⟩
  · show (stampRequest _ p).req ++ p.payload = _
    rw [hreq', hreq]
  · show (stampRequest _ p).rsp = _
    rw [hrsp', hrsp]

/-- A packet to the client: the payload joins the response. -/
theorem file_response :
    (f.file p s2cMatch).1.req = f.req ∧ (f.file p s2cMatch).1.rsp = f.rsp ++ p.payload ∧
      (f.file p s2cMatch).2 = [] := by
  have hunk : ¬ s2cMatch = unkMatch := by decide
  have hc2s : ¬ s2cMatch = c2sMatch := by decide
  unfold file
  simp only [if_neg hunk, if_neg hc2s, if_pos]
  obtain ⟨-, hreq, hrsp⟩ := (f.setSeq p.seqNo p.ackSeqNo).stampResponse_fields p
  refine ⟨?_, ?_, trivial⟩
  · show (stampResponse _ p).req = _
    rw [hreq, setSeq_req]
  · show (stampResponse _ p).rsp ++ p.payload = _
    rw [hrsp, setSeq_rsp]

end File

end Flow

/-! ## Sessions as flows -/

/-- The flow of a session. -/
def CSession.flow (s : CSession) : Flow :=
  ⟨s.server, s.client, s.seqNo, s.ackSeqNo, s.reqBuf.contents, s.rspBuf.contents, s.result⟩

/-- Both buffers satisfy the buffer invariant. -/
structure CSession.WF (s : CSession) : Prop where
  req : s.reqBuf.WF
  rsp : s.rspBuf.WF

/-- The allocator answers every request of a `Reset`. -/
structure SesAlloc.Granted (e : SesAlloc) : Prop where
  req_malloc : e.req.malloc.isSome
  req_realloc : e.req.realloc.isSome
  rsp_malloc : e.rsp.malloc.isSome
  rsp_realloc : e.rsp.realloc.isSome

/-- The allocator answers every request of a constructor or `Reset` during a call of
`Process`. -/
structure Env.Resets (e : Env) : Prop where
  /-- Of the constructors of a new session's buffers. -/
  bufs : e.new.bufs.Granted
  /-- Of a new session's `Reset`. -/
  reset : e.new.reset.Granted
  /-- Of the call of `Parse` that the packet triggers. -/
  parse : e.parse.reset.Granted
  /-- Of the sweep's calls of `Parse`. -/
  sweep : ∀ a b, (e.sweep a b).reset.Granted

/-- The allocator answers every request of a call of `Process`. -/
structure Env.Granted (e : Env) : Prop extends e.Resets where
  append : e.append.isSome

namespace CSession

variable {s : CSession}

theorem WF.reqLen_pos_iff (h : s.WF) : s.reqBuf.len > 0 ↔ s.reqBuf.contents ≠ [] := by
  rw [gt_iff_lt, Nat.pos_iff_ne_zero, Ne, h.req.len_eq_zero_iff]

theorem WF.rspLen_pos_iff (h : s.WF) : s.rspBuf.len > 0 ↔ s.rspBuf.contents ≠ [] := by
  rw [gt_iff_lt, Nat.pos_iff_ne_zero, Ne, h.rsp.len_eq_zero_iff]

theorem WF.reset (h : s.WF) {e : SesAlloc} (he : e.Granted) : (s.reset e).WF :=
  ⟨h.req.reset he.req_realloc, h.rsp.reset he.rsp_realloc⟩

@[simp] theorem flow_reset (s : CSession) (e : SesAlloc) : (s.reset e).flow = s.flow.reset := by
  show (⟨s.server, s.client, s.seqNo, s.ackSeqNo, (s.reqBuf.reset e.req).contents,
    (s.rspBuf.reset e.rsp).contents, CResult.reset⟩ : Flow) = _
  rw [CBuffer.contents_reset, CBuffer.contents_reset]
  rfl

@[simp] theorem flow_setSeq (s : CSession) (n m : UInt32) :
    (s.setSeq n m).flow = s.flow.setSeq n m := rfl

theorem WF.setSeq (h : s.WF) (n m : UInt32) : (s.setSeq n m).WF := ⟨h.req, h.rsp⟩

end CSession

/-- A new session has well-formed buffers. -/
theorem CSessionHashTable.newSession_wf (now : Int) {e : NewSession} (p : CFormatPacket)
    (info : CSharedBehaviorInfo) (hbufs : e.bufs.Granted) (hreset : e.reset.Granted) :
    (newSession now e p info).WF := by
  have hreq := (CBuffer.wf_new hbufs.req_malloc).reset hreset.req_realloc
  have hrsp := (CBuffer.wf_new hbufs.rsp_malloc).reset hreset.rsp_realloc
  unfold newSession
  split
  · exact ⟨hreq, hrsp⟩
  · exact ⟨hreq, hrsp⟩

theorem CSessionHashTable.newSession_flow (now : Int) (e : NewSession) (p : CFormatPacket)
    (info : CSharedBehaviorInfo) : (newSession now e p info).flow = Flow.create e p info := by
  unfold newSession Flow.create CSession.flow
  split
  · simp only [CBuffer.contents_reset]
    rfl
  · simp only [CBuffer.contents_reset]
    rfl

/-! ## Each step on the session is the step on its flow -/

section Refinement

variable {s : CSession}

theorem parse_flow (B : Boost) (e : ParseEnv) (s : CSession) :
    (parse B e s).1.flow = s.flow.reset := by
  rw [parse_fst, CSession.flow_reset]

/-- A parsed session shows nothing. -/
theorem parse_contents (B : Boost) (e : ParseEnv) (s : CSession) :
    (parse B e s).1.reqBuf.contents = [] ∧ (parse B e s).1.rspBuf.contents = [] := by
  have hflow := parse_flow B e s
  exact ⟨congrArg Flow.req hflow, congrArg Flow.rsp hflow⟩

/-- Nor does a new one. -/
theorem opened_none_contents (x : Call) (info : CSharedBehaviorInfo) :
    (opened x info none).reqBuf.contents = [] ∧ (opened x info none).rspBuf.contents = [] := by
  have hflow : (opened x info none).flow = Flow.create x.env.new x.packet info :=
    CSessionHashTable.newSession_flow ..
  exact ⟨congrArg Flow.req hflow, congrArg Flow.rsp hflow⟩

/-- Its buffers have no length. -/
theorem opened_none_len (x : Call) (info : CSharedBehaviorInfo) :
    (opened x info none).reqBuf.len = 0 ∧ (opened x info none).rspBuf.len = 0 := by
  show (CSessionHashTable.newSession ..).reqBuf.len = 0 ∧
    (CSessionHashTable.newSession ..).rspBuf.len = 0
  unfold CSessionHashTable.newSession
  split <;> exact ⟨rfl, rfl⟩

theorem parse_wf (B : Boost) {e : ParseEnv} (h : s.WF) (he : e.reset.Granted) :
    (parse B e s).1.WF := by
  rw [parse_fst]
  exact h.reset he

theorem parseFull_flow (B : Boost) (e : ParseEnv) (h : s.WF) :
    (parseFull B e s).1.flow = s.flow.parseFull.1 ∧
      (parseFull B e s).2.map (fun k => k.1.flow) = s.flow.parseFull.2 := by
  have hfull : (s.reqBuf.len > 0 ∧ s.rspBuf.len > 0) ↔ (s.flow.req ≠ [] ∧ s.flow.rsp ≠ []) :=
    and_congr h.reqLen_pos_iff h.rspLen_pos_iff
  unfold parseFull Flow.parseFull
  by_cases hf : s.flow.req ≠ [] ∧ s.flow.rsp ≠ []
  · rw [if_pos hf, if_pos (hfull.mpr hf)]
    exact ⟨parse_flow B e s, rfl⟩
  · rw [if_neg hf, if_neg (hfull.not.mpr hf)]
    exact ⟨rfl, rfl⟩

theorem parseFull_wf (B : Boost) {e : ParseEnv} (h : s.WF) (he : e.reset.Granted) :
    (parseFull B e s).1.WF := by
  unfold parseFull
  split
  · exact parse_wf B h he
  · exact h

theorem stampRequest_flow (p : CFormatPacket) (h : s.WF) :
    (stampRequest p s).flow = s.flow.stampRequest p := by
  have hfirst : (s.reqBuf.len = 0 ∧ s.result.requestTimeStamp = 0) ↔
      (s.flow.req = [] ∧ s.flow.result.requestTimeStamp = 0) :=
    and_congr_left' h.req.len_eq_zero_iff
  unfold stampRequest Flow.stampRequest
  by_cases hf : s.flow.req = [] ∧ s.flow.result.requestTimeStamp = 0
  · rw [if_pos hf, if_pos (hfirst.mpr hf)]
    rfl
  · rw [if_neg hf, if_neg (hfirst.not.mpr hf)]

theorem stampResponse_flow (p : CFormatPacket) (h : s.WF) :
    (stampResponse p s).flow = s.flow.stampResponse p := by
  have hfirst : (s.rspBuf.len = 0 ∧ s.result.responseTimeStamp = 0) ↔
      (s.flow.rsp = [] ∧ s.flow.result.responseTimeStamp = 0) :=
    and_congr_left' h.rsp.len_eq_zero_iff
  unfold stampResponse Flow.stampResponse
  by_cases hf : s.flow.rsp = [] ∧ s.flow.result.responseTimeStamp = 0
  · rw [if_pos hf, if_pos (hfirst.mpr hf)]
    rfl
  · rw [if_neg hf, if_neg (hfirst.not.mpr hf)]

theorem stampRequest_wf (p : CFormatPacket) (h : s.WF) : (stampRequest p s).WF := by
  unfold stampRequest
  split
  · exact ⟨h.req, h.rsp⟩
  · exact h

theorem stampResponse_wf (p : CFormatPacket) (h : s.WF) : (stampResponse p s).WF := by
  unfold stampResponse
  split
  · exact ⟨h.req, h.rsp⟩
  · exact h

/-- An append that is granted and fits appends the payload. -/
theorem appendRequest_flow {e : Env} {p : CFormatPacket} (h : s.WF) (he : e.append.isSome)
    (hfit : (s.flow.appendRequest p).req.length < 2 ^ 32) :
    (CHandle.appendRequest e p s).2.flow = s.flow.appendRequest p ∧
      (CHandle.appendRequest e p s).2.WF := by
  have hlen : s.reqBuf.len + p.dataSize < 2 ^ 32 := by
    rw [← h.req.contents_length]
    simpa [Flow.appendRequest, CSession.flow, CFormatPacket.payload] using hfit
  obtain ⟨-, hwf, hcontents⟩ := h.req.append he (p := p.data) hlen
  exact ⟨congrArg (fun bs => ({ s.flow with req := bs } : Flow)) hcontents, hwf, h.rsp⟩

/-- The same for a response. -/
theorem appendResponse_flow {e : Env} {p : CFormatPacket} (h : s.WF) (he : e.append.isSome)
    (hfit : (s.flow.appendResponse p).rsp.length < 2 ^ 32) :
    (CHandle.appendResponse e p s).2.flow = s.flow.appendResponse p ∧
      (CHandle.appendResponse e p s).2.WF := by
  have hlen : s.rspBuf.len + p.dataSize < 2 ^ 32 := by
    rw [← h.rsp.contents_length]
    simpa [Flow.appendResponse, CSession.flow, CFormatPacket.payload] using hfit
  obtain ⟨-, hwf, hcontents⟩ := h.rsp.append he (p := p.data) hlen
  exact ⟨congrArg (fun bs => ({ s.flow with rsp := bs } : Flow)) hcontents, h.req, hwf⟩

/-- What holds between a step on a session and the step on its flow. -/
structure Refines (r : Option CSession × List (CSession × Option Record))
    (q : Option Flow × List Flow) : Prop where
  flow : r.1.map CSession.flow = q.1
  calls : (r.2.map fun k => k.1.flow) = q.2
  wf : ∀ s ∈ r.1, s.WF

theorem processData_flow (B : Boost) {e : Env} (he : e.Granted) (p : CFormatPacket)
    (way : UInt32) (h : s.WF) (hfit : (s.flow.file p way).1.Fits) :
    Refines (some (processData B e p way s).ses, (processData B e p way s).calls)
      (some (s.flow.file p way).1, (s.flow.file p way).2) := by
  have h₀ := h.setSeq p.seqNo p.ackSeqNo
  have hflow₀ := CSession.flow_setSeq s p.seqNo p.ackSeqNo
  unfold processData Flow.file at *
  simp only at hfit ⊢
  rw [← hflow₀] at hfit ⊢
  generalize s.setSeq p.seqNo p.ackSeqNo = s₀ at h₀ hfit ⊢
  by_cases hunk : way = unkMatch
  · simp only [if_pos hunk]
    exact ⟨rfl, rfl, fun s hs => Option.mem_some_iff.mp hs ▸ h₀⟩
  simp only [if_neg hunk] at hfit ⊢
  by_cases hc2s : way = c2sMatch
  · simp only [if_pos hc2s] at hfit ⊢
    obtain ⟨hfull, hcalls⟩ := parseFull_flow B e.parse h₀
    have h₁ := parseFull_wf B h₀ he.parse
    rw [← hfull, ← stampRequest_flow p h₁] at hfit ⊢
    obtain ⟨happ, hwf⟩ := appendRequest_flow (stampRequest_wf p h₁) he.append hfit.req
    exact ⟨congrArg some happ, hcalls, fun s hs => Option.mem_some_iff.mp hs ▸ hwf⟩
  simp only [if_neg hc2s] at hfit ⊢
  by_cases hs2c : way = s2cMatch
  · simp only [if_pos hs2c] at hfit ⊢
    rw [← stampResponse_flow p h₀] at hfit ⊢
    obtain ⟨happ, hwf⟩ := appendResponse_flow (stampResponse_wf p h₀) he.append hfit.rsp
    exact ⟨congrArg some happ, rfl, fun s hs => Option.mem_some_iff.mp hs ▸ hwf⟩
  · simp only [if_neg hs2c]
    exact ⟨rfl, rfl, fun s hs => Option.mem_some_iff.mp hs ▸ h₀⟩

theorem serve_flow (B : Boost) {x : Call} (he : x.env.Granted) (info : CSharedBehaviorInfo)
    (h : s.WF) (hfit : ∀ f ∈ (s.flow.serve x.packet info).1, f.Fits) :
    Refines (CHandle.serve B x info s) (s.flow.serve x.packet info) := by
  have hsame : Refines (some s, []) (some s.flow, []) :=
    ⟨rfl, rfl, fun s' hs => Option.mem_some_iff.mp hs ▸ h⟩
  unfold CHandle.serve Flow.serve at *
  by_cases hclose : x.packet.closes
  · simp only [if_pos hclose]
    exact ⟨rfl, rfl, fun s hs => absurd hs (by simp)⟩
  simp only [if_neg hclose] at hfit ⊢
  have hrep : repeated x.packet s = true ↔ s.flow.seqNo = x.packet.seqNo := decide_eq_true_iff
  by_cases hseq : s.flow.seqNo = x.packet.seqNo
  · simp only [if_pos hseq, if_pos (hrep.mpr hseq)]
    exact hsame
  simp only [if_neg hseq, if_neg (hrep.not.mpr hseq)] at hfit ⊢
  by_cases hzero : x.packet.dataLen = 0
  · simp only [if_pos hzero]
    exact hsame
  simp only [if_neg hzero] at hfit ⊢
  exact processData_flow B he x.packet info.matchWay h (hfit _ (Option.mem_some_self _))

theorem opened_flow {x : Call} (he : x.env.Granted) (info : CSharedBehaviorInfo)
    {o : Option CSession} (h : ∀ s ∈ o, s.WF) :
    (CHandle.opened x info o).flow = Flow.opened x info (o.map CSession.flow) ∧
      (CHandle.opened x info o).WF := by
  cases o with
  | none =>
    exact ⟨CSessionHashTable.newSession_flow ..,
      CSessionHashTable.newSession_wf _ _ _ he.bufs he.reset⟩
  | some s => exact ⟨rfl, (h s rfl).req, (h s rfl).rsp⟩

/-- What the sweep of the buckets below `reach` does to a session. -/
def due (e : Env) (reach : Nat) : Option CSession → Due
  | none => ⟨false, false⟩
  | some s =>
    ⟨decide ((hashConn s.conn).toNat < reach) && sweepParses e.timeCheck s,
      decide ((hashConn s.conn).toNat < reach) && sweepExpires e.timeCheck s⟩

/-- Nothing is due for a session that was refreshed within the minute, or that is not reached. -/
theorem due_of_recent {e : Env} {reach : Nat} {s : CSession}
    (h : (hashConn s.conn).toNat < reach → e.timeCheck - s.refreshTime ≤ 60) :
    due e reach (some s) = ⟨false, false⟩ := by
  by_cases hin : (hashConn s.conn).toNat < reach
  · have hrecent : ¬ e.timeCheck - s.refreshTime > 60 := not_lt.mpr (h hin)
    have hparses : sweepParses e.timeCheck s = false := by
      rw [sweepParses, decide_eq_false hrecent, Bool.and_false]
    have hexpires : sweepExpires e.timeCheck s = false :=
      Bool.eq_false_iff.mpr fun hexpires => hrecent (idle_of_sweepExpires hexpires)
    simp only [due, hparses, hexpires, Bool.and_false]
  · simp only [due, decide_eq_false hin, Bool.false_and]

/-- The sweep leaves alone what it neither parses nor erases. -/
theorem sweepConn_not_due (B : Boost) {e : Env} {reach : Nat} {o : Option CSession}
    (h : due e reach o = ⟨false, false⟩) : sweepConn B e reach o = (o, []) := by
  cases o with
  | none => rfl
  | some s =>
    obtain ⟨hparse, herase⟩ := Due.mk.inj h
    by_cases hin : (hashConn s.conn).toNat < reach
    · rw [decide_eq_true hin, Bool.true_and] at hparse herase
      simp only [sweepConn, if_pos hin, sweptSes, hparse, herase, Bool.false_eq_true, if_false]
    · simp only [sweepConn, if_neg hin]

theorem sweepConn_flow (B : Boost) {e : Env} (he : e.Granted) (reach : Nat)
    {o : Option CSession} (h : ∀ s ∈ o, s.WF) :
    Refines (sweepConn B e reach o) (Flow.sweep (due e reach o) (o.map CSession.flow)) := by
  cases o with
  | none => exact ⟨rfl, rfl, fun s hs => absurd hs (by simp [sweepConn])⟩
  | some s =>
    have hs : s.WF := h s rfl
    have hswept : (sweptSes B e s).flow =
        (if sweepParses e.timeCheck s then s.flow.reset else s.flow) ∧ (sweptSes B e s).WF := by
      unfold sweptSes
      split
      · exact ⟨parse_flow .., parse_wf B hs (he.sweep _ _)⟩
      · exact ⟨rfl, hs⟩
    unfold sweepConn due
    by_cases hin : (hashConn s.conn).toNat < reach
    · simp only [if_pos hin, decide_eq_true hin, Bool.true_and]
      refine ⟨?_, ?_, fun s' hs' => ?_⟩
      · simp only [Option.map_some, Flow.sweep, ← hswept.1]
        cases sweepExpires e.timeCheck s <;> rfl
      · simp only [Option.map_some, Flow.sweep]
        cases sweepParses e.timeCheck s <;> rfl
      · cases hx : sweepExpires e.timeCheck s with
        | true => simp [hx] at hs'
        | false =>
          simp only [hx, Bool.false_eq_true, if_false, Option.mem_some_iff] at hs'
          exact hs' ▸ hswept.2
    · simp only [if_neg hin, decide_eq_false hin, Bool.false_and]
      exact ⟨rfl, rfl, fun s' hs' => Option.mem_some_iff.mp hs' ▸ hs⟩

/-- **A step of the connection is a step of its flow**, for what the sweep decides
about the session. -/
theorem connStep_flow (B : Boost) (last : Int) (c : Conn) {x : Call} (he : x.env.Granted)
    {o : Option CSession} (h : ∀ s ∈ o, s.WF)
    (hfit : ∀ f ∈ (Flow.step c (due x.env (sweepReach last x.env) o)
      (o.map CSession.flow) x).1, f.Fits) :
    Refines (connStep B last c o x)
      (Flow.step c (due x.env (sweepReach last x.env) o) (o.map CSession.flow) x) := by
  have hsweep := sweepConn_flow B he (sweepReach last x.env) h
  unfold connStep Flow.step at *
  cases hinfo : x.info with
  | none => exact hsweep
  | some info =>
    simp only [hinfo] at hfit ⊢
    by_cases hc : x.packet.conn = c
    · simp only [if_pos hc, ← hsweep.flow] at hfit ⊢
      obtain ⟨hopen, hwf⟩ := opened_flow he info hsweep.wf
      rw [← hopen] at hfit ⊢
      have hserve := serve_flow B he info hwf hfit
      refine ⟨hserve.flow, ?_, hserve.wf⟩
      rw [List.map_append, hsweep.calls, hserve.calls]
    · simp only [if_neg hc]
      exact hsweep

end Refinement

/-! ## Runs without a sweep -/

/-- The flow of a connection while no sweep is due. -/
def flowMachine (c : Conn) : Machine (Option Flow) Call Flow where
  step o x := Flow.step c ⟨false, false⟩ o x

/-- The buffered bytes can be counted after every call. -/
abbrev FitsAlong (c : Conn) (o : Option Flow) (xs : List Call) : Prop :=
  (flowMachine c).Along (fun o => ∀ f ∈ o, f.Fits) o xs

/-- While the interval since `last` is not over, nothing is due. -/
theorem due_of_quiet {last : Int} {e : Env} (h : e.timeCheck - last < timeoutCheckDur)
    (o : Option CSession) : due e (sweepReach last e) o = ⟨false, false⟩ := by
  rw [sweepReach, if_pos h]
  cases o with
  | none => rfl
  | some s => simp [due]

/-- The machine of a connection runs as its flow does. -/
theorem connMachine_flow (B : Boost) {last : Int} {c : Conn} {xs : List Call}
    (hquiet : ∀ x ∈ xs, x.env.timeCheck - last < timeoutCheckDur)
    (hgrant : ∀ x ∈ xs, x.env.Granted) {o : Option CSession} (ho : ∀ s ∈ o, s.WF)
    (hfit : FitsAlong c (o.map CSession.flow) xs) :
    Refines ((connMachine B last c).run o xs) ((flowMachine c).run (o.map CSession.flow) xs) := by
  induction xs generalizing o with
  | nil => exact ⟨rfl, rfl, ho⟩
  | cons x xs ih =>
    have hdue := due_of_quiet (hquiet x List.mem_cons_self) o
    obtain ⟨hfit₁, hfit₂⟩ := hfit
    have hstep := connStep_flow B last c (hgrant x List.mem_cons_self) ho (by rwa [hdue])
    rw [hdue] at hstep
    change FitsAlong c (Flow.step c ⟨false, false⟩ (o.map CSession.flow) x).1 xs at hfit₂
    rw [← hstep.flow] at hfit₂
    have hrest := ih (fun y hy => hquiet y (List.mem_cons_of_mem _ hy))
      (fun y hy => hgrant y (List.mem_cons_of_mem _ hy)) hstep.wf hfit₂
    rw [hstep.flow] at hrest
    refine ⟨hrest.flow, ?_, hrest.wf⟩
    rw [Machine.run_cons, Machine.run_cons, List.map_append]
    exact congrArg₂ (· ++ ·) hstep.calls hrest.calls

/-- The calls of connection `c`. -/
abbrev ofConn (c : Conn) (xs : List Call) : List Call := xs.filter fun x => x.packet.conn = c

/-- While no sweep is due, the machine of a connection reads its own calls only. -/
theorem connMachine_ofConn (B : Boost) {last : Int} (c : Conn) {xs : List Call}
    (hquiet : ∀ x ∈ xs, x.env.timeCheck - last < timeoutCheckDur) (o : Option CSession) :
    (connMachine B last c).run o xs = (connMachine B last c).run o (ofConn c xs) :=
  (connMachine B last c).run_filter _ (fun o _ hx hc => connStep_of_other hx (by simpa using hc) o)
    xs o hquiet

/-- **While no sweep is due, the handle runs, for every connection, as the flow of
that connection does on its own calls.** -/
theorem run_flow (B : Boost) {h : CHandle} (hw : h.sesHash.WF) (c : Conn) (xs : List Call)
    (hquiet : ∀ x ∈ xs, x.env.timeCheck - h.lastTimeOutCheck < timeoutCheckDur)
    (hgrant : ∀ x ∈ ofConn c xs, x.env.Granted) (ho : ∀ s ∈ h.sesHash.session c, s.WF)
    (hfit : FitsAlong c ((h.sesHash.session c).map CSession.flow) (ofConn c xs)) :
    Refines (((handleMachine B).run h xs).1.sesHash.session c,
        ((handleMachine B).run h xs).2.filterMap (obsConn c))
      ((flowMachine c).run ((h.sesHash.session c).map CSession.flow) (ofConn c xs)) := by
  obtain ⟨hses, hcalls⟩ := run_conn B hw c xs
  rw [hses, hcalls, connMachine_ofConn B c hquiet]
  exact connMachine_flow B (fun x hx => hquiet x (List.mem_of_mem_filter hx)) hgrant ho hfit

end HttpDecoder
