import HttpDecoder.Messages
import HttpDecoder.Flow

/-!
# What one exchange leaves to the next

`GetBufByTag` appends to the string it is handed, `ParseHeader` inserts into the map it is
handed, and a stage that fails leaves in `Result` what it has stored before.  What keeps the
exchanges apart is the `Reset` on every exit of `Parse`.

* `CResult.Clean` — nothing but the time stamps is set.
* `RequestOf`, `ResponseOf` — the fields of a record are the tokens of one message, from
  `scanRequest` and `scanStatus`, searched for with empty outputs.
* `Emits` — what a call of `Parse` sends, and when; `Left` — what it leaves.
* `clean_run` — **in every reachable state every result is clean**, and every call of `Parse`
  on the way works on a clean one.
* `noLeak` — hence **every record comes from its own exchange only**.
-/

namespace HttpDecoder

open CLib CHandle

/-! ## Clean results -/

/-- What the stages write is as `Reset` leaves it. -/
structure CResult.Clean (r : CResult) : Prop where
  method : r.method = metUnknown
  version : r.version = verUnknown
  retCode : r.retCode = 0
  url : r.url = []
  retNote : r.retNote = []
  requestHeader : r.requestHeader = ∅
  responseHeader : r.responseHeader = ∅

theorem CResult.clean_reset : CResult.reset.Clean := ⟨rfl, rfl, rfl, rfl, rfl, rfl, rfl⟩

/-- The times are none of it. -/
theorem CResult.Clean.setTimes {r : CResult} (h : r.Clean) (request response : UInt64) :
    ({ r with requestTimeStamp := request, responseTimeStamp := response } : CResult).Clean :=
  ⟨h.method, h.version, h.retCode, h.url, h.retNote, h.requestHeader, h.responseHeader⟩

/-- The result of the session is clean. -/
abbrev CSession.Clean (s : CSession) : Prop := s.result.Clean

/-! ## The tokens of one message -/

/-- The tokens of a request line from `pos` on, and the cursor behind them. -/
def scanRequest (pBuf : Mem) (len pos : Nat) : Option (Bytes × Bytes × Bytes × Nat) := do
  let (a, method) ← getBufAt pBuf len pos [sp] []
  let pos₁ := u32 (pos + (a + 1))
  let (b, url) ← getBufAt pBuf len pos₁ [sp] []
  let pos₂ := u32 (pos₁ + (b + 1))
  let (c, version) ← getBufAt pBuf len pos₂ [lf] []
  return (method, url, version, u32 (pos₂ + (c + 1)))

/-- The tokens of a status line from `pos` on, and the cursor behind them. -/
def scanStatus (pBuf : Mem) (len pos : Nat) : Option (Bytes × Bytes × Bytes × Nat) := do
  let (a, version) ← getBufAt pBuf len pos [sp] []
  let pos₁ := u32 (pos + (a + 1))
  let (b, code) ← getBufAt pBuf len pos₁ [sp] []
  let pos₂ := u32 (pos₁ + (b + 1))
  let (c, note) ← getBufAt pBuf len pos₂ [cr, lf] []
  return (version, code, note, u32 (pos₂ + (c + 2)))

section Stages

variable {B : Boost} {und : UInt32} {pBuf : Mem} {len pos : Nat} {result : CResult}

theorem scanRequest_eq {a b c : Nat} {method url version : Bytes}
    (hmethod : getBufAt pBuf len pos [sp] [] = some (a, method))
    (hurl : getBufAt pBuf len (u32 (pos + (a + 1))) [sp] [] = some (b, url))
    (hversion : getBufAt pBuf len (u32 (u32 (pos + (a + 1)) + (b + 1))) [lf] [] =
      some (c, version)) : scanRequest pBuf len pos = some (method, url, version,
        u32 (u32 (u32 (pos + (a + 1)) + (b + 1)) + (c + 1))) := by
  simp [scanRequest, hmethod, hurl, hversion]

theorem scanStatus_eq {a b c : Nat} {version code note : Bytes}
    (hversion : getBufAt pBuf len pos [sp] [] = some (a, version))
    (hcode : getBufAt pBuf len (u32 (pos + (a + 1))) [sp] [] = some (b, code))
    (hnote : getBufAt pBuf len (u32 (u32 (pos + (a + 1)) + (b + 1))) [cr, lf] [] =
      some (c, note)) : scanStatus pBuf len pos = some (version, code, note,
        u32 (u32 (u32 (pos + (a + 1)) + (b + 1)) + (c + 2))) := by
  simp [scanStatus, hversion, hcode, hnote]

/-- **A request line that is accepted is its tokens**, if no URL is there yet. -/
theorem parseMethodAndUri_ok (h : (parseMethodAndUri B und pBuf len pos result).ok = true)
    (hurl : result.url = []) :
    ∃ method url version ver pos' evals,
      scanRequest pBuf len pos = some (method, url, version, pos') ∧
      getVersion B version = some ver ∧
      parseMethodAndUri B und pBuf len pos result =
        ⟨true, pos', { result with method := getMethod und method, url := url, version := ver },
          evals⟩ := by
  unfold parseMethodAndUri at h ⊢
  simp only [hurl] at h ⊢
  cases hmethod : getBufAt pBuf len pos [sp] [] with
  | none => simp [hmethod] at h
  | some q₁ =>
    obtain ⟨a, method⟩ := q₁
    simp only [hmethod] at h ⊢
    cases hurl' : getBufAt pBuf len (u32 (pos + (a + 1))) [sp] [] with
    | none => simp [hurl'] at h
    | some q₂ =>
      obtain ⟨b, url⟩ := q₂
      simp only [hurl'] at h ⊢
      cases hversion : getBufAt pBuf len (u32 (u32 (pos + (a + 1)) + (b + 1))) [lf] [] with
      | none => simp [hversion] at h
      | some q₃ =>
        obtain ⟨c, version⟩ := q₃
        simp only [hversion] at h ⊢
        cases hver : getVersion B version with
        | none => simp [hver] at h
        | some ver =>
          exact ⟨method, url, version, ver, _, _, scanRequest_eq hmethod hurl' hversion, hver, rfl⟩

/-- **A status line that is accepted is its tokens**, if no reason is there yet. -/
theorem parseRspState_ok (h : (parseRspState B pBuf len pos result).ok = true)
    (hnote : result.retNote = []) :
    ∃ version code note num pos' evals,
      scanStatus pBuf len pos = some (version, code, note, pos') ∧
      getVersion B version = some result.version ∧ B.castUInt32 code = some num ∧
      parseRspState B pBuf len pos result =
        ⟨true, pos', { result with retCode := num, retNote := note }, evals⟩ := by
  unfold parseRspState at h ⊢
  simp only [hnote] at h ⊢
  cases hversion : getBufAt pBuf len pos [sp] [] with
  | none => simp [hversion] at h
  | some q₁ =>
    obtain ⟨a, version⟩ := q₁
    simp only [hversion] at h ⊢
    cases hver : getVersion B version with
    | none => simp [hver] at h
    | some ver =>
      simp only [hver] at h ⊢
      by_cases hsame : ver = result.version
      · subst hsame
        simp only [ne_eq, not_true_eq_false, if_false] at h ⊢
        cases hcode : getBufAt pBuf len (u32 (pos + (a + 1))) [sp] [] with
        | none => simp [hcode] at h
        | some q₂ =>
          obtain ⟨b, code⟩ := q₂
          simp only [hcode] at h ⊢
          cases hnum : B.castUInt32 code with
          | none => simp [hnum] at h
          | some num =>
            simp only [hnum] at h ⊢
            cases hnote' :
                getBufAt pBuf len (u32 (u32 (pos + (a + 1)) + (b + 1))) [cr, lf] [] with
            | none => simp [hnote'] at h
            | some q₃ =>
              obtain ⟨c, note⟩ := q₃
              exact ⟨version, code, note, num, _, _, scanStatus_eq hversion hcode hnote', hver,
                hnum, rfl⟩
      · simp [hsame] at h

end Stages

/-! ## The fields of one message -/

/-- The request fields are those of the message in `pBuf`, or unset if it is too short to be
parsed. -/
structure RequestOf (B : Boost) (und : UInt32) (pBuf : Mem) (len : Nat) (method : UInt32)
    (url : Bytes) (version : UInt32) (header : HeaderMap) : Prop where
  /-- More than 10 bytes are parsed. -/
  long : 10 < len → ∃ token text pos, scanRequest pBuf len 0 = some (token, url, text, pos) ∧
    method = getMethod und token ∧ getVersion B text = some version ∧
    (parseHeader pBuf len pos ∅).ok = true ∧ header = (parseHeader pBuf len pos ∅).out
  short : ¬ 10 < len → method = metUnknown ∧ url = [] ∧ version = verUnknown ∧ header = ∅

/-- The response fields are those of the message in `pBuf`, or unset if it is too short to be
parsed. -/
structure ResponseOf (B : Boost) (pBuf : Mem) (len : Nat) (version retCode : UInt32)
    (retNote : Bytes) (header : HeaderMap) : Prop where
  /-- More than 10 bytes are parsed. -/
  long : 10 < len → ∃ text code pos, scanStatus pBuf len 0 = some (text, code, retNote, pos) ∧
    getVersion B text = some version ∧ B.castUInt32 code = some retCode ∧
    (parseHeader pBuf len pos ∅).ok = true ∧ header = (parseHeader pBuf len pos ∅).out
  short : ¬ 10 < len → retCode = 0 ∧ retNote = [] ∧ header = ∅

section Messages

variable {B : Boost} {und : UInt32} {pBuf : Mem} {len : Nat} {result : CResult}

/-- **A request that passes has set the request fields to its own.** -/
theorem requestOf_parseRequest (h : (parseRequest B und pBuf len result).ok = true)
    (hclean : result.Clean) :
    let out := (parseRequest B und pBuf len result).out
    RequestOf B und pBuf len out.method out.url out.version out.requestHeader ∧
      out.retCode = 0 ∧ out.retNote = [] ∧ out.responseHeader = ∅ := by
  unfold parseRequest at h ⊢
  by_cases hlong : 10 < len
  · simp only [if_pos hlong] at h ⊢
    by_cases hline : (parseMethodAndUri B und pBuf len 0 result).ok = true
    · obtain ⟨token, url, text, ver, pos, evals, htokens, hver, hout⟩ :=
        parseMethodAndUri_ok hline hclean.url
      rw [if_neg (not_not.mpr hline)] at h ⊢
      rw [hout] at h ⊢
      simp only [hclean.requestHeader] at h ⊢
      refine ⟨⟨fun _ => ?_, fun hshort => absurd hlong hshort⟩, hclean.retCode, hclean.retNote,
        hclean.responseHeader⟩
      exact ⟨token, text, pos, htokens, rfl, hver, h, rfl⟩
    · rw [if_pos hline] at h
      exact absurd h hline
  · simp only [if_neg hlong] at h ⊢
    refine ⟨⟨fun h' => absurd h' hlong, fun _ => ?_⟩, hclean.retCode, hclean.retNote,
      hclean.responseHeader⟩
    exact ⟨hclean.method, hclean.url, hclean.version, hclean.requestHeader⟩

/-- **A response that passes has set the response fields to its own** and left the others. -/
theorem responseOf_parseResponse (h : (parseResponse B pBuf len result).ok = true)
    (hcode : result.retCode = 0) (hnote : result.retNote = []) (hheader : result.responseHeader = ∅) :
    let out := (parseResponse B pBuf len result).out
    ResponseOf B pBuf len out.version out.retCode out.retNote out.responseHeader ∧
      out.method = result.method ∧ out.url = result.url ∧ out.version = result.version ∧
      out.requestHeader = result.requestHeader := by
  unfold parseResponse at h ⊢
  by_cases hlong : 10 < len
  · simp only [if_pos hlong] at h ⊢
    by_cases hline : (parseRspState B pBuf len 0 result).ok = true
    · obtain ⟨text, code, note, num, pos, evals, htokens, hver, hnum, hout⟩ :=
        parseRspState_ok hline hnote
      rw [if_neg (not_not.mpr hline)] at h ⊢
      rw [hout] at h ⊢
      simp only [hheader] at h ⊢
      refine ⟨⟨fun _ => ?_, fun hshort => absurd hlong hshort⟩,
        trivial, trivial, trivial, trivial⟩
      exact ⟨text, code, pos, htokens, hver, hnum, h, rfl⟩
    · rw [if_pos hline] at h
      exact absurd h hline
  · simp only [if_neg hlong] at h ⊢
    exact ⟨⟨fun h' => absurd h' hlong, fun _ => ⟨hcode, hnote, hheader⟩⟩, trivial, trivial,
      trivial, trivial⟩

end Messages

/-! ## One call of `Parse` -/

/-- What `Parse` leaves of the session `s`: no bytes, the result of `Reset`, and everything
else as it was. -/
structure Left (s s' : CSession) : Prop where
  req : s'.reqBuf.len = 0
  rsp : s'.rspBuf.len = 0
  result : s'.result = CResult.reset
  server : s'.server = s.server
  client : s'.client = s.client
  seqNo : s'.seqNo = s.seqNo ∧ s'.ackSeqNo = s.ackSeqNo
  times : s'.createdTime = s.createdTime ∧ s'.refreshTime = s.refreshTime

/-- Every exit of `Parse` leaves that. -/
theorem left_parse (B : Boost) (e : ParseEnv) (s : CSession) : Left s (parse B e s).1 := by
  rw [parse_fst]
  exact ⟨rfl, rfl, rfl, rfl, rfl, ⟨rfl, rfl⟩, ⟨rfl, rfl⟩⟩

/-- What a call of `Parse` on `s` may send: one record if both messages pass, with the fields
of these messages, and none otherwise. -/
structure Emits (B : Boost) (e : ParseEnv) (s : CSession) (sent : Option Record) : Prop where
  /-- Without two messages nothing is sent. -/
  empty : s.reqBuf.len = 0 ∨ s.rspBuf.len = 0 ∨ s.reqBuf.buf = none ∨ s.rspBuf.buf = none →
    sent = none
  /-- Nor is it when a stage fails. -/
  failed : ∀ req rsp, s.reqBuf.buf = some req → s.rspBuf.buf = some rsp →
    (parseRequest B e.method req.byte s.reqBuf.len s.result).ok = false ∨
      (parseResponse B rsp.byte s.rspBuf.len
        (parseRequest B e.method req.byte s.reqBuf.len s.result).out).ok = false → sent = none
  /-- The fields of a record are those of the messages in the two buffers. -/
  fields : ∀ r ∈ sent, ∃ req rsp, s.reqBuf.buf = some req ∧ s.rspBuf.buf = some rsp ∧
    RequestOf B e.method req.byte s.reqBuf.len r.method r.url r.version r.requestHeader ∧
    ResponseOf B rsp.byte s.rspBuf.len r.version r.retCode r.retNote r.responseHeader

/-- A record is sent only if both buffers have a block. -/
theorem blocks_of_sent {B : Boost} {e : ParseEnv} {s : CSession} (h : (parse B e s).2 ≠ none) :
    ∃ req rsp, s.reqBuf.buf = some req ∧ s.rspBuf.buf = some rsp := by
  unfold parse at h
  cases hreq : s.reqBuf.buf with
  | none => simp [hreq] at h
  | some req =>
    cases hrsp : s.rspBuf.buf with
    | none => simp [hreq, hrsp] at h
    | some rsp => exact ⟨req, rsp, rfl, rfl⟩

/-- **Parse on a clean result sends what it finds in the buffers.** -/
theorem emits_parse (B : Boost) (e : ParseEnv) {s : CSession} (hs : s.Clean) :
    Emits B e s (parse B e s).2 where
  empty := by
    intro hempty
    by_contra hsent
    obtain ⟨hreq, hrsp⟩ := len_of_sent hsent
    obtain ⟨req, rsp, hreqBuf, hrspBuf⟩ := blocks_of_sent hsent
    simp [hreq, hrsp, hreqBuf, hrspBuf] at hempty
  failed := by
    intro req rsp hreq hrsp hfailed
    by_contra hsent
    obtain ⟨hreq₀, hrsp₀⟩ := len_of_sent hsent
    apply hsent
    rw [parse_snd hreq hrsp hreq₀ hrsp₀]
    rcases hfailed with hfailed | hfailed
    · rw [hfailed]
      rfl
    · rw [hfailed, Bool.and_false]
      rfl
  fields := by
    intro r hr
    have hsent : (parse B e s).2 ≠ none := by
      rw [Option.mem_def.mp hr]
      simp
    obtain ⟨hreq₀, hrsp₀⟩ := len_of_sent hsent
    obtain ⟨req, rsp, hreq, hrsp⟩ := blocks_of_sent hsent
    have hparse := parse_snd (B := B) (e := e) hreq hrsp hreq₀ hrsp₀
    rw [Option.mem_def.mp hr] at hparse
    dsimp only at hparse
    have hok : ((parseRequest B e.method req.byte s.reqBuf.len s.result).ok &&
        (parseResponse B rsp.byte s.rspBuf.len
          (parseRequest B e.method req.byte s.reqBuf.len s.result).out).ok) = true := by
      by_contra hno
      rw [if_neg hno] at hparse
      cases hparse
    rw [if_pos hok] at hparse
    obtain ⟨hreqOk, hrspOk⟩ := (Bool.and_eq_true _ _).mp hok
    obtain ⟨hrequest, hcode, hnote, hheader⟩ := requestOf_parseRequest hreqOk hs
    obtain ⟨hresponse, hmethod, hurl, hversion, hreqHeader⟩ :=
      responseOf_parseResponse hrspOk hcode hnote hheader
    rw [Option.some.inj hparse]
    refine ⟨req, rsp, hreq, hrsp, ?_, hresponse⟩
    rw [← hmethod, ← hurl, ← hversion, ← hreqHeader] at hrequest
    exact hrequest

/-! ## Whole runs -/

theorem CSession.Clean.setSeq {s : CSession} (h : s.Clean) (n m : UInt32) :
    (s.setSeq n m).Clean := h

theorem CSession.Clean.stampRequest {s : CSession} (h : s.Clean) (p : CFormatPacket) :
    (CHandle.stampRequest p s).Clean := by
  unfold CHandle.stampRequest
  by_cases hfirst : s.reqBuf.len = 0 ∧ s.result.requestTimeStamp = 0
  · rw [if_pos hfirst]
    exact h.setTimes p.timeStamp _
  · rwa [if_neg hfirst]

theorem CSession.Clean.stampResponse {s : CSession} (h : s.Clean) (p : CFormatPacket) :
    (CHandle.stampResponse p s).Clean := by
  unfold CHandle.stampResponse
  by_cases hfirst : s.rspBuf.len = 0 ∧ s.result.responseTimeStamp = 0
  · rw [if_pos hfirst]
    exact h.setTimes _ p.timeStamp
  · rwa [if_neg hfirst]

theorem CSession.Clean.appendRequest {s : CSession} (h : s.Clean) (e : Env) (p : CFormatPacket) :
    (CHandle.appendRequest e p s).2.Clean := h

theorem CSession.Clean.appendResponse {s : CSession} (h : s.Clean) (e : Env) (p : CFormatPacket) :
    (CHandle.appendResponse e p s).2.Clean := h

theorem clean_parse (B : Boost) (e : ParseEnv) (s : CSession) : (parse B e s).1.Clean := by
  rw [parse_fst]
  exact CResult.clean_reset

/-- A call of `Parse` that worked on a clean result. -/
def CleanCall (B : Boost) (k : CSession × Option Record) : Prop :=
  k.1.Clean ∧ ∃ e, k.2 = (parse B e k.1).2

/-- What holds of the sessions left and the calls made. -/
structure CleanStep (B : Boost) (r : Option CSession × List (CSession × Option Record)) : Prop where
  ses : ∀ s ∈ r.1, s.Clean
  calls : ∀ k ∈ r.2, CleanCall B k

section Steps

variable {B : Boost} {s : CSession}

theorem CSession.Clean.sweepConn (e : Env) (reach : Nat) {o : Option CSession}
    (h : ∀ s ∈ o, s.Clean) : CleanStep B (CHandle.sweepConn B e reach o) := by
  cases o with
  | none => exact ⟨fun s hs => absurd hs (Option.not_mem_none s), fun k hk => absurd hk List.not_mem_nil⟩
  | some s =>
    have hs : s.Clean := h s rfl
    constructor
    · intro s' hs'
      rcases sweepConn_cases B e reach s s' hs' with rfl | rfl
      · unfold sweptSes
        split
        · exact clean_parse ..
        · exact hs
      · exact hs
    · intro k hk
      unfold CHandle.sweepConn at hk
      by_cases hin : (hashConn s.conn).toNat < reach
      · simp only [if_pos hin] at hk
        cases hparses : sweepParses e.timeCheck s with
        | true =>
          rw [hparses, if_pos rfl] at hk
          rw [List.mem_singleton.mp hk]
          exact ⟨hs, _, rfl⟩
        | false =>
          rw [hparses] at hk
          cases hk
      · simp only [if_neg hin] at hk
        cases hk

theorem CSession.Clean.opened (x : Call) (info : CSharedBehaviorInfo) {o : Option CSession}
    (h : ∀ s ∈ o, s.Clean) : (CHandle.opened x info o).Clean := by
  cases o with
  | none =>
    show (CSessionHashTable.newSession ..).Clean
    unfold CSessionHashTable.newSession
    split <;> exact CResult.clean_reset
  | some s => exact h s rfl

theorem CSession.Clean.parseFull (h : s.Clean) (e : ParseEnv) :
    (CHandle.parseFull B e s).1.Clean ∧ ∀ k ∈ (CHandle.parseFull B e s).2, CleanCall B k := by
  unfold CHandle.parseFull
  by_cases hboth : s.reqBuf.len > 0 ∧ s.rspBuf.len > 0
  · rw [if_pos hboth]
    constructor
    · rw [parse_fst]
      exact CResult.clean_reset
    · intro k hk
      rw [List.mem_singleton.mp hk]
      exact ⟨h, e, rfl⟩
  · rw [if_neg hboth]
    exact ⟨h, fun k hk => absurd hk List.not_mem_nil⟩

theorem CSession.Clean.processData (h : s.Clean) (e : Env) (p : CFormatPacket) (way : UInt32) :
    CleanStep B (some (CHandle.processData B e p way s).ses,
      (CHandle.processData B e p way s).calls) := by
  have hsome : ∀ {s' : CSession} {calls : List (CSession × Option Record)}, s'.Clean →
      (∀ k ∈ calls, CleanCall B k) → CleanStep B (some s', calls) := by
    intro s' calls hs' hcalls
    exact ⟨fun s'' hs'' => Option.some.inj hs'' ▸ hs', hcalls⟩
  have h₀ := h.setSeq p.seqNo p.ackSeqNo
  unfold CHandle.processData
  generalize s.setSeq p.seqNo p.ackSeqNo = s₀ at h₀ ⊢
  by_cases hunk : way = unkMatch
  · simp only [if_pos hunk]
    exact hsome h₀ fun k hk => absurd hk List.not_mem_nil
  by_cases hreq : way = c2sMatch
  · simp only [if_neg hunk, if_pos hreq]
    have hfull := h₀.parseFull (B := B) e.parse
    exact hsome ((hfull.1.stampRequest p).appendRequest e p) hfull.2
  by_cases hrsp : way = s2cMatch
  · simp only [if_neg hunk, if_neg hreq, if_pos hrsp]
    exact hsome ((h₀.stampResponse p).appendResponse e p) fun k hk => absurd hk List.not_mem_nil
  · simp only [if_neg hunk, if_neg hreq, if_neg hrsp]
    exact hsome h₀ fun k hk => absurd hk List.not_mem_nil

theorem CSession.Clean.serve (h : s.Clean) (x : Call) (info : CSharedBehaviorInfo) :
    CleanStep B (CHandle.serve B x info s) := by
  have hsame : CleanStep B (some s, []) :=
    ⟨fun s' hs' => Option.some.inj hs' ▸ h, fun k hk => absurd hk List.not_mem_nil⟩
  rcases served_cases x.packet s with hclose | ⟨hopen, hdrop⟩ | ⟨hopen, hdata, hnew⟩
  · rw [serve_closing hclose]
    refine ⟨fun s' hs' => absurd hs' (Option.not_mem_none s'), fun k hk => ?_⟩
    rw [List.mem_singleton.mp hk]
    exact ⟨h, _, rfl⟩
  · rwa [serve_left hopen hdrop]
  · rw [serve_filed hopen hdata hnew]
    exact h.processData x.env x.packet info.matchWay

/-- **One call keeps the results clean.** -/
theorem cleanStep (last : Int) (c : Conn) {o : Option CSession} (h : ∀ s ∈ o, s.Clean)
    (x : Call) : CleanStep B (connStep B last c o x) := by
  have hsweep := CSession.Clean.sweepConn (B := B) x.env (sweepReach last x.env) h
  unfold connStep
  cases x.info with
  | none => exact hsweep
  | some info =>
    by_cases hc : x.packet.conn = c
    · simp only [if_pos hc]
      obtain ⟨hses, hcalls⟩ :=
        (CSession.Clean.opened x info hsweep.ses).serve (B := B) x info
      refine ⟨hses, fun k hk => ?_⟩
      rcases List.mem_append.mp hk with hk | hk
      · exact hsweep.calls k hk
      · exact hcalls k hk
    · simp only [if_neg hc]
      exact hsweep

/-- **So does a run.** -/
theorem clean_run (last : Int) (c : Conn) (xs : List Call) {o : Option CSession}
    (h : ∀ s ∈ o, s.Clean) : CleanStep B ((connMachine B last c).run o xs) := by
  induction xs generalizing o with
  | nil => exact ⟨h, fun k hk => absurd hk List.not_mem_nil⟩
  | cons x xs ih =>
    have hstep := cleanStep (B := B) last c h x
    obtain ⟨hses, hcalls⟩ := ih hstep.ses
    refine ⟨hses, fun k hk => ?_⟩
    rw [Machine.run_cons] at hk
    rcases List.mem_append.mp hk with hk | hk
    · exact hstep.calls k hk
    · exact hcalls k hk

end Steps

/-- Every session reached is clean, and so are those handed to `Parse` on the way. -/
theorem cleanStep_run (B : Boost) (ses : Nat → CSession) (now : Int) (c : Conn)
    (xs : List Call) : CleanStep B
      (((handleMachine B).run (init ses now) xs).1.sesHash.session c,
        ((handleMachine B).run (init ses now) xs).2.filterMap (obsConn c)) := by
  obtain ⟨hses, hcalls⟩ := run_conn B (CSessionHashTable.wf_init ses) c xs (h := init ses now)
  have hnone : (init ses now).sesHash.session c = none := CSessionHashTable.session_init ses c
  rw [hnone] at hses hcalls
  rw [hses, hcalls]
  exact clean_run now c xs fun s hs => absurd hs (Option.not_mem_none s)

theorem cleanCall_run (B : Boost) (ses : Nat → CSession) (now : Int) (xs : List Call)
    {k : ParseCall} (hk : k ∈ ((handleMachine B).run (init ses now) xs).2) :
    CleanCall B (k.ses, k.sent) := by
  refine (cleanStep_run B ses now k.ses.conn xs).calls _ (List.mem_filterMap.mpr ⟨k, hk, ?_⟩)
  unfold obsConn
  rw [if_pos rfl]

/-- **No exchange leaves anything to the next.**  In every state reachable by calls of
`Process`, with their sweeps, every session of the table has a clean result.  Every call of
`Parse` on the way works on a clean result, sends at most one record, with the fields of the
two messages it finds, and leaves the session without bytes and with the result of `Reset`. -/
theorem noLeak (B : Boost) (ses : Nat → CSession) (now : Int) (xs : List Call) :
    let r := (handleMachine B).run (init ses now) xs
    (∀ i, ∀ a ∈ r.1.sesHash.cseshash i, (r.1.sesHash.ses a).Clean) ∧
      ∀ k ∈ r.2, k.ses.Clean ∧ ∃ e, k.sent = (parse B e k.ses).2 ∧ Emits B e k.ses k.sent ∧
        Left k.ses (parse B e k.ses).1 := by
  intro r
  have hw : r.1.sesHash.WF := Reachable.wf ⟨ses, now, xs, rfl⟩
  constructor
  · intro i a ha
    have hlookup : r.1.sesHash.lookup (r.1.sesHash.key a) = some a :=
      hw.lookup_iff.mpr ⟨⟨i, ha⟩, rfl⟩
    exact (cleanStep_run B ses now _ xs).ses _ (CSessionHashTable.session_of_lookup hlookup)
  · intro k hk
    obtain ⟨hclean, e, hsent⟩ := cleanCall_run B ses now xs hk
    have hemits : Emits B e k.ses k.sent := by
      rw [show k.sent = (parse B e k.ses).2 from hsent]
      exact emits_parse B e hclean
    exact ⟨hclean, e, hsent, hemits, left_parse B e k.ses⟩

end HttpDecoder
