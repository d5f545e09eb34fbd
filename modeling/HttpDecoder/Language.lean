import HttpDecoder.CleanResult
import HttpDecoder.Exchange
import HttpDecoder.Overread
import HttpDecoder.TimedFlow

/-!
# The exchanges that are reported

`Parse` as the recogniser of a language of byte strings, and what it prints as the derivation.

* `RequestText`, `ResponseText` — a message and its fields; `Derives` — a session and the record
  of its two messages.
* `Derives.sent`, `derives_of_sent` — `Parse` sends what can be derived, and nothing else, unless
  a message is cut off where the byte behind the buffer decides.
* `RequestText.append`, `ResponseText.append` — a body may grow.
* `sent_iff_derives` — **in every run the records are the derivations**.
* `longer_bodies` — **what follows the heads is printed and changes nothing else**.
-/

namespace HttpDecoder

open CLib CHandle

/-! ## Messages and their fields -/

/-- A request with its method, its url, its version and its headers. -/
inductive RequestText (B : Boost) (und : UInt32) :
    Bytes → UInt32 → Bytes → UInt32 → HeaderMap → Prop
  /-- Up to ten bytes are not looked at. -/
  | short {bs} : bs.length ≤ 10 → RequestText B und bs metUnknown [] verUnknown ∅
  /-- A request line, header lines, an empty line, and the body. -/
  | long {bs method url ver rest hs body} : 10 < bs.length → bs.length < 2 ^ 31 →
      RequestLine B bs method url ver rest → HeaderLines hs rest body → Blank body →
      RequestText B und bs (getMethod und method) url ver ((∅ : HeaderMap).insertMany hs)

/-- A response to a request of version `ver` with its code, its reason and its headers. -/
inductive ResponseText (B : Boost) (ver : UInt32) : Bytes → UInt32 → Bytes → HeaderMap → Prop
  /-- Up to ten bytes are not looked at. -/
  | short {bs} : bs.length ≤ 10 → ResponseText B ver bs 0 [] ∅
  /-- A status line, header lines, an empty line, and the body. -/
  | long {bs num tail reason rest hs body} : 10 < bs.length → bs.length < 2 ^ 31 →
      StatusStart B ver bs num tail → Reason tail reason rest → HeaderLines hs rest body →
      Blank body → ResponseText B ver bs num reason ((∅ : HeaderMap).insertMany hs)

/-- The record `r` can be derived from what the session holds. -/
structure Derives (B : Boost) (und : UInt32) (s : CSession) (r : Record) : Prop where
  ends : r.client = s.client ∧ r.server = s.server
  contexts : r.requestContext = s.reqBuf.contents ∧ r.responseContext = s.rspBuf.contents
  both : r.requestContext ≠ [] ∧ r.responseContext ≠ []
  request : RequestText B und r.requestContext r.method r.url r.version r.requestHeader
  response : ResponseText B r.version r.responseContext r.retCode r.retNote r.responseHeader

/-! ## More body -/

section Append

variable {B : Boost} {bs rest : Bytes} {ver : UInt32}

theorem Blank.append (h : Blank bs) (x : Bytes) : Blank (bs ++ x) :=
  h.imp (fun h => h.trans (List.prefix_append bs x)) fun h => h.trans (List.prefix_append bs x)

theorem HeaderLine.append {key value : Bytes} (h : HeaderLine key value bs rest) (x : Bytes) :
    HeaderLine key value (bs ++ x) (rest ++ x) := by
  have hlong : 2 ≤ bs.length := by
    rw [h.bytes]
    simp only [List.length_append, List.length_cons]
    omega
  refine ⟨by rw [h.bytes]; simp, h.key, h.value, fun hblank => h.notBlank ?_⟩
  -- an empty line has at most two bytes, and the line has them
  refine hblank.imp (fun hlf => ?_) fun hcrlf => ?_
  · exact List.prefix_of_prefix_length_le hlf (List.prefix_append bs x)
      (by rw [List.length_singleton]; omega)
  · exact List.prefix_of_prefix_length_le hcrlf (List.prefix_append bs x) hlong

theorem HeaderLines.append {hs : List (Bytes × Bytes)} (h : HeaderLines hs bs rest) (x : Bytes) :
    HeaderLines hs (bs ++ x) (rest ++ x) := by
  induction h with
  | nil rest => exact .nil _
  | cons hline _ ih => exact .cons (hline.append x) ih

theorem RequestLine.append {method url : Bytes} (h : RequestLine B bs method url ver rest)
    (x : Bytes) : RequestLine B (bs ++ x) method url ver (rest ++ x) := by
  obtain ⟨version, hbytes, hversion, hver⟩ := h.text
  exact ⟨⟨version, by rw [hbytes]; simp, hversion, hver⟩, h.method, h.url⟩

theorem StatusStart.append {num : UInt32} {tail : Bytes} (h : StatusStart B ver bs num tail)
    (x : Bytes) : StatusStart B ver (bs ++ x) num (tail ++ x) := by
  obtain ⟨version, code, hbytes, hversion, hcode, hver, hnum⟩ := h.text
  exact ⟨version, code, by rw [hbytes]; simp, hversion, hcode, hver, hnum⟩

theorem Reason.append {reason : Bytes} (h : Reason bs reason rest) (x : Bytes) :
    Reason (bs ++ x) reason (rest ++ x) :=
  ⟨by rw [h.bytes]; simp, h.noCrlf⟩

/-- A request that is looked at stays what it is when its body grows. -/
theorem RequestText.append {und method : UInt32} {url : Bytes} {header : HeaderMap}
    (h : RequestText B und bs method url ver header) (hlong : 10 < bs.length) {x : Bytes}
    (hsmall : (bs ++ x).length < 2 ^ 31) : RequestText B und (bs ++ x) method url ver header := by
  cases h with
  | short hshort => exact absurd hlong (not_lt.mpr hshort)
  | long _ _ hline hlines hblank =>
    exact .long (by rw [List.length_append]; omega) hsmall (hline.append x) (hlines.append x)
      (hblank.append x)

/-- So does a response. -/
theorem ResponseText.append {code : UInt32} {note : Bytes} {header : HeaderMap}
    (h : ResponseText B ver bs code note header) (hlong : 10 < bs.length) {x : Bytes}
    (hsmall : (bs ++ x).length < 2 ^ 31) : ResponseText B ver (bs ++ x) code note header := by
  cases h with
  | short hshort => exact absurd hlong (not_lt.mpr hshort)
  | long _ _ hstart hreason hlines hblank =>
    exact .long (by rw [List.length_append]; omega) hsmall (hstart.append x) (hreason.append x)
      (hlines.append x) (hblank.append x)

end Append

/-! ## The parser and the language -/

/-- The result with the fields of a request. -/
def CResult.setRequest (result : CResult) (method : UInt32) (url : Bytes) (version : UInt32)
    (header : HeaderMap) : CResult :=
  { result with method := method, url := url, version := version, requestHeader := header }

/-- The result with the fields of a response. -/
def CResult.setResponse (result : CResult) (code : UInt32) (note : Bytes) (header : HeaderMap) :
    CResult :=
  { result with retCode := code, retNote := note, responseHeader := header }

section Parser

variable {B : Boost} {und : UInt32} {bs : Bytes} {result : CResult} {m : Mem}

/-- A request of the language passes and sets its fields. -/
theorem RequestText.parses {method ver : UInt32} {url : Bytes} {header : HeaderMap}
    (h : RequestText B und bs method url ver header) (hclean : result.Clean) (hm : m.Holds 0 bs) :
    (parseRequest B und m bs.length result).ok = true ∧
      (parseRequest B und m bs.length result).out = result.setRequest method url ver header := by
  cases h with
  | short hshort =>
    unfold parseRequest
    rw [if_neg (not_lt.mpr hshort), CResult.setRequest, ← hclean.method, ← hclean.url,
      ← hclean.version, ← hclean.requestHeader]
    exact ⟨rfl, rfl⟩
  | long hlong hsmall hline hlines hblank =>
    obtain ⟨pos, evals, -, hparse⟩ := parseRequest_block und ⟨hm, by omega, hsmall⟩ hlong hline
      hlines hblank result
    rw [hparse]
    refine ⟨rfl, ?_⟩
    simp only [requestResult, CResult.setRequest, hclean.url, hclean.requestHeader,
      List.nil_append]

/-- A response of the language does, after a request of its version. -/
theorem ResponseText.parses {code : UInt32} {note : Bytes} {header : HeaderMap}
    (h : ResponseText B result.version bs code note header) (hcode : result.retCode = 0)
    (hnote : result.retNote = []) (hheader : result.responseHeader = ∅) (hm : m.Holds 0 bs) :
    (parseResponse B m bs.length result).ok = true ∧
      (parseResponse B m bs.length result).out = result.setResponse code note header := by
  cases h with
  | short hshort =>
    unfold parseResponse
    rw [if_neg (not_lt.mpr hshort), CResult.setResponse, ← hcode, ← hnote, ← hheader]
    exact ⟨rfl, rfl⟩
  | long hlong hsmall hstart hreason hlines hblank =>
    obtain ⟨pos, evals, -, hparse⟩ := parseResponse_block ⟨hm, by omega, hsmall⟩ hlong hstart
      hreason hlines hblank
    rw [hparse]
    refine ⟨rfl, ?_⟩
    simp only [responseResult, CResult.setResponse, hnote, hheader, List.nil_append]

/-- A request that passes, whatever lies behind it, is in the language. -/
theorem PassingRequest.text {v : UInt32} (h : PassingRequest B verUnknown bs v) (und : UInt32) :
    ∃ method url header, RequestText B und bs method url v header := by
  rcases h with ⟨hshort, rfl⟩ | ⟨hlong, hsmall, method, url, rest, hline, hs, body, hlines, hblank⟩
  · exact ⟨_, _, _, .short hshort⟩
  · exact ⟨_, _, _, .long hlong hsmall hline hlines hblank⟩

/-- So is a response. -/
theorem PassingResponse.text {v : UInt32} (h : PassingResponse B v bs) :
    ∃ code note header, ResponseText B v bs code note header := by
  rcases h with hshort | ⟨hlong, hsmall, num, tail, reason, rest, hstart, hreason, hs, body,
    hlines, hblank⟩
  · exact ⟨_, _, _, .short hshort⟩
  · exact ⟨_, _, _, .long hlong hsmall hstart hreason hlines hblank⟩

variable {e : ParseEnv} {s : CSession} {r : Record}

/-- **What can be derived is sent.** -/
theorem Derives.sent (h : Derives B e.method s r) (hs : s.WF) (hclean : s.Clean) :
    (parse B e s).2 = some r := by
  obtain ⟨hreq, hrsp⟩ := h.contexts
  have hboth := h.both
  rw [hreq, hrsp] at hboth
  obtain ⟨m, n, hm, hn, -, -, hsent, -⟩ :=
    parse_shown (B := B) (e := e) (s := s) hs.req.shows hs.rsp.shows hboth.1 hboth.2
  obtain ⟨hok, hout⟩ := (hreq ▸ h.request).parses hclean hm
  have hresponse : ResponseText B
      (s.result.setRequest r.method r.url r.version r.requestHeader).version s.rspBuf.contents
      r.retCode r.retNote r.responseHeader := hrsp ▸ h.response
  obtain ⟨hok', hout'⟩ := hresponse.parses hclean.retCode hclean.retNote hclean.responseHeader hn
  simp only [hok, hout, hok', hout', Bool.and_self, if_true] at hsent
  obtain ⟨hclient, hserver⟩ := h.ends
  refine hsent.trans (congrArg some ?_)
  show (⟨s.client, s.server, r.method, r.version, r.retCode, r.retNote, r.url, r.requestHeader,
    s.reqBuf.contents, r.responseHeader, s.rspBuf.contents⟩ : Record) = r
  rw [← hclient, ← hserver, ← hreq, ← hrsp]

/-- **What is sent can be derived**, unless a message is cut off. -/
theorem derives_of_sent (hs : s.WF) (hclean : s.Clean)
    (hwhole : ¬ Exposed B verUnknown s.reqBuf.contents s.rspBuf.contents)
    (h : (parse B e s).2 = some r) : Derives B e.method s r := by
  have hne : s.reqBuf.contents ≠ [] ∧ s.rspBuf.contents ≠ [] := by
    obtain ⟨hreq, hrsp⟩ := len_of_sent (h ▸ Option.some_ne_none r)
    exact ⟨hs.req.len_eq_zero_iff.not.mp hreq, hs.rsp.len_eq_zero_iff.not.mp hrsp⟩
  have hreqLt : s.reqBuf.contents.length < 2 ^ 32 := by
    rw [hs.req.contents_length]
    exact hs.req.len_lt
  have hrspLt : s.rspBuf.contents.length < 2 ^ 32 := by
    rw [hs.rsp.contents_length]
    exact hs.rsp.len_lt
  obtain ⟨m, n, hm, hn, -, -, hsent, -⟩ :=
    parse_shown (B := B) (e := e) (s := s) hs.req.shows hs.rsp.shows hne.1 hne.2
  rw [show (parse B e (s.withBufs s.reqBuf s.rspBuf)).2 = some r from h] at hsent
  have hversion : s.result.version = verUnknown := hclean.version
  rw [← hversion] at hwhole
  -- the request passes, is cut off or is refused
  rcases request_cases (B := B) hreqLt e.method s.result with ⟨v, hpass⟩ | ⟨v, hcut⟩ | hrefused
  · obtain ⟨method, url, header, hreq⟩ := (hversion ▸ hpass).text e.method
    obtain ⟨hok, hout⟩ := hreq.parses hclean hm
    simp only [hok, hout, Bool.true_and] at hsent
    rcases response_cases (B := B) hrspLt (s.result.setRequest method url v header) with
      hpass' | hcut' | hrefused'
    · obtain ⟨code, note, header', hrsp⟩ := hpass'.text
      obtain ⟨hok', hout'⟩ := hrsp.parses hclean.retCode hclean.retNote hclean.responseHeader hn
      simp only [hok', hout', if_true] at hsent
      obtain rfl := Option.some.inj hsent
      exact ⟨⟨rfl, rfl⟩, ⟨rfl, rfl⟩, hne, hreq, hrsp⟩
    · exact absurd ⟨hne.1, hne.2, Or.inr ⟨v, hpass, hcut'⟩⟩ hwhole
    · rw [(hrefused' n hn).1] at hsent
      cases hsent
  · obtain ⟨out, hout, hq⟩ := hcut.result e.method s.result
    rw [(hq m hm).2.1] at hsent
    rcases response_cases (B := B) hrspLt out with hpass' | hcut' | hrefused'
    · exact absurd ⟨hne.1, hne.2, Or.inl ⟨v, hcut, Or.inl (hout ▸ hpass')⟩⟩ hwhole
    · exact absurd ⟨hne.1, hne.2, Or.inl ⟨v, hcut, Or.inr (hout ▸ hcut')⟩⟩ hwhole
    · rw [(hrefused' n hn).1, Bool.and_false] at hsent
      cases hsent
  · rw [(hrefused m hm).1, Bool.false_and] at hsent
    cases hsent

end Parser

/-! ## Runs -/

section Runs

variable {B : Boost}

/-- What serving a packet hands to `Parse` has well-formed buffers. -/
theorem serve_calls_wf {x : Call} {info : CSharedBehaviorInfo} {s : CSession} (h : s.WF) :
    ∀ k ∈ (serve B x info s).2, k.1.WF := by
  rcases served_cases x.packet s with hclose | ⟨hopen, hdrop⟩ | ⟨hopen, hdata, hnew⟩
  · intro k hk
    rw [serve_closing hclose] at hk
    exact List.mem_singleton.mp hk ▸ h
  · intro k hk
    rw [serve_left hopen hdrop] at hk
    exact absurd hk List.not_mem_nil
  · intro k hk
    rw [serve_filed hopen hdata hnew] at hk
    simp only [processData] at hk
    split_ifs at hk
    · exact absurd hk List.not_mem_nil
    · rw [(parseFull_conn B _ _).2 k hk]
      exact h.setSeq _ _
    · exact absurd hk List.not_mem_nil
    · exact absurd hk List.not_mem_nil

/-- The sweep hands a session to `Parse` as it is. -/
theorem mem_sweepConn {e : Env} {reach : Nat} {o : Option CSession}
    {k : CSession × Option Record} (hk : k ∈ (sweepConn B e reach o).2) : k.1 ∈ o := by
  cases o with
  | none => exact absurd hk List.not_mem_nil
  | some s =>
    unfold sweepConn at hk
    by_cases hin : (hashConn s.conn).toNat < reach
    · simp only [if_pos hin] at hk
      cases hparses : sweepParses e.timeCheck s with
      | true =>
        rw [hparses, if_pos rfl] at hk
        rw [List.mem_singleton.mp hk]
        rfl
      | false =>
        rw [hparses] at hk
        cases hk
    · simp only [if_neg hin] at hk
      cases hk

/-- So does what a step of the connection hands to it. -/
theorem connStep_calls_wf {last : Int} {c : Conn} {x : Call} (he : x.env.Granted)
    {o : Option CSession} (h : ∀ s ∈ o, s.WF) : ∀ k ∈ (connStep B last c o x).2, k.1.WF := by
  have hsweep := sweepConn_flow B he (sweepReach last x.env) h
  intro k hk
  unfold connStep at hk
  cases hinfo : x.info with
  | none =>
    simp only [hinfo] at hk
    exact h _ (mem_sweepConn hk)
  | some info =>
    simp only [hinfo] at hk
    split_ifs at hk
    · rcases List.mem_append.mp hk with hk | hk
      · exact h _ (mem_sweepConn hk)
      · exact serve_calls_wf (opened_flow he info hsweep.wf).2 k hk
    · exact h _ (mem_sweepConn hk)

/-- **Every call of `Parse` in a run works on well-formed buffers**, as long as the allocator
answers and the bytes of a connection can be counted. -/
theorem calls_wf {ses : Nat → CSession} {now : Int} {xs : List Call}
    (hgrant : ∀ x ∈ xs, x.env.Granted) (hsmall : ∀ c, payloadBytes (ofConn c xs) < 2 ^ 32) :
    ∀ k ∈ ((handleMachine B).run (init ses now) xs).2, k.ses.WF := by
  intro k hk
  obtain ⟨pre, x, post, rfl, hstep⟩ := (handleMachine B).mem_run hk
  have hpre : payloadBytes (ofConn k.ses.conn pre) < 2 ^ 32 :=
    (payloadBytes_le ((List.sublist_append_left pre (x :: post)).filter _)).trans_lt
      (hsmall k.ses.conn)
  have hwf := (init_timed (B := B) ses now
    (fun y hy => hgrant y (List.mem_append_left _ hy)) hpre).wf
  have hw : ((handleMachine B).run (init ses now) pre).1.sesHash.WF :=
    Reachable.wf ⟨ses, now, pre, rfl⟩
  obtain ⟨-, -, hconn⟩ := process_conn B hw x
  have hcall := List.mem_filterMap.mpr ⟨k, hstep, show obsConn k.ses.conn k = _ from if_pos rfl⟩
  rw [show ((handleMachine B).step _ x).2.filterMap _ = _ from (hconn k.ses.conn).2] at hcall
  exact connStep_calls_wf (hgrant x (by simp)) hwf _ hcall

/-- Messages that are sent though no LF lies behind them are not cut off. -/
theorem not_exposed_of_sent {B : Boost} {e : ParseEnv} {s : CSession} {req rsp : Bytes}
    (h : (parse B e (s.withBufs (bufBehind req 0) (bufBehind rsp 0))).2.isSome = true) :
    ¬ Exposed B s.result.version req rsp := by
  rintro ⟨hreq, hrsp, hexposed⟩
  obtain ⟨m, n, hm, hn, hx, hy, hsent, -⟩ :=
    parse_bufBehind (B := B) (e := e) (s := s) hreq hrsp 0 0
  rw [h] at hsent
  obtain ⟨hok, hok'⟩ := (Bool.and_eq_true _ _).mp hsent.symm
  rcases hexposed with ⟨v, hcut, -⟩ | ⟨v, hpass, hcut⟩
  · obtain ⟨out, -, hq⟩ := hcut.result e.method s.result
    rw [(hq m hm).1, hx] at hok
    exact absurd hok (by decide)
  · obtain ⟨out, rfl, hq⟩ := hpass.result e.method
    rw [(hq m hm).2.1, (hcut.result hn).2 (by rw [hy]; decide)] at hok'
    exact absurd hok' (by decide)

/-- **In every run the records are the derivations.**  A call of `Parse`, from `Process` or from
the sweep, sends whatever record can be derived from the bytes in the two buffers; and unless one
of the messages is cut off inside a CR LF, what it sends can be derived. -/
theorem sent_iff_derives (B : Boost) {ses : Nat → CSession} {now : Int} {xs : List Call}
    (hgrant : ∀ x ∈ xs, x.env.Granted) (hsmall : ∀ c, payloadBytes (ofConn c xs) < 2 ^ 32) :
    ∀ k ∈ ((handleMachine B).run (init ses now) xs).2, ∃ und,
      (∀ r, Derives B und k.ses r → k.sent = some r) ∧
        (¬ Exposed B verUnknown k.ses.reqBuf.contents k.ses.rspBuf.contents →
          ∀ r, k.sent = some r → Derives B und k.ses r) := by
  intro k hk
  have hs := calls_wf hgrant hsmall k hk
  obtain ⟨hclean, e, hsent⟩ := cleanCall_run B ses now xs hk
  have hsent' : k.sent = (parse B e k.ses).2 := hsent
  exact ⟨e.method, fun r hr => hsent'.trans (hr.sent hs hclean),
    fun hwhole r hr => derives_of_sent hs hclean hwhole (hsent'.symm.trans hr)⟩

/-- A request with a header and a body. -/
def headedRequest : Bytes :=
  ascii ['P', 'O', 'S', 'T', ' ', '/', ' ', 'H', 'T', 'T', 'P', '/', '1', '.', '1', '\n',
    'a', ':', 'b', '\n', '\n', 'x']

/-- A response with a header and a body. -/
def headedResponse : Bytes :=
  ascii ['H', 'T', 'T', 'P', '/', '1', '.', '1', ' ', '2', '0', '0', ' ', 'O', 'K', '\r', '\n',
    'c', ':', 'd', '\n', '\n', 'y', 'z']

/-- The two messages in one segment each, and the FIN. -/
def headedRun : List Call :=
  [arrival ⟨1, 1000⟩ ⟨2, 80⟩ 6 headedRequest false, arrival ⟨2, 80⟩ ⟨1, 1000⟩ 9 headedResponse false,
    sampleFin].map Arrival.call

/-- A record is sent for the two messages, and it is their derivation. -/
theorem sent_iff_derives_headed : ∃ k ∈ ((handleMachine Boost.decimal).run (init blankSes 0)
      headedRun).2, ∃ und r, k.sent = some r ∧ Derives Boost.decimal und k.ses r ∧
        r.requestContext = headedRequest ∧ r.responseContext = headedResponse := by
  have hcount : payloadBytes headedRun < 2 ^ 32 := by
    decide +kernel
  have hgrant : ∀ x ∈ headedRun, x.env.Granted := by
    simp [headedRun, sampleFin, arrival, Arrival.call, Env.granted_granting]
  have hcalls : (((handleMachine Boost.decimal).run (init blankSes 0) headedRun).2.any fun k =>
        k.sent.isSome && decide (k.ses.reqBuf.contents = headedRequest ∧
          k.ses.rspBuf.contents = headedResponse)) = true := by
    decide +kernel
  obtain ⟨k, hk, hsends⟩ := List.any_eq_true.mp hcalls
  obtain ⟨hsome, hcontents⟩ := Bool.and_eq_true_iff.mp hsends
  obtain ⟨hreq, hrsp⟩ := of_decide_eq_true hcontents
  obtain ⟨r, hr⟩ := Option.isSome_iff_exists.mp hsome
  obtain ⟨und, -, hderives⟩ := sent_iff_derives Boost.decimal hgrant
    (fun c => (payloadBytes_le List.filter_sublist).trans_lt hcount) k hk
  have hwhole : ¬ Exposed Boost.decimal verUnknown headedRequest headedResponse :=
    not_exposed_of_sent (e := ⟨0, SesAlloc.granting⟩)
      (s := { blankSes 0 with result := CResult.reset }) (by decide +kernel)
  rw [hreq, hrsp] at hderives
  have hder := hderives hwhole r hr
  exact ⟨k, hk, und, r, hr, hder, hder.contexts.1.trans hreq, hder.contexts.2.trans hrsp⟩

end Runs

/-! ## Bodies -/

/-- **What follows the heads is printed and changes nothing else.**  When `Parse` sends a record
for two messages that are not cut off, then for every session with the same ends that holds these
messages with any bytes behind them (a message of up to ten bytes, which is not looked at, staying
as it is) it sends that record with the longer messages. -/
theorem longer_bodies {B : Boost} {e e' : ParseEnv} {s s' : CSession} {r : Record} {x y : Bytes}
    (hs : s.WF) (hclean : s.Clean) (hs' : s'.WF) (hclean' : s'.Clean)
    (hmethod : e'.method = e.method)
    (hends : s'.client = s.client ∧ s'.server = s.server)
    (hreq : s'.reqBuf.contents = s.reqBuf.contents ++ x)
    (hrsp : s'.rspBuf.contents = s.rspBuf.contents ++ y)
    (hlong : x = [] ∨ 10 < s.reqBuf.contents.length)
    (hlong' : y = [] ∨ 10 < s.rspBuf.contents.length)
    (hsmall : s'.reqBuf.contents.length < 2 ^ 31 ∧ s'.rspBuf.contents.length < 2 ^ 31)
    (hwhole : ¬ Exposed B verUnknown s.reqBuf.contents s.rspBuf.contents)
    (hsent : (parse B e s).2 = some r) :
    (parse B e' s').2 = some { r with
      requestContext := r.requestContext ++ x
      responseContext := r.responseContext ++ y } := by
  have hder := derives_of_sent hs hclean hwhole hsent
  obtain ⟨hclient, hserver⟩ := hder.ends
  obtain ⟨hreq₀, hrsp₀⟩ := hder.contexts
  rw [← hreq₀] at hreq hlong
  rw [← hrsp₀] at hrsp hlong'
  rw [hreq, hrsp] at hsmall
  refine Derives.sent ?_ hs' hclean'
  refine ⟨⟨hclient.trans hends.1.symm, hserver.trans hends.2.symm⟩, ⟨hreq.symm, hrsp.symm⟩,
    ⟨List.append_ne_nil_of_left_ne_nil hder.both.1 x,
      List.append_ne_nil_of_left_ne_nil hder.both.2 y⟩, ?_, ?_⟩
  · rw [hmethod]
    rcases hlong with rfl | hlong
    · exact (List.append_nil r.requestContext).symm ▸ hder.request
    · exact hder.request.append hlong hsmall.1
  · rcases hlong' with rfl | hlong'
    · exact (List.append_nil r.responseContext).symm ▸ hder.response
    · exact hder.response.append hlong' hsmall.2

/-- The request of which `cutRequest` is cut off. -/
def wholeRequest : Bytes := cutRequest ++ [lf]

/-- A session that holds the two messages with bodies. -/
def bodySession (x y : Bytes) : CSession :=
  freshSession.withBufs (bufBehind (wholeRequest ++ x) 0) (bufBehind (wholeResponse ++ y) 0)

theorem longer_bodies_sample : ∃ r,
    (parse Boost.decimal ⟨0, SesAlloc.granting⟩ (bodySession [] [])).2 = some r ∧
      (parse Boost.decimal ⟨0, SesAlloc.granting⟩ (bodySession [71] [72])).2 = some { r with
        requestContext := r.requestContext ++ [71]
        responseContext := r.responseContext ++ [72] } := by
  have hsends :
      (parse Boost.decimal ⟨0, SesAlloc.granting⟩ (bodySession [] [])).2.isSome = true := by
    decide +kernel
  obtain ⟨r, hr⟩ := Option.isSome_iff_exists.mp hsends
  have hwf : ∀ x y : Bytes, x.length ≤ 1 → y.length ≤ 1 → (bodySession x y).WF := by
    intro x y hx hy
    have hreq : wholeRequest.length < 100 := by decide
    have hrsp : wholeResponse.length < 100 := by decide
    refine ⟨wf_bufBehind ?_ 0, wf_bufBehind ?_ 0⟩ <;> rw [List.length_append] <;> omega
  refine ⟨r, hr, longer_bodies (hwf [] [] (by decide) (by decide)) CResult.clean_reset
    (hwf [71] [72] (by decide) (by decide)) CResult.clean_reset rfl ⟨rfl, rfl⟩ ?_ ?_ ?_ ?_ ?_ ?_ hr⟩
  · exact (contents_bufBehind _ _).trans
      (congrArg (· ++ [71]) ((contents_bufBehind _ _).trans (List.append_nil _)).symm)
  · exact (contents_bufBehind _ _).trans
      (congrArg (· ++ [72]) ((contents_bufBehind _ _).trans (List.append_nil _)).symm)
  · exact Or.inr (by decide +kernel)
  · exact Or.inr (by decide +kernel)
  · decide +kernel
  · have hreq : (bodySession [] []).reqBuf.contents = wholeRequest ++ [] := contents_bufBehind _ _
    have hrsp : (bodySession [] []).rspBuf.contents = wholeResponse ++ [] := contents_bufBehind _ _
    rw [hreq, hrsp]
    exact not_exposed_of_sent hsends

end HttpDecoder
