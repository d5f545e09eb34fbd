import HttpDecoder.Messages
import HttpDecoder.RoundTrip

/-!
# What lies behind the buffered bytes

`strncmp` with a two-byte tag looks one byte past the last index of a buffer that ends in
a CR.  That byte is left over from whatever the block held before.

* `PassingRequest`, `CutRequest`, `PassingResponse`, `CutResponse` — messages that pass,
  and messages cut off where the byte behind them decides.
* `cursors` — the cursor at each evaluation of `len-pos` during `Parse`.
* `BytesOnly` — `Parse` depends on the buffered bytes only and stays inside them.
* `bytesOnly_iff` — **when it does**.
-/

namespace HttpDecoder

open CLib

/-! ## Messages that are cut off -/

/-- The request passes, the version being `v` afterwards: it is too short to be parsed, or
a request line and a header block with its empty line. -/
def PassingRequest (B : Boost) (v₀ : UInt32) (bs : Bytes) (v : UInt32) : Prop :=
  (bs.length ≤ 10 ∧ v = v₀) ∨
    (10 < bs.length ∧ bs.length < 2 ^ 31 ∧
      ∃ method url rest, RequestLine B bs method url v rest ∧ HeaderBlock rest)

/-- The request is cut off inside the CR LF of its empty line. -/
def CutRequest (B : Boost) (bs : Bytes) (v : UInt32) : Prop :=
  10 < bs.length ∧ bs.length < 2 ^ 31 ∧
    ∃ method url rest, RequestLine B bs method url v rest ∧ HeaderCut rest

/-- The response passes for a request of version `v`. -/
def PassingResponse (B : Boost) (v : UInt32) (bs : Bytes) : Prop :=
  bs.length ≤ 10 ∨
    (10 < bs.length ∧ bs.length < 2 ^ 31 ∧ ∃ num tail reason rest,
      StatusStart B v bs num tail ∧ Reason tail reason rest ∧ HeaderBlock rest)

/-- The response is cut off inside the CR LF of its empty line or of its first line. -/
def CutResponse (B : Boost) (v : UInt32) (bs : Bytes) : Prop :=
  10 < bs.length ∧ bs.length < 2 ^ 31 ∧ ∃ num tail, StatusStart B v bs num tail ∧
    ((∃ reason rest, Reason tail reason rest ∧ HeaderCut rest) ∨ ∃ reason, ReasonCut tail reason)

/-- The byte behind a buffer decides what `Parse` does: one message is cut off, and the
other does not settle the matter before. -/
def Exposed (B : Boost) (v₀ : UInt32) (req rsp : Bytes) : Prop :=
  req ≠ [] ∧ rsp ≠ [] ∧
    ((∃ v, CutRequest B req v ∧ (PassingResponse B v rsp ∨ CutResponse B v rsp)) ∨
      ∃ v, PassingRequest B v₀ req v ∧ CutResponse B v rsp)

/-! ## What the blocks of `Parse` do with them -/

section Blocks

variable {B : Boost} {bs : Bytes} {v v₀ : UInt32}

/-- Messages from `2 ^ 31` bytes on are refused: the length is negative as an `int`. -/
theorem getBufAt_long {m : Mem} {len : Nat} (h : 2 ^ 31 ≤ len) (hlt : len < 2 ^ 32)
    (tag out : Bytes) :
    getBufAt m len 0 tag out = none := by
  unfold getBufAt getBufByTag
  rw [sub32_of_le (Nat.zero_le _) hlt, Nat.sub_zero, toInt32_toNat_of_le h hlt]
  rfl

/-- A request that passes does so over any memory, with one result. -/
theorem PassingRequest.result {result : CResult} (h : PassingRequest B result.version bs v)
    (und : UInt32) : ∃ out : CResult, out.version = v ∧ ∀ m : Mem, m.Holds 0 bs →
      (parseRequest B und m bs.length result).ok = true ∧
        (parseRequest B und m bs.length result).out = out ∧
        Inside bs.length (parseRequest B und m bs.length result).evals := by
  rcases h with ⟨hshort, rfl⟩ | ⟨hlong, hsmall, method, url, rest, hline, hs, tail, hlines, hblank⟩
  · refine ⟨result, rfl, fun m _ => ?_⟩
    unfold parseRequest
    rw [if_neg (by omega)]
    exact ⟨rfl, rfl, inside_nil _⟩
  · refine ⟨requestResult und result method url v hs, rfl, fun m hm => ?_⟩
    obtain ⟨pos, evals, hevals, hparse⟩ := parseRequest_block und
      ⟨hm, by omega, hsmall⟩ hlong hline hlines hblank result
    rw [hparse]
    exact ⟨rfl, rfl, hevals⟩

/-- A request that is cut off passes exactly if an LF lies behind it. -/
theorem CutRequest.result (h : CutRequest B bs v) (und : UInt32) (result : CResult) :
    ∃ out : CResult, out.version = v ∧ ∀ m : Mem, m.Holds 0 bs →
      (parseRequest B und m bs.length result).ok = decide (m bs.length = lf) ∧
        (parseRequest B und m bs.length result).out = out ∧
        Inside bs.length (parseRequest B und m bs.length result).evals := by
  obtain ⟨hlong, hsmall, method, url, rest, hline, hs, hlines⟩ := h
  exact ⟨requestResult und result method url v hs, rfl, fun m hm =>
    parseRequest_cut und ⟨hm, by omega, hsmall⟩ hlong hline hlines result⟩

/-- Every other request is refused. -/
theorem request_cases (hlt : bs.length < 2 ^ 32) (und : UInt32) (result : CResult) :
    (∃ v, PassingRequest B result.version bs v) ∨ (∃ v, CutRequest B bs v) ∨
      ∀ m : Mem, m.Holds 0 bs → (parseRequest B und m bs.length result).ok = false ∧
        Inside bs.length (parseRequest B und m bs.length result).evals := by
  by_cases hshort : bs.length ≤ 10
  · exact Or.inl ⟨result.version, Or.inl ⟨hshort, rfl⟩⟩
  have hlong : 10 < bs.length := by omega
  by_cases hsmall : bs.length < 2 ^ 31
  rotate_left
  · refine Or.inr (Or.inr fun m _ => ?_)
    have hline := parseMethodAndUri_noSpace (B := B) und result
      (getBufAt_long (m := m) (by omega) hlt [sp] [])
    unfold parseRequest
    simp only
    rw [if_pos hlong, hline, if_pos (by simp)]
    exact ⟨rfl, by simp⟩
  by_cases hline : ∃ method url ver rest, RequestLine B bs method url ver rest
  · obtain ⟨method, url, ver, rest, hline⟩ := hline
    obtain ⟨hs, tail, hlines, hblank | rfl | hstuck⟩ := exists_headerLines rest
    · exact Or.inl ⟨ver, Or.inr ⟨hlong, hsmall, method, url, rest, hline, hs, tail, hlines, hblank⟩⟩
    · exact Or.inr (Or.inl ⟨ver, hlong, hsmall, method, url, rest, hline, hs, hlines⟩)
    · exact Or.inr (Or.inr fun m hm =>
        parseRequest_stuck und ⟨hm, by omega, hsmall⟩ hlong hline hlines hstuck result)
  · refine Or.inr (Or.inr fun m hm => parseRequest_none und ⟨hm, by omega, hsmall⟩ hlong ?_ result)
    exact fun method url ver rest h => hline ⟨method, url, ver, rest, h⟩

/-- A response that passes does so over any memory, with one result. -/
theorem PassingResponse.result {result : CResult} (h : PassingResponse B result.version bs) :
    ∃ out : CResult, ∀ m : Mem, m.Holds 0 bs →
      (parseResponse B m bs.length result).ok = true ∧
        (parseResponse B m bs.length result).out = out ∧
        Inside bs.length (parseResponse B m bs.length result).evals := by
  rcases h with hshort | ⟨hlong, hsmall, num, tail, reason, rest, hstart, hreason, hs, follow,
    hlines, hblank⟩
  · refine ⟨result, fun m _ => ?_⟩
    unfold parseResponse
    rw [if_neg (by omega)]
    exact ⟨rfl, rfl, inside_nil _⟩
  · refine ⟨responseResult result num reason hs, fun m hm => ?_⟩
    obtain ⟨pos, evals, hevals, hparse⟩ := parseResponse_block
      ⟨hm, by omega, hsmall⟩ hlong hstart hreason hlines hblank
    rw [hparse]
    exact ⟨rfl, rfl, hevals⟩

/-- A response that is cut off is refused unless an LF lies behind it; with the LF it
passes, or the cursor leaves the buffer. -/
theorem CutResponse.result {result : CResult} (h : CutResponse B result.version bs) {m : Mem}
    (hm : m.Holds 0 bs) :
    (m bs.length = lf → (parseResponse B m bs.length result).ok = true ∨
      ¬ Inside bs.length (parseResponse B m bs.length result).evals) ∧
    (m bs.length ≠ lf → (parseResponse B m bs.length result).ok = false) := by
  obtain ⟨hlong, hsmall, num, tail, hstart, hcut⟩ := h
  have hunread : Unread m bs.length 0 bs := ⟨hm, by omega, hsmall⟩
  rcases hcut with ⟨reason, rest, hreason, hs, hlines⟩ | ⟨reason, hreason⟩
  · obtain ⟨hok, -⟩ := parseResponse_cut hunread hlong hstart hreason hlines
    exact ⟨fun hlf => Or.inl (by rw [hok, decide_eq_true hlf]),
      fun hlf => by rw [hok, decide_eq_false hlf]⟩
  · exact ⟨fun hlf => Or.inr (parseResponse_reasonCut_of_eq hunread hlong hstart hreason hlf),
      fun hlf => parseResponse_reasonCut_of_ne hunread hlong hstart hreason hlf⟩

/-- Every other response is refused. -/
theorem response_cases (hlt : bs.length < 2 ^ 32) (result : CResult) :
    PassingResponse B result.version bs ∨ CutResponse B result.version bs ∨
      ∀ m : Mem, m.Holds 0 bs → (parseResponse B m bs.length result).ok = false ∧
        Inside bs.length (parseResponse B m bs.length result).evals := by
  by_cases hshort : bs.length ≤ 10
  · exact Or.inl (Or.inl hshort)
  have hlong : 10 < bs.length := by omega
  by_cases hsmall : bs.length < 2 ^ 31
  rotate_left
  · refine Or.inr (Or.inr fun m _ => ?_)
    have hline := parseRspState_noSpace (B := B) result
      (getBufAt_long (m := m) (by omega) hlt [sp] [])
    exact parseResponse_of_refused hlong (by rw [hline]) (by rw [hline]; simp)
  by_cases hstart : ∃ num tail, StatusStart B result.version bs num tail
  rotate_left
  · refine Or.inr (Or.inr fun m hm => parseResponse_none ⟨hm, by omega, hsmall⟩ hlong ?_)
    exact fun num tail h => hstart ⟨num, tail, h⟩
  obtain ⟨num, tail, hstart⟩ := hstart
  rcases reason_cases tail with ⟨reason, rest, hreason⟩ | ⟨reason, hreason⟩ | ⟨hno, hlast⟩
  · obtain ⟨hs, follow, hlines, hblank | rfl | hstuck⟩ := exists_headerLines rest
    · exact Or.inl (Or.inr ⟨hlong, hsmall, num, tail, reason, rest, hstart, hreason, hs, follow,
        hlines, hblank⟩)
    · exact Or.inr (Or.inl ⟨hlong, hsmall, num, tail, hstart,
        Or.inl ⟨reason, rest, hreason, hs, hlines⟩⟩)
    · exact Or.inr (Or.inr fun m hm =>
        parseResponse_stuck ⟨hm, by omega, hsmall⟩ hlong hstart hreason hlines hstuck)
  · exact Or.inr (Or.inl ⟨hlong, hsmall, num, tail, hstart, Or.inr ⟨reason, hreason⟩⟩)
  · exact Or.inr (Or.inr fun m hm =>
      parseResponse_noReason ⟨hm, by omega, hsmall⟩ hlong hstart hno hlast)

end Blocks

/-! ## `Parse` -/

/-- The cursor and the length of the buffer at each evaluation of `len-pos` during
`Parse`. -/
def cursors (B : Boost) (e : ParseEnv) (s : CSession) : List (Nat × Nat) :=
  match s.reqBuf.buf, s.rspBuf.buf with
  | some reqBuf, some rspBuf =>
    if s.reqBuf.len = 0 ∨ s.rspBuf.len = 0 then []
    else
      let req := parseRequest B e.method reqBuf.byte s.reqBuf.len s.result
      let rsp := parseResponse B rspBuf.byte s.rspBuf.len req.out
      req.evals.map (·, s.reqBuf.len) ++ if req.ok then rsp.evals.map (·, s.rspBuf.len) else []
  | _, _ => []

/-- The session with other buffers. -/
def CSession.withBufs (s : CSession) (req rsp : CBuffer) : CSession :=
  { s with reqBuf := req, rspBuf := rsp }

/-- Over all well-formed buffers with the contents `req` and `rsp`, whatever lies behind
them, `Parse` makes one decision, sends one record and keeps the cursor inside. -/
structure BytesOnly (B : Boost) (e : ParseEnv) (s : CSession) (req rsp : Bytes) : Prop where
  /-- Two runs send the same. -/
  sent : ∀ b c b' c' : CBuffer, b.WF → c.WF → b'.WF → c'.WF → b.contents = req →
    c.contents = rsp → b'.contents = req → c'.contents = rsp →
    (parse B e (s.withBufs b c)).2 = (parse B e (s.withBufs b' c')).2
  /-- They leave the same result. -/
  result : ∀ b c b' c' : CBuffer, b.WF → c.WF → b'.WF → c'.WF → b.contents = req →
    c.contents = rsp → b'.contents = req → c'.contents = rsp →
    (parse B e (s.withBufs b c)).1.result = (parse B e (s.withBufs b' c')).1.result
  /-- The cursor is inside. -/
  inside : ∀ b c : CBuffer, b.WF → c.WF → b.contents = req → c.contents = rsp →
    ∀ k ∈ cursors B e (s.withBufs b c), k.1 ≤ k.2

section Parse

variable {B : Boost} {e : ParseEnv} {s : CSession} {req rsp : Bytes}

/-- Two messages over given memories: what is sent, and where the cursor was. -/
theorem parse_shown {b c : CBuffer} (hb : b.Shows req) (hc : c.Shows rsp) (hreq : req ≠ [])
    (hrsp : rsp ≠ []) : ∃ m n : Mem, m.Holds 0 req ∧ n.Holds 0 rsp ∧
      (b.buf.map fun blk => blk.byte) = some m ∧ (c.buf.map fun blk => blk.byte) = some n ∧
      let q := parseRequest B e.method m req.length s.result
      let r := parseResponse B n rsp.length q.out
      (parse B e (s.withBufs b c)).2 =
          (if q.ok && r.ok then
            some { send { s with result := r.out } with
              requestContext := req, responseContext := rsp }
          else none) ∧
        ((∀ k ∈ cursors B e (s.withBufs b c), k.1 ≤ k.2) ↔
          Inside req.length q.evals ∧ (q.ok = true → Inside rsp.length r.evals)) := by
  obtain ⟨reqBlk, hreqBuf, hreqHolds⟩ := hb.block
  obtain ⟨rspBlk, hrspBuf, hrspHolds⟩ := hc.block
  have hreqLen : b.len ≠ 0 := by rw [hb.len]; simpa using hreq
  have hrspLen : c.len ≠ 0 := by rw [hc.len]; simpa using hrsp
  refine ⟨reqBlk.byte, rspBlk.byte, hreqHolds, hrspHolds, by rw [hreqBuf]; rfl,
    by rw [hrspBuf]; rfl, ?_, ?_⟩
  · have hsnd := parse_snd (B := B) (e := e) (s := s.withBufs b c) hreqBuf hrspBuf hreqLen hrspLen
    rw [hsnd]
    have hreqLen' : (s.withBufs b c).reqBuf.len = req.length := hb.len
    have hrspLen' : (s.withBufs b c).rspBuf.len = rsp.length := hc.len
    rw [hreqLen', hrspLen', ← hb.contents_eq, ← hc.contents_eq]
    rfl
  · have hcursors : cursors B e (s.withBufs b c) =
        let q := parseRequest B e.method reqBlk.byte req.length s.result
        let r := parseResponse B rspBlk.byte rsp.length q.out
        q.evals.map (·, req.length) ++ if q.ok then r.evals.map (·, rsp.length) else [] := by
      unfold cursors CSession.withBufs
      simp only [hreqBuf, hrspBuf, hb.len, hc.len]
      rw [if_neg (by simp [hreq, hrsp])]
    rw [hcursors]
    simp only [List.forall_mem_append, List.forall_mem_map]
    refine and_congr Iff.rfl ?_
    cases (parseRequest B e.method reqBlk.byte req.length s.result).ok with
    | false => simp
    | true => simp [Inside]

/-- Without a request or a response nothing is evaluated and nothing is sent. -/
theorem parse_nothing {b c : CBuffer} (hb : b.Shows req) (hc : c.Shows rsp)
    (h : req = [] ∨ rsp = []) :
    (parse B e (s.withBufs b c)).2 = none ∧ cursors B e (s.withBufs b c) = [] := by
  obtain ⟨reqBlk, hreqBuf, -⟩ := hb.block
  obtain ⟨rspBlk, hrspBuf, -⟩ := hc.block
  have hzero : b.len = 0 ∨ c.len = 0 := by
    rw [hb.len, hc.len, List.length_eq_zero_iff, List.length_eq_zero_iff]
    exact h
  constructor
  · unfold parse CSession.withBufs
    simp only [hreqBuf, hrspBuf]
    rw [if_pos hzero]
  · unfold cursors CSession.withBufs
    simp only [hreqBuf, hrspBuf]
    rw [if_pos hzero]

/-- **Messages that are not exposed settle what `Parse` does.** -/
theorem settled_of_not_exposed (hreq : req.length < 2 ^ 32) (hrsp : rsp.length < 2 ^ 32)
    (h : ¬ Exposed B s.result.version req rsp) : ∃ r : Option Record, ∀ b c : CBuffer,
      b.Shows req → c.Shows rsp → (parse B e (s.withBufs b c)).2 = r ∧
        ∀ k ∈ cursors B e (s.withBufs b c), k.1 ≤ k.2 := by
  by_cases hempty : req = [] ∨ rsp = []
  · refine ⟨none, fun b c hb hc => ?_⟩
    obtain ⟨hsent, hcursors⟩ := parse_nothing (B := B) (e := e) (s := s) hb hc hempty
    exact ⟨hsent, by simp [hcursors]⟩
  obtain ⟨hne, hne'⟩ := not_or.mp hempty
  rcases request_cases (B := B) hreq e.method s.result with ⟨v, hpass⟩ | ⟨v, hcut⟩ | hrefused
  · obtain ⟨out, hversion, hq⟩ := hpass.result e.method
    rcases response_cases (B := B) hrsp out with hpass' | hcut' | hrefused'
    · obtain ⟨out', hr⟩ := hpass'.result
      refine ⟨some { send { s with result := out' } with
        requestContext := req, responseContext := rsp }, fun b c hb hc => ?_⟩
      obtain ⟨m, n, hm, hn, -, -, hsent, hcursors⟩ :=
        parse_shown (B := B) (e := e) (s := s) hb hc hne hne'
      obtain ⟨hok, hout, hinside⟩ := hq m hm
      obtain ⟨hok', hout', hinside'⟩ := hr n hn
      rw [hcursors, hsent, hout, hout', hok, hok']
      exact ⟨rfl, hinside, fun _ => hinside'⟩
    · rw [hversion] at hcut'
      exact absurd ⟨hne, hne', Or.inr ⟨v, hpass, hcut'⟩⟩ h
    · refine ⟨none, fun b c hb hc => ?_⟩
      obtain ⟨m, n, hm, hn, -, -, hsent, hcursors⟩ :=
        parse_shown (B := B) (e := e) (s := s) hb hc hne hne'
      obtain ⟨hok, hout, hinside⟩ := hq m hm
      obtain ⟨hok', hinside'⟩ := hrefused' n hn
      rw [hcursors, hsent, hout, hok']
      exact ⟨by simp, hinside, fun _ => hinside'⟩
  · obtain ⟨out, hversion, hq⟩ := hcut.result e.method s.result
    rcases response_cases (B := B) hrsp out with hpass' | hcut' | hrefused'
    · rw [hversion] at hpass'
      exact absurd ⟨hne, hne', Or.inl ⟨v, hcut, Or.inl hpass'⟩⟩ h
    · rw [hversion] at hcut'
      exact absurd ⟨hne, hne', Or.inl ⟨v, hcut, Or.inr hcut'⟩⟩ h
    · refine ⟨none, fun b c hb hc => ?_⟩
      obtain ⟨m, n, hm, hn, -, -, hsent, hcursors⟩ :=
        parse_shown (B := B) (e := e) (s := s) hb hc hne hne'
      obtain ⟨-, hout, hinside⟩ := hq m hm
      obtain ⟨hok', hinside'⟩ := hrefused' n hn
      rw [hcursors, hsent, hout, hok']
      exact ⟨by simp, hinside, fun _ => hinside'⟩
  · refine ⟨none, fun b c hb hc => ?_⟩
    obtain ⟨m, n, hm, hn, -, -, hsent, hcursors⟩ :=
      parse_shown (B := B) (e := e) (s := s) hb hc hne hne'
    obtain ⟨hok, hinside⟩ := hrefused m hm
    rw [hcursors, hsent, hok]
    exact ⟨by simp, hinside, fun htrue => absurd htrue (by simp)⟩

end Parse

/-! ## Two choices of the byte behind -/

/-- A well-formed buffer with the contents `bs` and the byte `x` behind them. -/
def bufBehind (bs : Bytes) (x : UInt8) : CBuffer where
  len := bs.length
  free := bufferSize
  buf := some ⟨bs.length + bufferSize, fun i => bs.getD i x⟩

theorem holds_bufBehind (bs : Bytes) (x : UInt8) :
    Mem.Holds (fun i => bs.getD i x) 0 bs := by
  refine Mem.holds_iff_get.mpr fun i hi => ?_
  show bs.getD (0 + i) x = bs[i]
  rw [Nat.zero_add, List.getD_eq_getElem _ _ hi]

theorem wf_bufBehind {bs : Bytes} (h : bs.length < 2 ^ 31) (x : UInt8) : (bufBehind bs x).WF where
  free_pos := by simp [bufBehind, bufferSize]
  default_le := by simp [bufBehind]
  block := ⟨_, rfl, le_refl _⟩
  len_lt := by
    show bs.length < 2 ^ 32
    omega

theorem contents_bufBehind (bs : Bytes) (x : UInt8) : (bufBehind bs x).contents = bs :=
  holds_bufBehind bs x

section Exposed

variable {B : Boost} {e : ParseEnv} {s : CSession} {req rsp : Bytes}

/-- Two messages with given bytes behind them. -/
theorem parse_bufBehind (hreq : req ≠ []) (hrsp : rsp ≠ []) (x y : UInt8) :
    ∃ m n : Mem, m.Holds 0 req ∧ n.Holds 0 rsp ∧ m req.length = x ∧ n rsp.length = y ∧
      let q := parseRequest B e.method m req.length s.result
      let r := parseResponse B n rsp.length q.out
      ((parse B e (s.withBufs (bufBehind req x) (bufBehind rsp y))).2.isSome = (q.ok && r.ok)) ∧
        ((∀ k ∈ cursors B e (s.withBufs (bufBehind req x) (bufBehind rsp y)), k.1 ≤ k.2) →
          Inside req.length q.evals ∧ (q.ok = true → Inside rsp.length r.evals)) := by
  obtain ⟨m, n, hm, hn, hbm, hcn, hsent, hcursors⟩ :=
    parse_shown (B := B) (e := e) (s := s) (b := bufBehind req x) (c := bufBehind rsp y)
      ⟨rfl, _, rfl, holds_bufBehind req x⟩ ⟨rfl, _, rfl, holds_bufBehind rsp y⟩ hreq hrsp
  refine ⟨m, n, hm, hn, ?_, ?_, ?_, hcursors.mp⟩
  · rw [← Option.some.inj hbm]
    exact List.getD_eq_default _ _ (le_refl _)
  · rw [← Option.some.inj hcn]
    exact List.getD_eq_default _ _ (le_refl _)
  · rw [hsent]
    split
    · rename_i hok
      rw [hok]
      rfl
    · rename_i hok
      rw [Bool.eq_false_iff.mpr hok]
      rfl

/-- A response that passes or is cut off passes with an LF behind it, or the cursor
leaves the buffer. -/
theorem response_lf {result : CResult} {n : Mem}
    (h : PassingResponse B result.version rsp ∨ CutResponse B result.version rsp)
    (hn : n.Holds 0 rsp) (hlf : n rsp.length = lf)
    (hinside : Inside rsp.length (parseResponse B n rsp.length result).evals) :
    (parseResponse B n rsp.length result).ok = true := by
  rcases h with hpass | hcut
  · obtain ⟨out, hr⟩ := hpass.result
    exact (hr n hn).1
  · exact ((hcut.result hn).1 hlf).resolve_right (not_not.mpr hinside)

/-- **Exposed messages do not settle it.** -/
theorem not_bytesOnly_of_exposed (h : Exposed B s.result.version req rsp) :
    ¬ BytesOnly B e s req rsp := by
  intro hbytes
  obtain ⟨hreq, hrsp, hexposed⟩ := h
  rcases hexposed with ⟨v, hcut, hrest⟩ | ⟨v, hpass, hcut⟩
  · -- the byte behind the request decides
    have hreqSmall := hcut.2.1
    have hrspSmall : rsp.length < 2 ^ 31 := by
      rcases hrest with (hshort | hlong) | hlong
      · omega
      · exact hlong.2.1
      · exact hlong.2.1
    obtain ⟨out, rfl, hq⟩ := hcut.result e.method s.result
    obtain ⟨m, n, hm, hn, hx, hy, hsent, hinside⟩ :=
      parse_bufBehind (B := B) (e := e) (s := s) hreq hrsp lf lf
    obtain ⟨m', n', hm', hn', hx', hy', hsent', -⟩ :=
      parse_bufBehind (B := B) (e := e) (s := s) hreq hrsp 0 lf
    obtain ⟨hok, hout, -⟩ := hq m hm
    obtain ⟨hok', -, -⟩ := hq m' hm'
    rw [hx, decide_eq_true rfl] at hok
    rw [hx', decide_eq_false (by decide)] at hok'
    have hins := (hinside (hbytes.inside _ _ (wf_bufBehind hreqSmall lf)
      (wf_bufBehind hrspSmall lf) (contents_bufBehind req lf) (contents_bufBehind rsp lf))).2 hok
    rw [hout] at hsent hins
    rw [hok, response_lf hrest hn hy hins] at hsent
    rw [hok'] at hsent'
    rw [hbytes.sent _ _ _ _ (wf_bufBehind hreqSmall lf) (wf_bufBehind hrspSmall lf)
      (wf_bufBehind hreqSmall 0) (wf_bufBehind hrspSmall lf) (contents_bufBehind req lf)
      (contents_bufBehind rsp lf) (contents_bufBehind req 0) (contents_bufBehind rsp lf),
      hsent'] at hsent
    exact absurd hsent (by simp)
  · -- the byte behind the response decides
    have hrspSmall := hcut.2.1
    have hreqSmall : req.length < 2 ^ 31 := by
      rcases hpass with ⟨hshort, -⟩ | hlong
      · omega
      · exact hlong.2.1
    obtain ⟨out, rfl, hq⟩ := hpass.result e.method
    obtain ⟨m, n, hm, hn, hx, hy, hsent, hinside⟩ :=
      parse_bufBehind (B := B) (e := e) (s := s) hreq hrsp lf lf
    obtain ⟨m', n', hm', hn', hx', hy', hsent', -⟩ :=
      parse_bufBehind (B := B) (e := e) (s := s) hreq hrsp lf 0
    obtain ⟨hok, hout, -⟩ := hq m hm
    obtain ⟨hok', hout', -⟩ := hq m' hm'
    have hins := (hinside (hbytes.inside _ _ (wf_bufBehind hreqSmall lf)
      (wf_bufBehind hrspSmall lf) (contents_bufBehind req lf) (contents_bufBehind rsp lf))).2 hok
    rw [hout] at hsent hins
    rw [hok, response_lf (Or.inr hcut) hn hy hins] at hsent
    rw [hout', (hcut.result hn').2 (by rw [hy']; decide)] at hsent'
    rw [hbytes.sent _ _ _ _ (wf_bufBehind hreqSmall lf) (wf_bufBehind hrspSmall lf)
      (wf_bufBehind hreqSmall lf) (wf_bufBehind hrspSmall 0) (contents_bufBehind req lf)
      (contents_bufBehind rsp lf) (contents_bufBehind req lf) (contents_bufBehind rsp 0),
      hsent'] at hsent
    exact absurd hsent (by simp)

/-- **When `Parse` depends on the buffered bytes only.**  For every request and response:
`Parse` does the same over all bytes behind them, with the cursor inside, exactly if
neither is cut off inside a CR LF where the other message leaves the matter open. -/
theorem bytesOnly_iff (B : Boost) (e : ParseEnv) (s : CSession) (req rsp : Bytes) :
    BytesOnly B e s req rsp ↔ ¬ Exposed B s.result.version req rsp := by
  refine ⟨fun hbytes hexposed => not_bytesOnly_of_exposed hexposed hbytes, fun h => ?_⟩
  have hsettled : ∀ {b c : CBuffer}, b.WF → c.WF → b.contents = req → c.contents = rsp →
      ∃ r : Option Record, ∀ b c : CBuffer, b.Shows req → c.Shows rsp →
        (parse B e (s.withBufs b c)).2 = r ∧ ∀ k ∈ cursors B e (s.withBufs b c), k.1 ≤ k.2 := by
    rintro b c hb hc rfl rfl
    refine settled_of_not_exposed ?_ ?_ h
    · rw [hb.contents_length]
      exact hb.len_lt
    · rw [hc.contents_length]
      exact hc.len_lt
  refine ⟨fun b c b' c' hb hc hb' hc' hbr hcr hbr' hcr' => ?_, fun b c b' c' _ _ _ _ _ _ _ _ => ?_,
    fun b c hb hc hbr hcr => ?_⟩
  · obtain ⟨r, hr⟩ := hsettled hb hc hbr hcr
    exact (hr b c (hbr ▸ hb.shows) (hcr ▸ hc.shows)).1.trans
      (hr b' c' (hbr' ▸ hb'.shows) (hcr' ▸ hc'.shows)).1.symm
  · rw [parse_fst, parse_fst]
    rfl
  · obtain ⟨r, hr⟩ := hsettled hb hc hbr hcr
    exact (hr b c (hbr ▸ hb.shows) (hcr ▸ hc.shows)).2

end Exposed

/-! ## One request that is cut off -/

/-- `GET / HTTP/1.1` and the first half of the empty line. -/
def cutRequest : Bytes :=
  requestHead (ascii ['G', 'E', 'T']) [47] (httpSlash ++ ascii ['1', '.', '1']) [lf] [cr]

/-- `HTTP/1.1 200 OK` and the empty line. -/
def wholeResponse : Bytes :=
  httpSlash ++ ascii ['1', '.', '1', ' ', '2', '0', '0', ' ', 'O', 'K'] ++ crlf ++ crlf

/-- The session they are parsed in. -/
def freshSession : CSession := { blankSes 0 with result := CResult.reset }

/-- Whether `Parse` sends a record when `x` lies behind the request. -/
def sendsBehind (x : UInt8) : Bool :=
  (parse Boost.decimal ⟨0, SesAlloc.granting⟩
    (freshSession.withBufs (bufBehind cutRequest x) (bufBehind wholeResponse 0))).2.isSome

/-- An LF left over behind the request completes it, a zero does not. -/
theorem not_bytesOnly_cutRequest :
    ¬ BytesOnly Boost.decimal ⟨0, SesAlloc.granting⟩ freshSession cutRequest wholeResponse ∧
      sendsBehind lf = true ∧ sendsBehind 0 = false := by
  have hlf : sendsBehind lf = true := by decide +kernel
  have hzero : sendsBehind 0 = false := by decide +kernel
  refine ⟨fun h => ?_, hlf, hzero⟩
  have hreq : cutRequest.length < 2 ^ 31 := by decide
  have hrsp : wholeResponse.length < 2 ^ 31 := by decide
  have hsame := h.sent _ _ _ _ (wf_bufBehind hreq lf) (wf_bufBehind hrsp 0)
    (wf_bufBehind hreq 0) (wf_bufBehind hrsp 0) (contents_bufBehind _ _) (contents_bufBehind _ _)
    (contents_bufBehind _ _) (contents_bufBehind _ _)
  have hsends : sendsBehind lf = sendsBehind 0 := congrArg Option.isSome hsame
  rw [hlf, hzero] at hsends
  exact absurd hsends (by simp)

end HttpDecoder
