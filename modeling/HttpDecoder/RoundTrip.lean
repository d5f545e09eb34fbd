import HttpDecoder.Messages
import HttpDecoder.RequestHead

/-!
# Decoding what was encoded

A whole exchange written out byte by byte and read back by `Parse`.

* `Transaction` — the parts of an exchange; `Transaction.request` and
  `Transaction.response` write them out.
* `headerLines_headerText`, `getElem?_headers` — the header lines are read back, and the
  map they are stored in holds exactly them.
* `parse_roundTrip` — **`Parse` sends exactly the given parts**.
-/

namespace HttpDecoder

open CLib

/-- What is assumed of `lexical_cast<uint32_t>`: a string of digits gives its value. -/
def Boost.CastsDecimals (B : Boost) : Prop :=
  ∀ (s : Bytes) (n : UInt32), decimalValue s = some n.toNat → B.castUInt32 s = some n

/-! ## Header lines -/

/-- `name ':' value LF` for each header. -/
def headerText (hs : List (Bytes × Bytes)) : Bytes :=
  hs.flatMap fun h => h.1 ++ colon :: (h.2 ++ [lf])

/-- A header that can be written on a line. -/
structure PlainHeader (h : Bytes × Bytes) : Prop where
  name_colon : colon ∉ h.1
  name_lf : lf ∉ h.1
  value_lf : lf ∉ h.2

/-- The line of such a header is not an empty line. -/
theorem PlainHeader.notBlank {h : Bytes × Bytes} (hh : PlainHeader h) (rest : Bytes) :
    ¬ Blank (h.1 ++ colon :: rest) := by
  have hcolon : lf ≠ colon ∧ cr ≠ colon := by decide
  obtain ⟨name, value⟩ := h
  have hname : lf ∉ name := hh.name_lf
  cases name with
  | nil =>
    rintro (hblank | hblank)
    · exact hcolon.1 (List.cons_prefix_cons.mp hblank).1
    · exact hcolon.2 (List.cons_prefix_cons.mp hblank).1
  | cons x name =>
    rintro (hblank | hblank)
    · exact hname (List.mem_cons.mpr (Or.inl (List.cons_prefix_cons.mp hblank).1))
    · have hnext := (List.cons_prefix_cons.mp hblank).2
      cases name with
      | nil => exact hcolon.1 (List.cons_prefix_cons.mp hnext).1
      | cons y name => exact hname (by simp [(List.cons_prefix_cons.mp hnext).1])

/-- **The header lines are read back.** -/
theorem headerLines_headerText {hs : List (Bytes × Bytes)} (h : ∀ x ∈ hs, PlainHeader x)
    (rest : Bytes) : HeaderLines hs (headerText hs ++ rest) rest := by
  induction hs with
  | nil => exact .nil rest
  | cons x hs ih =>
    obtain ⟨hx, hhs⟩ := List.forall_mem_cons.mp h
    have hbytes : headerText (x :: hs) ++ rest =
        x.1 ++ colon :: (x.2 ++ lf :: (headerText hs ++ rest)) := by
      simp [headerText]
    refine .cons ⟨hbytes, hx.name_colon, hx.value_lf, ?_⟩ (ih hhs)
    rw [hbytes]
    exact hx.notBlank _

/-- A map filled with headers of distinct names holds exactly them. -/
theorem getElem?_headers {hs : List (Bytes × Bytes)} (h : (hs.map Prod.fst).Nodup)
    (name value : Bytes) :
    ((∅ : HeaderMap).insertMany hs)[name]? = some value ↔ (name, value) ∈ hs := by
  have hdistinct : hs.Pairwise fun a b => ¬ (compare a.1 b.1 = .eq) := by
    refine (List.pairwise_map.mp h).imp fun hne heq => hne ?_
    exact Std.LawfulEqCmp.eq_of_compare heq
  by_cases hmem : ∃ v, (name, v) ∈ hs
  · obtain ⟨v, hv⟩ := hmem
    rw [Std.ExtTreeMap.getElem?_insertMany_list_of_mem (by simp) hdistinct hv, Option.some_inj]
    constructor
    · rintro rfl
      exact hv
    · intro hvalue
      exact (Prod.mk.inj (List.inj_on_of_nodup_map h hv hvalue rfl)).2
  · rw [Std.ExtTreeMap.getElem?_insertMany_list_of_contains_eq_false]
    · simp only [Std.ExtTreeMap.getElem?_empty, reduceCtorEq, false_iff]
      exact fun hvalue => hmem ⟨value, hvalue⟩
    · refine Bool.eq_false_iff.mpr fun hname => ?_
      rw [List.contains_iff_mem] at hname
      obtain ⟨⟨_, v⟩, hv, rfl⟩ := List.mem_map.mp hname
      exact hmem ⟨v, hv⟩

/-! ## The exchange -/

/-- The parts of an exchange. -/
structure Transaction where
  /-- The method with its code. -/
  method : Bytes × UInt32
  url : Bytes
  /-- The version with its code. -/
  version : Bytes × UInt32
  requestHeaders : List (Bytes × Bytes)
  /-- The empty line behind the headers. -/
  requestEnd : Bytes
  requestBody : Bytes
  /-- The digits of the status code. -/
  code : Bytes
  /-- Its value. -/
  num : UInt32
  reason : Bytes
  responseHeaders : List (Bytes × Bytes)
  responseEnd : Bytes
  responseBody : Bytes

namespace Transaction

variable (t : Transaction)

/-- The bytes of the request, its first line ending in LF. -/
def request : Bytes :=
  requestHead t.method.1 t.url t.version.1 [lf]
    (headerText t.requestHeaders ++ (t.requestEnd ++ t.requestBody))

/-- The bytes of the response, its first line ending in CR LF. -/
def response : Bytes :=
  t.version.1 ++ sp :: (t.code ++ sp :: (t.reason ++ cr :: lf ::
    (headerText t.responseHeaders ++ (t.responseEnd ++ t.responseBody))))

/-- The parts can be written out. -/
structure Valid : Prop where
  method : t.method ∈ methodCodes
  url_sp : sp ∉ t.url
  url_lf : lf ∉ t.url
  version : t.version ∈ versionCodes
  requestHeaders : ∀ h ∈ t.requestHeaders, PlainHeader h
  requestNames : (t.requestHeaders.map Prod.fst).Nodup
  requestEnd : t.requestEnd = [lf] ∨ t.requestEnd = crlf
  /-- The request can be counted by an `int`. -/
  request_small : t.request.length < 2 ^ 31
  /-- The code is written in digits. -/
  code : decimalValue t.code = some t.num.toNat
  reason : ¬ crlf <:+: t.reason
  responseHeaders : ∀ h ∈ t.responseHeaders, PlainHeader h
  responseNames : (t.responseHeaders.map Prod.fst).Nodup
  responseEnd : t.responseEnd = [lf] ∨ t.responseEnd = crlf
  /-- The response can be counted by an `int`. -/
  response_small : t.response.length < 2 ^ 31

variable {t}

/-- An empty line is one, whatever follows it. -/
theorem blank_append {eol : Bytes} (h : eol = [lf] ∨ eol = crlf) (body : Bytes) :
    Blank (eol ++ body) := by
  rcases h with rfl | rfl
  · exact Or.inl (List.prefix_append _ _)
  · exact Or.inr (List.prefix_append _ _)

/-- Digits are not spaces. -/
theorem sp_notMem_of_decimal {s : Bytes} {n : Nat} (h : decimalValue s = some n) : sp ∉ s := by
  intro hsp
  unfold decimalValue at h
  split at h
  · rename_i hdigits
    have hdigit := List.all_eq_true.mp hdigits.2 sp hsp
    exact absurd hdigit (by decide)
  · exact absurd h (by simp)

theorem Valid.requestLine (h : t.Valid) {B : Boost} (hB : B.CastsVersions) :
    RequestLine B t.request t.method.1 t.url t.version.2
      (headerText t.requestHeaders ++ (t.requestEnd ++ t.requestBody)) := by
  obtain ⟨hlf, -⟩ := version_shape t.version h.version
  refine ⟨⟨t.version.1, ?_, hlf, getVersion_of_mem hB h.version⟩,
    sp_notMem_method t.method h.method, h.url_sp⟩
  simp [request, requestHead]

theorem Valid.statusStart (h : t.Valid) {B : Boost} (hB : B.CastsVersions)
    (hD : B.CastsDecimals) : StatusStart B t.version.2 t.response t.num (t.reason ++ cr :: lf ::
      (headerText t.responseHeaders ++ (t.responseEnd ++ t.responseBody))) := by
  obtain ⟨-, hsp, -⟩ := version_shape t.version h.version
  exact ⟨t.version.1, t.code, rfl, hsp, sp_notMem_of_decimal h.code,
    getVersion_of_mem hB h.version, hD t.code t.num h.code⟩

/-- Both messages are longer than the ten bytes below which `Parse` skips them. -/
theorem Valid.long (h : t.Valid) : 10 < t.request.length ∧ 10 < t.response.length := by
  obtain ⟨-, -, hlength, -⟩ := version_shape t.version h.version
  simp [request, requestHead, response, hlength]
  omega

end Transaction

/-- The record tells exactly the parts of the exchange. -/
structure Record.Tells (r : Record) (t : Transaction) : Prop where
  method : r.method = t.method.2
  url : r.url = t.url
  version : r.version = t.version.2
  retCode : r.retCode = t.num
  retNote : r.retNote = t.reason
  requestHeader : ∀ name value : Bytes, r.requestHeader[name]? = some value ↔
    (name, value) ∈ t.requestHeaders
  responseHeader : ∀ name value : Bytes, r.responseHeader[name]? = some value ↔
    (name, value) ∈ t.responseHeaders

/-- **Round trip of a whole exchange.**  On buffers that show the request and the response
written out, and a result in its reset state but for the time stamps, `Parse` sends one
record, which tells exactly the parts, and leaves the session reset. -/
theorem parse_roundTrip {B : Boost} (hB : B.CastsVersions) (hD : B.CastsDecimals)
    {t : Transaction} (ht : t.Valid) (e : ParseEnv) {s : CSession}
    (hreq : s.reqBuf.Shows t.request) (hrsp : s.rspBuf.Shows t.response) {reqTime rspTime : UInt64}
    (hresult : s.result =
      { CResult.reset with requestTimeStamp := reqTime, responseTimeStamp := rspTime }) :
    (parse B e s).1 = s.reset e.reset ∧ ∃ r, (parse B e s).2 = some r ∧ r.Tells t := by
  refine ⟨parse_fst B e s, ?_⟩
  obtain ⟨hreqLong, hrspLong⟩ := ht.long
  obtain ⟨reqBlk, hreqBuf, hreqHolds⟩ := hreq.block
  obtain ⟨rspBlk, hrspBuf, hrspHolds⟩ := hrsp.block
  have hreqLen := hreq.len
  have hrspLen := hrsp.len
  have hreqUnread : Unread reqBlk.byte s.reqBuf.len 0 t.request :=
    ⟨hreqHolds, by omega, by have := ht.request_small; omega⟩
  have hrspUnread : Unread rspBlk.byte s.rspBuf.len 0 t.response :=
    ⟨hrspHolds, by omega, by have := ht.response_small; omega⟩
  obtain ⟨reqPos, reqEvals, -, hreqParse⟩ := parseRequest_block e.method hreqUnread (by omega)
    (ht.requestLine hB) (headerLines_headerText ht.requestHeaders _)
    (Transaction.blank_append ht.requestEnd _) s.result
  have hstart : StatusStart B (requestResult e.method s.result t.method.1 t.url t.version.2
      t.requestHeaders).version t.response t.num _ := ht.statusStart hB hD
  obtain ⟨rspPos, rspEvals, -, hrspParse⟩ := parseResponse_block hrspUnread (by omega) hstart
    ⟨rfl, ht.reason⟩ (headerLines_headerText ht.responseHeaders _)
    (Transaction.blank_append ht.responseEnd _)
  have hsnd := parse_snd (B := B) (e := e) hreqBuf hrspBuf (by omega) (by omega)
  simp only [hreqParse, hrspParse] at hsnd
  refine ⟨_, hsnd, ?_⟩
  rw [hresult]
  exact
    { method := getMethod_of_mem e.method ht.method
      url := rfl
      version := rfl
      retCode := rfl
      retNote := rfl
      requestHeader := getElem?_headers ht.requestNames
      responseHeader := getElem?_headers ht.responseNames }

/-! ## One exchange -/

theorem Boost.decimal_castsDecimals : Boost.decimal.CastsDecimals := by
  intro s n h
  show ((decimalValue s).filter (· < 2 ^ 32)).map UInt32.ofNat = some n
  rw [h, Option.filter_some, if_pos (by simpa using n.toNat_lt), Option.map_some,
    UInt32.ofNat_toNat]

/-- A buffer with the given bytes, zeros behind them. -/
def bufOf (bs : Bytes) : CBuffer where
  len := bs.length
  free := bufferSize
  buf := some ⟨bs.length + bufferSize, memOf bs⟩

theorem shows_bufOf (bs : Bytes) : (bufOf bs).Shows bs := by
  refine ⟨rfl, _, rfl, Mem.holds_iff_get.mpr fun i hi => ?_⟩
  show bs.getD (0 + i) 0 = bs[i]
  rw [Nat.zero_add, List.getD_eq_getElem _ _ hi]

/-- `GET / HTTP/1.1` with one header and the answer `HTTP/1.1 200 OK`. -/
def sampleTransaction : Transaction where
  method := (ascii ['G', 'E', 'T'], 1)
  url := ascii ['/']
  version := (httpSlash ++ ascii ['1', '.', '1'], 11)
  requestHeaders := [(ascii ['H', 'o', 's', 't'], ascii [' ', 'a'] ++ [cr])]
  requestEnd := crlf
  requestBody := []
  code := ascii ['2', '0', '0']
  num := 200
  reason := ascii ['O', 'K']
  responseHeaders := []
  responseEnd := [lf]
  responseBody := ascii ['x']

theorem sampleTransaction_valid : sampleTransaction.Valid where
  method := by decide
  url_sp := by decide
  url_lf := by decide
  version := by decide
  requestHeaders h hh := by
    rw [List.mem_singleton.mp hh]
    exact ⟨by decide, by decide, by decide⟩
  requestNames := by decide
  requestEnd := Or.inr rfl
  request_small := by decide
  code := by decide
  reason := by decide
  responseHeaders h hh := absurd hh (by simp [sampleTransaction])
  responseNames := by decide
  responseEnd := Or.inl rfl
  response_small := by decide

theorem parse_roundTrip_sample :
    ∃ r, (parse Boost.decimal ⟨0, SesAlloc.granting⟩ { blankSes 0 with
      reqBuf := bufOf sampleTransaction.request
      rspBuf := bufOf sampleTransaction.response
      result := CResult.reset }).2 = some r ∧ r.Tells sampleTransaction :=
  (parse_roundTrip Boost.decimal_castsVersions Boost.decimal_castsDecimals
    sampleTransaction_valid ⟨0, SesAlloc.granting⟩ (shows_bufOf _) (shows_bufOf _) rfl).2

end HttpDecoder
