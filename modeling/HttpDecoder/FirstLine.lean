import HttpDecoder.Overread
import HttpDecoder.SendGuard
import HttpDecoder.Lib.Lines

/-!
# The first line of a message

Each token of a start line is cut off at the next delimiter, on whatever line that is.

* `requestTokens`, `statusTokens` — the strings the three searches of a stage fill;
  `requestTokens_out`, `statusTokens_out` — what the stage makes of them.
* `AcceptsRequestLine`, `AcceptsStatusLine` — the buffers on which the stages return
  `true`.
* `TwoSpaces`, `CrLfFirst` — what the first line looks like.
* `RequestOnFirstLine`, `StatusOnFirstLine` — the tokens come from the first line.
* `onFirstLine_iff` — **when they do**.
-/

namespace HttpDecoder

open CLib Lines

/-! ## The tokens -/

/-- The strings filled by searches in a row, each from behind the delimiter that the last
one found.  A search is a tag and what its string holds before. -/
def tokens (m : Mem) (len : Nat) : Nat → List (Bytes × Bytes) → List Bytes
  | _, [] => []
  | pos, (tag, out) :: rest =>
    match getBufAt m len pos tag out with
    | none => []
    | some (ret, token) => token :: tokens m len (u32 (pos + (ret + tag.length))) rest

/-- A search for one byte that succeeds. -/
theorem tokens_found {m : Mem} {len pos : Nat} {t : UInt8} {out w rest : Bytes}
    (h : Unread m len pos (w ++ t :: rest)) (ht : t ∉ w) (more : List (Bytes × Bytes)) :
    tokens m len pos (([t], out) :: more) =
      (out ++ w) :: tokens m len (u32 (pos + (w.length + 1))) more := by
  rw [tokens, h.getBufAt_found ht, List.length_singleton]

/-- The method, `Result.Url` and the version of `ParseMethodAndUri`. -/
def requestTokens (m : Mem) (len : Nat) (result : CResult) : List Bytes :=
  tokens m len 0 [([sp], []), ([sp], result.url), ([lf], [])]

/-- The version, the code and `Result.RetNote` of `ParseRspState`. -/
def statusTokens (m : Mem) (len : Nat) (result : CResult) : List Bytes :=
  tokens m len 0 [([sp], []), ([sp], []), (crlf, result.retNote)]

/-! ## The first line -/

/-- Two spaces lie before the first LF. -/
def TwoSpaces (bs : Bytes) : Prop :=
  ∃ a b c, bs = a ++ sp :: (b ++ sp :: c) ∧ lf ∉ a ∧ lf ∉ b

/-- The first line ends in CR LF. -/
def CrLfFirst (bs : Bytes) : Prop := ∃ w rest, FirstCut lf bs (w ++ [cr]) rest

/-- Then the bytes before the first two spaces are on the first line. -/
theorem TwoSpaces.first {bs w₁ r₁ w₂ r₂ : Bytes} (h : TwoSpaces bs) (h₁ : FirstCut sp bs w₁ r₁)
    (h₂ : FirstCut sp r₁ w₂ r₂) : lf ∉ w₁ ∧ lf ∉ w₂ := by
  obtain ⟨a, b, c, hbs, ha, hb⟩ := h
  refine ⟨h₁.notMem hbs ha, ?_⟩
  rcases h₁.of_append hbs with ⟨-, hr⟩ | ⟨v, hav, hr⟩
  · exact h₂.notMem hr.symm hb
  · refine h₂.notMem hr fun hv => ha ?_
    rw [hav]
    exact List.mem_append_right w₁ (List.mem_cons_of_mem sp hv)

section Request

variable {B : Boost} {und : UInt32} {m : Mem} {len : Nat} {result : CResult} {bs : Bytes}

/-! ## The request line -/

/-- The buffers whose request line is accepted. -/
def AcceptsRequestLine (B : Boost) (bs : Bytes) : Prop :=
  bs.length < 2 ^ 31 ∧ ∃ method url ver rest, RequestLine B bs method url ver rest

/-- What `ParseMethodAndUri` does with a request line. -/
theorem parseMethodAndUri_accepted {method url rest : Bytes} {ver : UInt32}
    (h : Unread m len 0 bs) (hline : RequestLine B bs method url ver rest) (und : UInt32)
    (result : CResult) : ∃ version, bs = method ++ sp :: (url ++ sp :: (version ++ lf :: rest)) ∧
      lf ∉ version ∧ getVersion B version = some ver ∧
      requestTokens m len result = [method, result.url ++ url, version] ∧
      let q := parseMethodAndUri B und m len 0 result
      q.ok = true ∧ q.pos + rest.length = len ∧
        q.out = { result with
          method := getMethod und method
          url := result.url ++ url
          version := ver } := by
  obtain ⟨version, rfl, hversion, hver⟩ := hline.text
  obtain ⟨pos', evals, hrest, -, hparse⟩ :=
    parseMethodAndUri_text B und h hline.method hline.url hversion result
  refine ⟨version, rfl, hversion, hver, ?_, ?_⟩
  · have h₁ := h.advance
    have h₂ := h₁.advance
    rw [requestTokens, tokens_found h hline.method, tokens_found h₁ hline.url,
      tokens_found h₂ hversion, tokens, List.nil_append, List.nil_append]
  · rw [hver] at hparse
    rw [hparse]
    exact ⟨rfl, hrest.length, rfl⟩

/-- **The request lines `ParseMethodAndUri` accepts.** -/
theorem parseMethodAndUri_ok_iff (hlen : len < 2 ^ 32) :
    (parseMethodAndUri B und m len 0 result).ok = true ↔ AcceptsRequestLine B (m.read 0 len) := by
  unfold AcceptsRequestLine
  rw [Mem.length_read]
  by_cases hsmall : len < 2 ^ 31
  rotate_left
  · rw [parseMethodAndUri_noSpace und result (getBufAt_long (not_lt.mp hsmall) hlen [sp] [])]
    exact iff_of_false (by simp) fun h => hsmall h.1
  have hunread := unread_read m hsmall
  by_cases hline : ∃ method url ver rest, RequestLine B (m.read 0 len) method url ver rest
  · obtain ⟨method, url, ver, rest, hline'⟩ := hline
    obtain ⟨-, -, -, -, -, hok, -⟩ := parseMethodAndUri_accepted hunread hline' und result
    exact iff_of_true hok ⟨hsmall, method, url, ver, rest, hline'⟩
  · have hrefused := (parseMethodAndUri_none und hunread
      (fun method url ver rest h => hline ⟨method, url, ver, rest, h⟩) result).1
    exact iff_of_false (by simp [hrefused]) fun h => hline h.2

/-- The tokens make the output: the code of the method, the url, and that of the version. -/
theorem requestTokens_out (hlen : len < 2 ^ 32)
    (hok : (parseMethodAndUri B und m len 0 result).ok = true) :
    let out := (parseMethodAndUri B und m len 0 result).out
    ∃ method version, requestTokens m len result = [method, out.url, version] ∧
      out.method = getMethod und method ∧ getVersion B version = some out.version := by
  obtain ⟨hsmall, method, url, ver, rest, hline⟩ := (parseMethodAndUri_ok_iff hlen).mp hok
  rw [Mem.length_read] at hsmall
  obtain ⟨version, -, -, hver, htokens, -, -, hout⟩ :=
    parseMethodAndUri_accepted (unread_read m hsmall) hline und result
  rw [hout]
  exact ⟨method, version, htokens, rfl, hver⟩

/-- Whenever `ParseMethodAndUri` returns `true`, no token has an LF and the cursor is
behind the first LF. -/
structure RequestOnFirstLine (B : Boost) (und : UInt32) (m : Mem) (len : Nat)
    (result : CResult) : Prop where
  tokens : (parseMethodAndUri B und m len 0 result).ok = true →
    ∀ token ∈ requestTokens m len result, lf ∉ token
  cursor : (parseMethodAndUri B und m len 0 result).ok = true →
    ∃ w rest, FirstCut lf (m.read 0 len) w rest ∧
      (parseMethodAndUri B und m len 0 result).pos = w.length + 1

/-- **When the tokens of the request come from its first line**: it has two spaces, and
`Result.Url` was clean, or the buffer is refused. -/
theorem requestOnFirstLine_iff (hlen : len < 2 ^ 32) :
    RequestOnFirstLine B und m len result ↔
      (TwoSpaces (m.read 0 len) ∧ lf ∉ result.url) ∨ ¬ AcceptsRequestLine B (m.read 0 len) := by
  by_cases haccepts : AcceptsRequestLine B (m.read 0 len)
  rotate_left
  · have hrefused : ¬ (parseMethodAndUri B und m len 0 result).ok = true :=
      (parseMethodAndUri_ok_iff hlen).not.mpr haccepts
    exact iff_of_true ⟨fun hok => absurd hok hrefused, fun hok => absurd hok hrefused⟩
      (Or.inr haccepts)
  obtain ⟨hsmall, method, url, ver, rest, hline⟩ := haccepts
  rw [Mem.length_read] at hsmall
  obtain ⟨version, hbs, hversion, -, htokens, hok, hpos, -⟩ :=
    parseMethodAndUri_accepted (unread_read m hsmall) hline und result
  constructor
  · intro h
    have hclean := h.tokens hok
    rw [htokens] at hclean
    have hurl := hclean (result.url ++ url) (by simp)
    rw [List.mem_append, not_or] at hurl
    exact Or.inl ⟨⟨method, url, _, hbs, hclean method (by simp), hurl.2⟩, hurl.1⟩
  · intro h
    obtain ⟨hspaces, hclean⟩ := h.resolve_right (not_not.mpr ((parseMethodAndUri_ok_iff hlen).mp hok))
    obtain ⟨hmethod, hurl⟩ := hspaces.first ⟨hbs, hline.method⟩ ⟨rfl, hline.url⟩
    refine ⟨fun _ => ?_, fun _ => ?_⟩
    · rw [htokens]
      simp [hmethod, hurl, hclean, hversion]
    · have hcut : FirstCut lf (m.read 0 len)
          (method ++ sp :: (url ++ sp :: version)) rest := by
        refine ⟨by rw [hbs]; simp, ?_⟩
        simp [hmethod, hurl, hversion, show lf ≠ sp by decide]
      have hlength := hcut.length_eq
      rw [Mem.length_read] at hlength
      exact ⟨_, rest, hcut, by omega⟩

end Request

section Response

variable {B : Boost} {m : Mem} {len : Nat} {result : CResult} {bs : Bytes}

/-! ## The status line -/

/-- The reason ends in CR LF, the LF of which may lie behind the buffer. -/
def ReasonEnds (m : Mem) (len : Nat) (tail reason : Bytes) : Prop :=
  (∃ rest, Reason tail reason rest) ∨ (ReasonCut tail reason ∧ m len = lf)

/-- Such a reason is found. -/
theorem ReasonEnds.getBufAt {pos : Nat} {tail reason out : Bytes} (h : ReasonEnds m len tail reason)
    (htail : Unread m len pos tail) :
    getBufAt m len pos crlf out = some (reason.length, out ++ reason) := by
  rcases h with ⟨rest, hbytes, hno⟩ | ⟨⟨hbytes, hno⟩, hlf⟩
  · rw [hbytes] at htail
    exact htail.getBufAt_crlf hno
  · rw [hbytes] at htail
    rw [htail.getBufAt_cut hno, if_pos hlf]

theorem ReasonEnds.length_lt {tail reason : Bytes} (h : ReasonEnds m len tail reason) :
    reason.length < tail.length := by
  rcases h with ⟨rest, hbytes, -⟩ | ⟨⟨hbytes, -⟩, -⟩ <;>
  · rw [hbytes, List.length_append, List.length_cons]
    omega

/-- The buffers whose status line is accepted. -/
def AcceptsStatusLine (B : Boost) (ver : UInt32) (m : Mem) (bs : Bytes) : Prop :=
  bs.length < 2 ^ 31 ∧ ∃ num tail reason, StatusStart B ver bs num tail ∧
    ReasonEnds m bs.length tail reason

/-- What `ParseRspState` does with a status line. -/
theorem parseRspState_accepted {num : UInt32} {tail reason : Bytes} (h : Unread m len 0 bs)
    (hs : StatusStart B result.version bs num tail) (hr : ReasonEnds m len tail reason) :
    ∃ version code, bs = version ++ sp :: (code ++ sp :: tail) ∧ sp ∉ version ∧ sp ∉ code ∧
      getVersion B version = some result.version ∧ B.castUInt32 code = some num ∧
      statusTokens m len result = [version, code, result.retNote ++ reason] ∧
      let q := parseRspState B m len 0 result
      q.ok = true ∧ q.pos + tail.length = len + (reason.length + 2) ∧
        q.out = { result with retCode := num, retNote := result.retNote ++ reason } := by
  obtain ⟨version, code, rfl, hversion, hcode, hver, hnum⟩ := hs.text
  refine ⟨version, code, rfl, hversion, hcode, hver, hnum, ?_, ?_⟩
  · have h₁ := h.advance
    rw [statusTokens, tokens_found h hversion, tokens_found h₁ hcode, tokens,
      hr.getBufAt h₁.advance, List.nil_append, List.nil_append]
    simp only [tokens]
  · obtain ⟨pos', evals, htail, -, hparse⟩ := parseRspState_start h hs
    rw [hr.getBufAt htail] at hparse
    have hlength := htail.length
    have hsmall := htail.small
    have hshort := hr.length_lt
    rw [hparse]
    refine ⟨rfl, ?_, rfl⟩
    show u32 (pos' + (reason.length + 2)) + tail.length = len + (reason.length + 2)
    rw [u32_of_lt (by omega)]
    omega

/-- A status line whose reason does not end is refused. -/
theorem parseRspState_noEnd {num : UInt32} {tail : Bytes} (h : Unread m len 0 bs)
    (hs : StatusStart B result.version bs num tail)
    (hno : ∀ reason, ¬ ReasonEnds m len tail reason) :
    (parseRspState B m len 0 result).ok = false := by
  obtain ⟨pos', evals, htail, -, hparse⟩ := parseRspState_start h hs
  have hnone : getBufAt m len pos' crlf result.retNote = none := by
    rcases reason_cases tail with ⟨reason, rest, hr⟩ | ⟨reason, hr⟩ | ⟨hcrlf, hlast⟩
    · exact absurd (Or.inl ⟨rest, hr⟩) (hno reason)
    · obtain ⟨hbytes, hfirst⟩ := hr
      rw [hbytes] at htail
      rw [htail.getBufAt_cut hfirst, if_neg fun hlf => hno reason (Or.inr ⟨⟨hbytes, hfirst⟩, hlf⟩)]
    · exact htail.getBufAt_noCrlf hcrlf hlast
  rw [hparse, hnone]

/-- **The status lines `ParseRspState` accepts.** -/
theorem parseRspState_ok_iff (hlen : len < 2 ^ 32) :
    (parseRspState B m len 0 result).ok = true ↔
      AcceptsStatusLine B result.version m (m.read 0 len) := by
  unfold AcceptsStatusLine
  rw [Mem.length_read]
  by_cases hsmall : len < 2 ^ 31
  rotate_left
  · rw [parseRspState_noSpace result (getBufAt_long (not_lt.mp hsmall) hlen [sp] [])]
    exact iff_of_false (by simp) fun h => hsmall h.1
  have hunread := unread_read m hsmall
  constructor
  · intro hok
    by_contra hno
    by_cases hstart : ∃ num tail, StatusStart B result.version (m.read 0 len) num tail
    · obtain ⟨num, tail, hs⟩ := hstart
      rw [parseRspState_noEnd hunread hs fun reason hr => hno ⟨hsmall, num, tail, reason, hs, hr⟩]
        at hok
      cases hok
    · rw [(parseRspState_none hunread fun num tail hs => hstart ⟨num, tail, hs⟩).1] at hok
      cases hok
  · rintro ⟨-, num, tail, reason, hs, hr⟩
    obtain ⟨-, -, -, -, -, -, -, -, hok, -⟩ := parseRspState_accepted hunread hs hr
    exact hok

/-- The tokens make the output: the version is that of the request, and the code and the
reason are stored. -/
theorem statusTokens_out (hlen : len < 2 ^ 32) (hok : (parseRspState B m len 0 result).ok = true) :
    let out := (parseRspState B m len 0 result).out
    ∃ version code, statusTokens m len result = [version, code, out.retNote] ∧
      getVersion B version = some result.version ∧ B.castUInt32 code = some out.retCode := by
  obtain ⟨hsmall, num, tail, reason, hs, hr⟩ := (parseRspState_ok_iff hlen).mp hok
  rw [Mem.length_read] at hsmall hr
  obtain ⟨version, code, -, -, -, hver, hnum, htokens, -, -, hout⟩ :=
    parseRspState_accepted (unread_read m hsmall) hs hr
  rw [hout]
  exact ⟨version, code, htokens, hver, hnum⟩

/-- Whenever `ParseRspState` returns `true`, no token has an LF and the cursor is behind the
first LF. -/
structure StatusOnFirstLine (B : Boost) (m : Mem) (len : Nat) (result : CResult) : Prop where
  tokens : (parseRspState B m len 0 result).ok = true →
    ∀ token ∈ statusTokens m len result, lf ∉ token
  cursor : (parseRspState B m len 0 result).ok = true →
    ∃ w rest, FirstCut lf (m.read 0 len) w rest ∧
      (parseRspState B m len 0 result).pos = w.length + 1

/-- A first line that ends in CR LF has the reason on it. -/
theorem CrLfFirst.reason {ver num : UInt32} {tail : Bytes} (h : CrLfFirst bs)
    (hspaces : TwoSpaces bs) (hs : StatusStart B ver bs num tail) :
    ∃ reason rest, Reason tail reason rest ∧ lf ∉ reason := by
  obtain ⟨w, rest, hcut⟩ := h
  obtain ⟨version, code, hbs, hsp, hsp', -⟩ := hs.text
  obtain ⟨hversion, hcode⟩ := hspaces.first ⟨hbs, hsp⟩ ⟨rfl, hsp'⟩
  have hsplit : bs = (version ++ sp :: (code ++ [sp])) ++ tail := by
    rw [hbs]
    simp
  rw [hsplit] at hcut
  obtain ⟨v, hv, htail⟩ :=
    hcut.drop (by simp [hversion, hcode, show lf ≠ sp by decide])
  -- the last byte of the line is the CR, and not the second space
  rcases List.eq_nil_or_concat v with rfl | ⟨reason, x, rfl⟩
  · have hlast := congrArg List.getLast? hv
    rw [List.getLast?_concat, List.append_nil,
      show version ++ sp :: (code ++ [sp]) = (version ++ sp :: code) ++ [sp] by simp,
      List.getLast?_concat] at hlast
    exact absurd hlast (by decide)
  · rw [List.concat_eq_append] at hv htail
    rw [← List.append_assoc] at hv
    obtain ⟨-, hx⟩ := List.append_inj' hv rfl
    rw [← (List.cons.inj hx).1] at htail
    have hclean : lf ∉ reason := fun hlf => htail.first (List.mem_append_left _ hlf)
    refine ⟨reason, rest, ⟨by rw [htail.eq]; simp, fun hcrlf => hclean ?_⟩, hclean⟩
    exact hcrlf.subset (by decide)

/-- **When the tokens of the response come from its first line**: it has two spaces and
ends in CR LF, and `Result.RetNote` was clean, or the buffer is refused. -/
theorem statusOnFirstLine_iff (hlen : len < 2 ^ 32) :
    StatusOnFirstLine B m len result ↔
      (TwoSpaces (m.read 0 len) ∧ CrLfFirst (m.read 0 len) ∧ lf ∉ result.retNote) ∨
        ¬ AcceptsStatusLine B result.version m (m.read 0 len) := by
  by_cases haccepts : AcceptsStatusLine B result.version m (m.read 0 len)
  rotate_left
  · have hrefused : ¬ (parseRspState B m len 0 result).ok = true :=
      (parseRspState_ok_iff hlen).not.mpr haccepts
    exact iff_of_true ⟨fun hok => absurd hok hrefused, fun hok => absurd hok hrefused⟩
      (Or.inr haccepts)
  have hok : (parseRspState B m len 0 result).ok = true :=
    (parseRspState_ok_iff hlen).mpr haccepts
  obtain ⟨hsmall, num, tail, reason, hs, hr⟩ := id haccepts
  rw [Mem.length_read] at hsmall hr
  have hunread := unread_read m hsmall
  constructor
  · intro h
    obtain ⟨version, code, hbs, -, -, -, -, htokens, -, hpos, -⟩ :=
      parseRspState_accepted hunread hs hr
    have hclean := h.tokens hok
    rw [htokens] at hclean
    have hnote := hclean (result.retNote ++ reason) (by simp)
    rw [List.mem_append, not_or] at hnote
    have hversion := hclean version (by simp)
    have hcode := hclean code (by simp)
    refine Or.inl ⟨⟨version, code, tail, hbs, hversion, hcode⟩, ?_, hnote.1⟩
    rcases hr with ⟨rest, hbytes, -⟩ | ⟨⟨hbytes, -⟩, -⟩
    · refine ⟨version ++ sp :: (code ++ sp :: reason), rest, by rw [hbs, hbytes]; simp, ?_⟩
      simp [hversion, hcode, hnote.2, show lf ≠ sp by decide, show lf ≠ cr by decide]
    · -- the cursor has left the buffer
      obtain ⟨w, rest, hcut, hcursor⟩ := h.cursor hok
      have hlength := hcut.length_eq
      rw [Mem.length_read] at hlength
      rw [hbytes, List.length_append, List.length_singleton] at hpos
      omega
  · intro h
    obtain ⟨hspaces, hcrlf, hnote⟩ := h.resolve_right (not_not.mpr haccepts)
    obtain ⟨reason', rest, hreason, hclean⟩ := hcrlf.reason hspaces hs
    obtain ⟨version, code, hbs, hsp, hsp', -, -, htokens, -, hpos, -⟩ :=
      parseRspState_accepted hunread hs (Or.inl ⟨rest, hreason⟩)
    obtain ⟨hversion, hcode⟩ := hspaces.first ⟨hbs, hsp⟩ ⟨rfl, hsp'⟩
    refine ⟨fun _ => ?_, fun _ => ?_⟩
    · rw [htokens]
      simp [hversion, hcode, hnote, hclean]
    · have hcut : FirstCut lf (m.read 0 len)
          (version ++ sp :: (code ++ sp :: (reason' ++ [cr]))) rest := by
        refine ⟨by rw [hbs, hreason.bytes]; simp, ?_⟩
        simp [hversion, hcode, hclean, show lf ≠ sp by decide, show lf ≠ cr by decide]
      have hlength := hcut.length_eq
      have htail := congrArg List.length hreason.bytes
      rw [Mem.length_read] at hlength
      rw [List.length_append, List.length_cons, List.length_cons] at htail
      exact ⟨_, rest, hcut, by omega⟩

end Response

/-! ## Both -/

/-- **When start-line tokens come from the first line.**  For every buffer and result:
those of the request exactly if the first line has two spaces and `Result.Url` was clean,
those of the response exactly if it also ends in CR LF and `Result.RetNote` was clean;
buffers that are refused apart. -/
theorem onFirstLine_iff (B : Boost) (und : UInt32) (m : Mem) {len : Nat} (hlen : len < 2 ^ 32)
    (result : CResult) :
    (RequestOnFirstLine B und m len result ↔
      (TwoSpaces (m.read 0 len) ∧ lf ∉ result.url) ∨ ¬ AcceptsRequestLine B (m.read 0 len)) ∧
    (StatusOnFirstLine B m len result ↔
      (TwoSpaces (m.read 0 len) ∧ CrLfFirst (m.read 0 len) ∧ lf ∉ result.retNote) ∨
        ¬ AcceptsStatusLine B result.version m (m.read 0 len)) :=
  ⟨requestOnFirstLine_iff hlen, statusOnFirstLine_iff hlen⟩

/-- `GET / HTTP/1.1`, of which the tokens are on the first line. -/
theorem onFirstLine_iff_getRoot :
    RequestOnFirstLine Boost.decimal 0 (memOf (getRoot [lf])) 15 CResult.reset :=
  (onFirstLine_iff Boost.decimal 0 _ (by decide) CResult.reset).1.mpr
    (Or.inl ⟨⟨ascii ['G', 'E', 'T'], [47], httpSlash ++ ascii ['1', '.', '1'] ++ [lf],
      by decide, by decide, by decide⟩, by decide⟩)

/-- A first line with one space, and the version on the second. -/
def splitRequest : Bytes :=
  ascii ['G', 'E', 'T', ' ', '/'] ++ lf :: ascii ['a', ':', ' '] ++ httpSlash ++
    ascii ['1', '.', '1'] ++ [lf]

/-- A status line that ends in LF alone, and a header that ends in CR LF. -/
def splitResponse : Bytes :=
  httpSlash ++ ascii ['1', '.', '1', ' ', '2', '0', '0', ' ', 'O', 'K'] ++ lf :: ascii ['a', ':'] ++
    crlf

/-- The second line is taken for a part of the url, or of the reason. -/
theorem not_onFirstLine_split :
    ¬ RequestOnFirstLine Boost.decimal 0 (memOf splitRequest) splitRequest.length CResult.reset ∧
      ¬ StatusOnFirstLine Boost.decimal (memOf splitResponse) splitResponse.length
        { CResult.reset with version := 11 } := by
  constructor
  · intro h
    have hurl := h.tokens (by decide +kernel)
      (ascii ['/'] ++ lf :: ascii ['a', ':']) (by decide +kernel)
    exact hurl (by decide)
  · intro h
    have hnote := h.tokens (by decide +kernel)
      (ascii ['O', 'K'] ++ lf :: ascii ['a', ':']) (by decide +kernel)
    exact hnote (by decide)

end HttpDecoder
