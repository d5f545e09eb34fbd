import HttpDecoder.Stages

/-!
# The two blocks of `Parse` on given bytes

A message is a start line, header lines and what follows them.  What follows decides:
an empty line lets the message pass, a single CR leaves it to the byte behind the
buffer, everything else refuses it.

* `parseRequest_block`, `parseRequest_cut`, `parseRequest_refused` — the request.
* `parseResponse_block`, `parseResponse_cut`, `parseResponse_reasonCut`,
  `parseResponse_refused` — the response.
* `CBuffer.Shows`, `parse_shown` — `Parse` on two buffers that show given bytes.
-/

namespace HttpDecoder

open CLib

variable {B : Boost} {pBuf : Mem} {len : Nat} {bs : Bytes}

/-! ## The request -/

/-- The result after a request line and its header lines. -/
def requestResult (und : UInt32) (result : CResult) (method url : Bytes) (ver : UInt32)
    (hs : List (Bytes × Bytes)) : CResult :=
  { result with
    method := getMethod und method
    url := result.url ++ url
    version := ver
    requestHeader := result.requestHeader.insertMany hs }

section Request

variable {method url rest tail : Bytes} {ver : UInt32} {hs : List (Bytes × Bytes)}

/-- The header block is parsed from where the request line ends. -/
theorem parseRequest_line (und : UInt32) (h : Unread pBuf len 0 bs) (hlong : 10 < len)
    (hl : RequestLine B bs method url ver rest) (hlines : HeaderLines hs rest tail)
    (result : CResult) : ∃ pos evals, Unread pBuf len pos tail ∧ Inside len evals ∧
      let head := parseHeader pBuf len pos (result.requestHeader.insertMany hs)
      parseRequest B und pBuf len result =
        ⟨head.ok, head.pos,
          { requestResult und result method url ver hs with requestHeader := head.out },
          evals ++ head.evals⟩ := by
  obtain ⟨version, rfl, hversion, hver⟩ := hl.text
  obtain ⟨pos₁, evals₁, h₁, hevals₁, hline⟩ :=
    parseMethodAndUri_text B und h hl.method hl.url hversion result
  obtain ⟨pos₂, evals₂, h₂, hevals₂, hhead⟩ := parseHeader_lines hlines result.requestHeader h₁
  refine ⟨pos₂, evals₁ ++ evals₂, h₂, by simp [hevals₁, hevals₂], ?_⟩
  unfold parseRequest
  rw [if_pos hlong, hline, hver]
  simp only [not_true_eq_false, if_false, hhead, List.append_assoc]
  rfl

/-- An empty line lets the request pass. -/
theorem parseRequest_block (und : UInt32) (h : Unread pBuf len 0 bs) (hlong : 10 < len)
    (hl : RequestLine B bs method url ver rest) (hlines : HeaderLines hs rest tail)
    (hblank : Blank tail) (result : CResult) : ∃ pos evals, Inside len evals ∧
      parseRequest B und pBuf len result =
        ⟨true, pos, requestResult und result method url ver hs, evals⟩ := by
  obtain ⟨pos, evals, hunread, hevals, hparse⟩ := parseRequest_line und h hlong hl hlines result
  obtain ⟨pos', hhead⟩ := parseHeader_blank hunread hblank (result.requestHeader.insertMany hs)
  refine ⟨pos', evals ++ [pos], by simp [hevals, hunread.pos_le], ?_⟩
  rw [hparse, hhead]
  rfl

/-- A CR leaves it to the byte behind the buffer. -/
theorem parseRequest_cut (und : UInt32) (h : Unread pBuf len 0 bs) (hlong : 10 < len)
    (hl : RequestLine B bs method url ver rest) (hlines : HeaderLines hs rest [cr])
    (result : CResult) :
    let q := parseRequest B und pBuf len result
    q.ok = decide (pBuf len = lf) ∧ q.out = requestResult und result method url ver hs ∧
      Inside len q.evals := by
  obtain ⟨pos, evals, hunread, hevals, hparse⟩ := parseRequest_line und h hlong hl hlines result
  obtain ⟨hok, hout, hinside⟩ := parseHeader_cut hunread (result.requestHeader.insertMany hs)
  rw [hparse]
  refine ⟨hok, ?_, by simp [hevals, hinside]⟩
  rw [hout]
  rfl

/-- Everything else refuses it. -/
theorem parseRequest_stuck (und : UInt32) (h : Unread pBuf len 0 bs) (hlong : 10 < len)
    (hl : RequestLine B bs method url ver rest) (hlines : HeaderLines hs rest tail)
    (hstuck : Stuck tail) (result : CResult) :
    (parseRequest B und pBuf len result).ok = false ∧
      Inside len (parseRequest B und pBuf len result).evals := by
  obtain ⟨pos, evals, hunread, hevals, hparse⟩ := parseRequest_line und h hlong hl hlines result
  obtain ⟨hok, hinside⟩ := parseHeader_stuck hunread hstuck (result.requestHeader.insertMany hs)
  rw [hparse]
  exact ⟨hok, by simp [hevals, hinside]⟩

/-- Bytes without a request line are refused. -/
theorem parseRequest_none (und : UInt32) (h : Unread pBuf len 0 bs) (hlong : 10 < len)
    (hno : ∀ method url ver rest, ¬ RequestLine B bs method url ver rest) (result : CResult) :
    (parseRequest B und pBuf len result).ok = false ∧
      Inside len (parseRequest B und pBuf len result).evals := by
  obtain ⟨hok, hinside⟩ := parseMethodAndUri_none und h hno result
  unfold parseRequest
  rw [if_pos hlong]
  simp only
  rw [if_pos (by simp [hok])]
  exact ⟨hok, hinside⟩

end Request

/-! ## The response -/

/-- The result after a status line and its header lines. -/
def responseResult (result : CResult) (num : UInt32) (reason : Bytes)
    (hs : List (Bytes × Bytes)) : CResult :=
  { result with
    retCode := num
    retNote := result.retNote ++ reason
    responseHeader := result.responseHeader.insertMany hs }

section Response

variable {num : UInt32} {tail reason rest follow : Bytes} {hs : List (Bytes × Bytes)}
  {result : CResult}

/-- The header block is parsed from where the status line ends. -/
theorem parseResponse_line (h : Unread pBuf len 0 bs) (hlong : 10 < len)
    (hs₀ : StatusStart B result.version bs num tail) (hr : Reason tail reason rest)
    (hlines : HeaderLines hs rest follow) : ∃ pos evals, Unread pBuf len pos follow ∧
      Inside len evals ∧
      let head := parseHeader pBuf len pos (result.responseHeader.insertMany hs)
      parseResponse B pBuf len result =
        ⟨head.ok, head.pos,
          { responseResult result num reason hs with responseHeader := head.out },
          evals ++ head.evals⟩ := by
  obtain ⟨rfl, hno⟩ := hr
  obtain ⟨pos₁, evals₁, h₁, hevals₁, hline⟩ := parseRspState_start h hs₀
  rw [h₁.getBufAt_crlf hno] at hline
  have h₂ : Unread pBuf len (u32 (pos₁ + (reason.length + 2))) rest := by
    have hcr : reason ++ cr :: lf :: rest = (reason ++ [cr]) ++ lf :: rest := by simp
    rw [hcr] at h₁
    have hadvance := h₁.advance
    rwa [List.length_append, List.length_singleton] at hadvance
  obtain ⟨pos₃, evals₃, h₃, hevals₃, hhead⟩ := parseHeader_lines hlines result.responseHeader h₂
  refine ⟨pos₃, evals₁ ++ evals₃, h₃, by simp [hevals₁, hevals₃], ?_⟩
  unfold parseResponse
  rw [if_pos hlong, hline]
  simp only [not_true_eq_false, if_false, hhead, List.append_assoc]
  rfl

/-- An empty line lets the response pass. -/
theorem parseResponse_block (h : Unread pBuf len 0 bs) (hlong : 10 < len)
    (hs₀ : StatusStart B result.version bs num tail) (hr : Reason tail reason rest)
    (hlines : HeaderLines hs rest follow) (hblank : Blank follow) :
    ∃ pos evals, Inside len evals ∧ parseResponse B pBuf len result =
      ⟨true, pos, responseResult result num reason hs, evals⟩ := by
  obtain ⟨pos, evals, hunread, hevals, hparse⟩ := parseResponse_line h hlong hs₀ hr hlines
  obtain ⟨pos', hhead⟩ := parseHeader_blank hunread hblank (result.responseHeader.insertMany hs)
  refine ⟨pos', evals ++ [pos], by simp [hevals, hunread.pos_le], ?_⟩
  rw [hparse, hhead]
  rfl

/-- A CR leaves it to the byte behind the buffer. -/
theorem parseResponse_cut (h : Unread pBuf len 0 bs) (hlong : 10 < len)
    (hs₀ : StatusStart B result.version bs num tail) (hr : Reason tail reason rest)
    (hlines : HeaderLines hs rest [cr]) :
    (parseResponse B pBuf len result).ok = decide (pBuf len = lf) ∧
      Inside len (parseResponse B pBuf len result).evals := by
  obtain ⟨pos, evals, hunread, hevals, hparse⟩ := parseResponse_line h hlong hs₀ hr hlines
  obtain ⟨hok, -, hinside⟩ := parseHeader_cut hunread (result.responseHeader.insertMany hs)
  rw [hparse]
  exact ⟨hok, by simp [hevals, hinside]⟩

/-- Everything else refuses it. -/
theorem parseResponse_stuck (h : Unread pBuf len 0 bs) (hlong : 10 < len)
    (hs₀ : StatusStart B result.version bs num tail) (hr : Reason tail reason rest)
    (hlines : HeaderLines hs rest follow) (hstuck : Stuck follow) :
    (parseResponse B pBuf len result).ok = false ∧
      Inside len (parseResponse B pBuf len result).evals := by
  obtain ⟨pos, evals, hunread, hevals, hparse⟩ := parseResponse_line h hlong hs₀ hr hlines
  obtain ⟨hok, hinside⟩ := parseHeader_stuck hunread hstuck (result.responseHeader.insertMany hs)
  rw [hparse]
  exact ⟨hok, by simp [hevals, hinside]⟩

/-- A refused status line. -/
theorem parseResponse_of_refused (hlong : 10 < len)
    (hok : (parseRspState B pBuf len 0 result).ok = false)
    (hinside : Inside len (parseRspState B pBuf len 0 result).evals) :
    (parseResponse B pBuf len result).ok = false ∧
      Inside len (parseResponse B pBuf len result).evals := by
  unfold parseResponse
  rw [if_pos hlong]
  simp only
  rw [if_pos (by simp [hok])]
  exact ⟨hok, hinside⟩

/-- Bytes without a status line are refused. -/
theorem parseResponse_none (h : Unread pBuf len 0 bs) (hlong : 10 < len)
    (hno : ∀ num tail, ¬ StatusStart B result.version bs num tail) :
    (parseResponse B pBuf len result).ok = false ∧
      Inside len (parseResponse B pBuf len result).evals := by
  obtain ⟨hok, hinside⟩ := parseRspState_none h hno
  exact parseResponse_of_refused hlong hok hinside

/-- So is a reason without an end. -/
theorem parseResponse_noReason (h : Unread pBuf len 0 bs) (hlong : 10 < len)
    (hs₀ : StatusStart B result.version bs num tail) (hno : ¬ crlf <:+: tail)
    (hlast : tail.getLast? ≠ some cr) :
    (parseResponse B pBuf len result).ok = false ∧
      Inside len (parseResponse B pBuf len result).evals := by
  obtain ⟨pos, evals, hunread, hevals, hline⟩ := parseRspState_start h hs₀
  rw [hunread.getBufAt_noCrlf hno hlast] at hline
  exact parseResponse_of_refused hlong (by rw [hline]) (by rw [hline]; exact hevals)

/-- Where the buffer is cut inside the line end and another byte than LF follows, it is
refused. -/
theorem parseResponse_reasonCut_of_ne (h : Unread pBuf len 0 bs) (hlong : 10 < len)
    (hs₀ : StatusStart B result.version bs num tail) (hr : ReasonCut tail reason)
    (hbehind : pBuf len ≠ lf) : (parseResponse B pBuf len result).ok = false := by
  obtain ⟨rfl, hno⟩ := hr
  obtain ⟨pos, evals, hunread, hevals, hline⟩ := parseRspState_start h hs₀
  rw [hunread.getBufAt_cut hno, if_neg hbehind] at hline
  exact (parseResponse_of_refused hlong (by rw [hline]) (by rw [hline]; exact hevals)).1

/-- `ParseHeader` begins with an evaluation of `len-pos`. -/
theorem pos_mem_evals (headmap : HeaderMap) (pos : Nat) :
    pos ∈ (parseHeader pBuf len pos headmap).evals := by
  rw [parseHeader]
  split_ifs
  · simp
  · simp
  · simp
  · split
    · simp
    · simp only
      split <;> simp

/-- Where LF follows, the header block is parsed from behind that LF. -/
theorem parseResponse_reasonCut_line (h : Unread pBuf len 0 bs) (hlong : 10 < len)
    (hs₀ : StatusStart B result.version bs num tail) (hr : ReasonCut tail reason)
    (hbehind : pBuf len = lf) : ∃ (note : Bytes) (evals : List Nat),
      let head := parseHeader pBuf len (len + 1) result.responseHeader
      parseResponse B pBuf len result =
        ⟨head.ok, head.pos,
          { result with retCode := num, retNote := note, responseHeader := head.out },
          evals ++ head.evals⟩ := by
  obtain ⟨rfl, hno⟩ := hr
  obtain ⟨pos, evals, hunread, hevals, hline⟩ := parseRspState_start h hs₀
  rw [hunread.getBufAt_cut hno, if_pos hbehind] at hline
  have hlength := hunread.length
  have hsmall := hunread.small
  rw [List.length_append, List.length_singleton] at hlength
  have hpast : u32 (pos + (reason.length + 2)) = len + 1 := by
    rw [u32_of_lt (by omega)]
    omega
  refine ⟨result.retNote ++ reason, evals, ?_⟩
  unfold parseResponse
  rw [if_pos hlong, hline]
  simp only [not_true_eq_false, if_false, hpast]

/-- **Where LF follows, the cursor leaves the buffer.** -/
theorem parseResponse_reasonCut_of_eq (h : Unread pBuf len 0 bs) (hlong : 10 < len)
    (hs₀ : StatusStart B result.version bs num tail) (hr : ReasonCut tail reason)
    (hbehind : pBuf len = lf) : ¬ Inside len (parseResponse B pBuf len result).evals := by
  obtain ⟨note, evals, hparse⟩ := parseResponse_reasonCut_line h hlong hs₀ hr hbehind
  intro hinside
  rw [hparse, inside_append] at hinside
  have hle := hinside.2 (len + 1) (pos_mem_evals result.responseHeader (len + 1))
  omega

/-- Past the end no header line is found: the block passes exactly if an empty line lies
there. -/
theorem parseHeader_past (headmap : HeaderMap) :
    (parseHeader pBuf len (len + 1) headmap).ok =
      decide (pBuf (len + 1) = lf ∨ pBuf (len + 1) = cr ∧ pBuf (len + 2) = lf) := by
  have hback : sub32 len (len + 1) = 2 ^ 32 - 1 := by
    unfold sub32
    omega
  have hnone : getBufAt pBuf len (len + 1) [colon] [] = none := by
    unfold getBufAt getBufByTag
    rw [hback, toInt32_toNat_of_le (by norm_num) (by norm_num)]
    rfl
  have hlf : strncmpEq (pBuf.shift (len + 1)) [lf] = decide (pBuf (len + 1) = lf) := by
    rw [strncmpEq_single, Mem.shift_apply, Nat.add_zero]
  have hcrlf : strncmpEq (pBuf.shift (len + 1)) [cr, lf] =
      decide (pBuf (len + 1) = cr ∧ pBuf (len + 2) = lf) := by
    rw [strncmpEq_pair _ (show cr ≠ 0 by decide), Mem.shift_apply, Mem.shift_apply, Nat.add_zero]
  have hmore : sub32 len (len + 1) ≠ 0 := by
    rw [hback]
    norm_num
  by_cases hfirst : pBuf (len + 1) = lf
  · rw [parseHeader, if_neg hmore, if_pos (by rw [hlf, decide_eq_true hfirst])]
    exact (decide_eq_true (Or.inl hfirst)).symm
  have hnotLf : strncmpEq (pBuf.shift (len + 1)) [lf] = false := by
    rw [hlf, decide_eq_false hfirst]
  by_cases hsecond : pBuf (len + 1) = cr ∧ pBuf (len + 2) = lf
  · rw [parseHeader, if_neg hmore, if_neg (by simp [hnotLf]),
      if_pos (by rw [hcrlf, decide_eq_true hsecond])]
    exact (decide_eq_true (Or.inr hsecond)).symm
  · have hnotCrlf : strncmpEq (pBuf.shift (len + 1)) [cr, lf] = false := by
      rw [hcrlf, decide_eq_false hsecond]
    rw [parseHeader_step headmap hmore hnotLf hnotCrlf, hnone]
    exact (decide_eq_false (not_or.mpr ⟨hfirst, hsecond⟩)).symm

end Response

/-! ## `Parse` -/

/-- The buffer has a block, and its contents are `bs`. -/
structure CBuffer.Shows (b : CBuffer) (bs : Bytes) : Prop where
  len : b.len = bs.length
  block : ∃ blk, b.buf = some blk ∧ blk.byte.Holds 0 bs

theorem CBuffer.WF.shows {b : CBuffer} (h : b.WF) : b.Shows b.contents := by
  obtain ⟨blk, hblk, -⟩ := h.block
  have hcontents : b.contents = blk.byte.read 0 b.len := by simp [contents, hblk]
  refine ⟨h.contents_length.symm, blk, hblk, ?_⟩
  rw [hcontents]
  exact Mem.holds_read _ _ _

theorem CBuffer.Shows.contents_eq {b : CBuffer} (h : b.Shows bs) : b.contents = bs := by
  obtain ⟨blk, hblk, hholds⟩ := h.block
  unfold contents
  rw [hblk, h.len]
  exact hholds

/-- **A record is sent exactly if both blocks pass.** -/
theorem parse_snd {e : ParseEnv} {s : CSession} {req rsp : Block} (hreq : s.reqBuf.buf = some req)
    (hrsp : s.rspBuf.buf = some rsp) (hreq₀ : s.reqBuf.len ≠ 0) (hrsp₀ : s.rspBuf.len ≠ 0) :
    let q := parseRequest B e.method req.byte s.reqBuf.len s.result
    let r := parseResponse B rsp.byte s.rspBuf.len q.out
    (parse B e s).2 = if q.ok && r.ok then some (send { s with result := r.out }) else none := by
  intro q r
  unfold parse
  rw [hreq, hrsp]
  simp only
  rw [if_neg (by simp [hreq₀, hrsp₀])]
  cases hq : q.ok with
  | false => rw [if_pos (by simp)]; rfl
  | true =>
    rw [if_neg (by simp)]
    cases hr : r.ok with
    | false => rw [if_pos (by simp)]; rfl
    | true => rw [if_neg (by simp)]; rfl

end HttpDecoder
