import HttpDecoder.Stages
import HttpDecoder.Segment

/-!
# Request lines that end in CR LF

`ParseMethodAndUri` cuts the version off at the LF and its comment says that it then
skips the CR LF.  The CR stays in the version, and `GetVersion` wants eight characters.

* `DecodesHead` — a request line is decoded.
* `not_decodesHead_crlf` — **no request line that ends in CR LF is**.
* `decodesHead_lf` — the same line with LF alone is.
-/

namespace HttpDecoder

open CLib

/-- The versions and their codes. -/
def versionCodes : List (Bytes × UInt32) :=
  [(httpSlash ++ ascii ['0', '.', '9'], 9), (httpSlash ++ ascii ['1', '.', '0'], 10),
    (httpSlash ++ ascii ['1', '.', '1'], 11)]

/-- What is assumed of `lexical_cast<float>` and the multiplication by 10: the three
versions give 9, 10 and 11. -/
def Boost.CastsVersions (B : Boost) : Prop :=
  ∀ v ∈ versionCodes, (B.castFloat (v.1.drop 5)).map B.timesTen = some v.2

/-- `method SP url SP version eol rest`. -/
def requestHead (method url version eol rest : Bytes) : Bytes :=
  method ++ sp :: (url ++ sp :: (version ++ eol ++ rest))

/-- The request line is decoded: `true` is returned, the result holds the code of the
method, the url and the code of the version, and the cursor stands at `pos`. -/
structure DecodesHead (q : Stage CResult) (method : UInt32) (url : Bytes) (version : UInt32)
    (pos : Nat) : Prop where
  ok : q.ok = true
  method : q.out.method = method
  url : q.out.url = url
  version : q.out.version = version
  pos : q.pos = pos

/-! ## Names and versions -/

/-- No method name has a space in it. -/
theorem sp_notMem_method : ∀ m ∈ methodCodes, sp ∉ m.1 := by decide

/-- The code of a known method. -/
theorem getMethod_of_mem (und : UInt32) {m : Bytes × UInt32} (hm : m ∈ methodCodes) :
    getMethod und m.1 = m.2 := by
  have hfind : ∀ m ∈ methodCodes, methodCodes.find? (fun x => m.1 = x.1) = some m := by decide
  unfold getMethod
  rw [hfind m hm]

/-- No version has an LF or a space in it, and each is eight characters long. -/
theorem version_shape : ∀ v ∈ versionCodes,
    lf ∉ v.1 ∧ sp ∉ v.1 ∧ v.1.length = 8 ∧ httpSlash <:+: v.1 := by decide

/-- The code of a version. -/
theorem getVersion_of_mem {B : Boost} (hB : B.CastsVersions) {v : Bytes × UInt32}
    (hv : v ∈ versionCodes) : getVersion B v.1 = some v.2 := by
  obtain ⟨-, -, hlength, hslash⟩ := version_shape v hv
  unfold getVersion
  rw [if_neg (by simpa using hlength), if_neg (by simpa using hslash),
    List.take_of_length_le (by simp [hlength])]
  exact hB v hv

/-- With the CR it is no version. -/
theorem getVersion_cr (B : Boost) {v : Bytes × UInt32} (hv : v ∈ versionCodes) :
    getVersion B (v.1 ++ [cr]) = none := by
  obtain ⟨-, -, hlength, -⟩ := version_shape v hv
  unfold getVersion
  rw [if_pos (by simp [hlength])]

/-! ## Both line ends -/

section LineEnds

variable {B : Boost} {und : UInt32} {pBuf : Mem} {len : Nat} {result : CResult}
  {m v : Bytes × UInt32} {url rest : Bytes}

/-- **No request line that ends in CR LF is decoded**, whatever the method, the url, the
version and the bytes behind it. -/
theorem not_decodesHead_crlf (hm : m ∈ methodCodes) (hv : v ∈ versionCodes) (hsp : sp ∉ url)
    (h : Unread pBuf len 0 (requestHead m.1 url v.1 crlf rest)) (pos : Nat) :
    ¬ DecodesHead (parseMethodAndUri B und pBuf len 0 result) m.2 url v.2 pos := by
  obtain ⟨hlf, -⟩ := version_shape v hv
  have hbytes : requestHead m.1 url v.1 crlf rest =
      m.1 ++ sp :: (url ++ sp :: ((v.1 ++ [cr]) ++ lf :: rest)) := by
    simp [requestHead, crlf]
  have hcr : lf ∉ v.1 ++ [cr] := by
    rw [List.mem_append, not_or]
    exact ⟨hlf, by decide⟩
  rw [hbytes] at h
  obtain ⟨pos', evals, -, -, hparse⟩ :=
    parseMethodAndUri_text B und h (sp_notMem_method m hm) hsp hcr result
  rw [getVersion_cr B hv] at hparse
  intro hdecodes
  have hok := hdecodes.ok
  rw [hparse] at hok
  exact absurd hok (by simp)

/-- The same request line with LF alone is decoded. -/
theorem decodesHead_lf (hB : B.CastsVersions) (hm : m ∈ methodCodes) (hv : v ∈ versionCodes)
    (hsp : sp ∉ url) (h : Unread pBuf len 0 (requestHead m.1 url v.1 [lf] rest))
    (hempty : result.url = []) :
    DecodesHead (parseMethodAndUri B und pBuf len 0 result) m.2 url v.2 (len - rest.length) := by
  obtain ⟨hlf, -⟩ := version_shape v hv
  have hbytes : requestHead m.1 url v.1 [lf] rest =
      m.1 ++ sp :: (url ++ sp :: (v.1 ++ lf :: rest)) := by
    simp [requestHead]
  rw [hbytes] at h
  obtain ⟨pos', evals, hrest, -, hparse⟩ :=
    parseMethodAndUri_text B und h (sp_notMem_method m hm) hsp hlf result
  have hlength := hrest.length
  rw [hparse, getVersion_of_mem hB hv]
  refine ⟨rfl, getMethod_of_mem und hm, by simp [hempty], rfl, ?_⟩
  show pos' = len - rest.length
  omega

end LineEnds

/-! ## One request -/

/-- The memory that holds the bytes, with zeros behind them. -/
def memOf (bs : Bytes) : Mem := fun i => bs.getD i 0

theorem unread_memOf {bs : Bytes} (h : bs.length < 2 ^ 31) :
    Unread (memOf bs) bs.length 0 bs := by
  refine ⟨Mem.holds_iff_get.mpr fun i hi => ?_, Nat.zero_add _, h⟩
  rw [memOf, Nat.zero_add, List.getD_eq_getElem _ _ hi]

theorem Boost.decimal_castsVersions : Boost.decimal.CastsVersions := by
  unfold Boost.CastsVersions
  decide +kernel

/-- `GET / HTTP/1.1` with a line end. -/
def getRoot (eol : Bytes) : Bytes :=
  requestHead (ascii ['G', 'E', 'T']) [47] (httpSlash ++ ascii ['1', '.', '1']) eol []

theorem not_decodesHead_crlf_getRoot :
    ¬ DecodesHead (parseMethodAndUri Boost.decimal 0 (memOf (getRoot crlf)) 16 0 CResult.reset)
      1 [47] 11 16 :=
  not_decodesHead_crlf (m := (ascii ['G', 'E', 'T'], 1))
    (v := (httpSlash ++ ascii ['1', '.', '1'], 11)) (by decide) (by decide) (by decide)
    (unread_memOf (show (getRoot crlf).length < 2 ^ 31 by decide)) 16

theorem getRoot_refused :
    Boost.decimal.CastsVersions ∧
    ¬ DecodesHead (parseMethodAndUri Boost.decimal 0 (memOf (getRoot crlf)) 16 0 CResult.reset)
      1 [47] 11 16 ∧
    (parseMethodAndUri Boost.decimal 0 (memOf (getRoot crlf)) 16 0 CResult.reset).ok = false ∧
    (parseMethodAndUri Boost.decimal 0 (memOf (getRoot [lf])) 15 0 CResult.reset).ok = true := by
  have hok : (parseMethodAndUri Boost.decimal 0 (memOf (getRoot crlf)) 16 0 CResult.reset).ok =
      false := by decide +kernel
  refine ⟨Boost.decimal_castsVersions, fun h => ?_, hok, by decide +kernel⟩
  have htrue := h.ok
  rw [hok] at htrue
  exact absurd htrue (by simp)

end HttpDecoder
