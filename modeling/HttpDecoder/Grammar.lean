import HttpDecoder.Delimiter

/-!
# The messages the parser reads

The two start lines and the header block as languages of byte strings.  They speak of
bytes and of the conversions only, not of memory or cursors.

* `RequestLine`, `StatusStart` — a start line in front of what follows it.
* `HeaderLines` — header lines in front of what follows them.
* `Blank`, `Stuck` — what can follow: an empty line, or nothing the parser can go on
  with.  The third possibility, a single CR at the end of the buffer, is the one the
  parser cannot tell from an empty line.
* `exists_headerLines` — these are all.
-/

namespace HttpDecoder

open CLib

/-! ## Start lines -/

/-- `bs` is a request line followed by `rest`. -/
structure RequestLine (B : Boost) (bs method url : Bytes) (ver : UInt32) (rest : Bytes) :
    Prop where
  text : ∃ version, bs = method ++ sp :: (url ++ sp :: (version ++ lf :: rest)) ∧ lf ∉ version ∧
    getVersion B version = some ver
  /-- The method ends at the first space. -/
  method : sp ∉ method
  /-- The url ends at the next one. -/
  url : sp ∉ url

/-- `bs` is the version and the code of a status line followed by `tail`, the version
being that of the request. -/
structure StatusStart (B : Boost) (ver : UInt32) (bs : Bytes) (num : UInt32) (tail : Bytes) :
    Prop where
  text : ∃ version code, bs = version ++ sp :: (code ++ sp :: tail) ∧ sp ∉ version ∧ sp ∉ code ∧
    getVersion B version = some ver ∧ B.castUInt32 code = some num

/-- `tail` is the reason of a status line with its line end, followed by `rest`. -/
structure Reason (tail reason rest : Bytes) : Prop where
  bytes : tail = reason ++ cr :: lf :: rest
  /-- The reason ends at the first line end. -/
  noCrlf : ¬ crlf <:+: reason

/-- `tail` is a reason that is cut off between the CR and the LF of its line end. -/
structure ReasonCut (tail reason : Bytes) : Prop where
  bytes : tail = reason ++ [cr]
  noCrlf : ¬ crlf <:+: reason

/-- A reason is complete, cut off or without an end. -/
theorem reason_cases (tail : Bytes) : (∃ reason rest, Reason tail reason rest) ∨
    (∃ reason, ReasonCut tail reason) ∨ (¬ crlf <:+: tail ∧ tail.getLast? ≠ some cr) := by
  by_cases hin : crlf <:+: tail
  · obtain ⟨reason, rest, hbytes, hno⟩ := exists_first_pair hin
    exact Or.inl ⟨reason, rest, hbytes, hno⟩
  · right
    by_cases hlast : tail.getLast? = some cr
    · obtain ⟨reason, hbytes⟩ := List.getLast?_eq_some_iff.mp hlast
      refine Or.inl ⟨reason, hbytes, fun hno => hin ?_⟩
      rw [hbytes]
      exact hno.trans (List.prefix_append reason [cr]).isInfix
    · exact Or.inr ⟨hin, hlast⟩

/-! ## Header blocks -/

/-- An empty line is next: LF or CR LF. -/
def Blank (bs : Bytes) : Prop := [lf] <+: bs ∨ crlf <+: bs

instance (bs : Bytes) : Decidable (Blank bs) := by unfold Blank; infer_instance

/-- `bs` is one header line followed by `rest`. -/
structure HeaderLine (key value bs rest : Bytes) : Prop where
  bytes : bs = key ++ colon :: (value ++ lf :: rest)
  /-- The name ends at the first colon. -/
  key : colon ∉ key
  /-- The value ends at the next LF. -/
  value : lf ∉ value
  /-- It is not an empty line. -/
  notBlank : ¬ Blank bs

/-- `HeaderLines hs bs rest`: `bs` is the header lines `hs` followed by `rest`. -/
inductive HeaderLines : List (Bytes × Bytes) → Bytes → Bytes → Prop
  | nil (rest) : HeaderLines [] rest rest
  | cons {key value bs mid hs rest} : HeaderLine key value bs mid → HeaderLines hs mid rest →
      HeaderLines ((key, value) :: hs) bs rest

/-- Neither an empty line, nor a CR that may be the half of one, nor a header line. -/
structure Stuck (bs : Bytes) : Prop where
  /-- Not an empty line. -/
  notBlank : ¬ Blank bs
  /-- Not a cut one. -/
  notCut : bs ≠ [cr]
  /-- Not a header line. -/
  noLine : ∀ key value rest, ¬ HeaderLine key value bs rest

theorem HeaderLine.length_lt {key value bs rest : Bytes} (h : HeaderLine key value bs rest) :
    rest.length < bs.length := by
  rw [h.bytes]
  simp
  omega

/-- **Every byte string is header lines followed by an empty line, by a single CR or by
something that stops the parser.** -/
theorem exists_headerLines (bs : Bytes) :
    ∃ hs rest, HeaderLines hs bs rest ∧ (Blank rest ∨ rest = [cr] ∨ Stuck rest) := by
  by_cases hblank : Blank bs
  · exact ⟨[], bs, .nil bs, Or.inl hblank⟩
  by_cases hcut : bs = [cr]
  · exact ⟨[], bs, .nil bs, Or.inr (Or.inl hcut)⟩
  by_cases hline : ∃ key value rest, HeaderLine key value bs rest
  · obtain ⟨key, value, mid, hline⟩ := hline
    have hlt := hline.length_lt
    obtain ⟨hs, rest, hlines, hend⟩ := exists_headerLines mid
    exact ⟨(key, value) :: hs, rest, .cons hline hlines, hend⟩
  · refine ⟨[], bs, .nil bs, Or.inr (Or.inr ⟨hblank, hcut, fun key value rest h => ?_⟩)⟩
    exact hline ⟨key, value, rest, h⟩
termination_by bs.length

/-- A header block: header lines and the empty line that ends them. -/
def HeaderBlock (bs : Bytes) : Prop := ∃ hs rest, HeaderLines hs bs rest ∧ Blank rest

/-- Header lines and the first half of an empty line, where the buffer ends. -/
def HeaderCut (bs : Bytes) : Prop := ∃ hs, HeaderLines hs bs [cr]

end HttpDecoder
