import HttpDecoder.RoundTrip

/-!
# The two thresholds of `Parse`

`Parse` puts a buffer through its stages only when it holds more than ten bytes.

* `RequestParses`, `ResponseParses` — the stages of a message succeed.
* `parseRequest_ok`, `parseResponse_ok` — what the two blocks of `Parse` ask.
* `RequestParses.long`, `ResponseParses.long` — a message of ten bytes never passes its
  stages, so the thresholds let pass what the stages would refuse.
* `parse_sends_iff` — **when `Parse` calls `Send`**.
-/

namespace HttpDecoder

open CLib

/-- `ParseMethodAndUri` and `ParseHeader` succeed on a request. -/
def RequestParses (B : Boost) (und : UInt32) (reqBuf : Mem) (reqLen : Nat) (result : CResult) :
    Prop :=
  let line := parseMethodAndUri B und reqBuf reqLen 0 result
  line.ok = true ∧ (parseHeader reqBuf reqLen line.pos line.out.requestHeader).ok = true

/-- `ParseRspState` and `ParseHeader` succeed on a response. -/
def ResponseParses (B : Boost) (rspBuf : Mem) (rspLen : Nat) (result : CResult) : Prop :=
  let line := parseRspState B rspBuf rspLen 0 result
  line.ok = true ∧ (parseHeader rspBuf rspLen line.pos line.out.responseHeader).ok = true

/-- A block whose start line fails stops there, any other ends as its headers do. -/
theorem block_ok (line : Stage CResult) (ok : Bool) (pos : Nat) (out : CResult)
    (evals : List Nat) : (if ¬ line.ok = true then line else ⟨ok, pos, out, evals⟩).ok = true ↔
      line.ok = true ∧ ok = true := by
  by_cases hline : line.ok = true
  · rw [if_neg (not_not.mpr hline)]
    exact ⟨fun h => ⟨hline, h⟩, fun h => h.2⟩
  · rw [if_pos hline]
    exact iff_of_false hline fun h => hline h.1

/-- A message of up to ten bytes passes as it is, and a longer one as its block ends. -/
theorem guarded_ok (len : Nat) (line : Stage CResult) (ok : Bool) (pos : Nat)
    (out result : CResult) (evals : List Nat) :
    (if len > 10 then if ¬ line.ok = true then line else ⟨ok, pos, out, evals⟩
      else ⟨true, 0, result, []⟩).ok = true ↔ (10 < len → line.ok = true ∧ ok = true) := by
  by_cases hlong : 10 < len
  · rw [if_pos hlong, block_ok]
    exact ⟨fun h _ => h, fun h => h hlong⟩
  · rw [if_neg hlong]
    exact iff_of_true rfl fun h => absurd h hlong

/-- The headers of the request leave the version alone. -/
theorem block_version {line : Stage CResult} (h : line.ok = true) (ok : Bool) (pos : Nat)
    (headers : HeaderMap) (evals : List Nat) : (if ¬ line.ok = true then line else
      ⟨ok, pos, { line.out with requestHeader := headers }, evals⟩).out.version =
        line.out.version := by
  rw [if_neg (not_not.mpr h)]

section Blocks

variable {B : Boost} {und : UInt32} {m : Mem} {len : Nat} {result : CResult}

/-- The first block asks a long request to pass its stages. -/
theorem parseRequest_ok : (parseRequest B und m len result).ok = true ↔
    (10 < len → RequestParses B und m len result) := by
  unfold parseRequest RequestParses
  simp only
  rw [guarded_ok]

/-- The second block asks the same of a long response. -/
theorem parseResponse_ok : (parseResponse B m len result).ok = true ↔
    (10 < len → ResponseParses B m len result) := by
  unfold parseResponse ResponseParses
  simp only
  rw [guarded_ok]

/-- The version the response is compared with: that of a long request, and what `Result`
held otherwise. -/
theorem parseRequest_version (hok : (parseRequest B und m len result).ok = true) :
    (parseRequest B und m len result).out.version =
      if 10 < len then (parseMethodAndUri B und m len 0 result).out.version
      else result.version := by
  by_cases hlong : 10 < len
  · have hline : (parseMethodAndUri B und m len 0 result).ok = true :=
      (parseRequest_ok.mp hok hlong).1
    unfold parseRequest
    rw [if_pos hlong, if_pos hlong]
    simp only
    rw [block_version hline]
  · unfold parseRequest
    rw [if_neg hlong, if_neg hlong]

/-- A version has eight characters. -/
theorem length_of_getVersion {version : Bytes} {ver : UInt32}
    (h : getVersion B version = some ver) : version.length = 8 := by
  unfold getVersion at h
  split at h
  · cases h
  · rename_i hlength
    exact not_not.mp hlength

theorem unread_read (m : Mem) {len : Nat} (h : len < 2 ^ 31) : Unread m len 0 (m.read 0 len) where
  holds := Mem.holds_read m 0 len
  length := by simp
  small := h

/-- A request that passes its stages is longer than ten bytes. -/
theorem RequestParses.long (h : RequestParses B und m len result) : 10 < len := by
  by_contra hshort
  have hunread := unread_read m (show len < 2 ^ 31 by omega)
  have hno : ∀ method url ver rest, ¬ RequestLine B (m.read 0 len) method url ver rest := by
    intro method url ver rest hline
    obtain ⟨version, hbytes, -, hver⟩ := hline.text
    have hlength := congrArg List.length hbytes
    have height := length_of_getVersion hver
    simp only [Mem.length_read, List.length_append, List.length_cons] at hlength
    omega
  have hrefused := (parseMethodAndUri_none und hunread hno result).1
  rw [h.1] at hrefused
  cases hrefused

/-- So is a response. -/
theorem ResponseParses.long (h : ResponseParses B m len result) : 10 < len := by
  by_contra hshort
  have hunread := unread_read m (show len < 2 ^ 31 by omega)
  by_cases hstart : ∃ num tail, StatusStart B result.version (m.read 0 len) num tail
  · -- the version and the two spaces leave nothing for the line end
    obtain ⟨num, tail, hstart⟩ := hstart
    obtain ⟨version, code, hbytes, -, -, hver, -⟩ := hstart.text
    have hlength := congrArg List.length hbytes
    have height := length_of_getVersion hver
    simp only [Mem.length_read, List.length_append, List.length_cons] at hlength
    have htail : tail = [] := List.eq_nil_of_length_eq_zero (by omega)
    obtain ⟨pos, evals, hrest, -, hline⟩ := parseRspState_start hunread hstart
    rw [hrest.getBufAt_noCrlf (by rw [htail]; decide) (by rw [htail]; simp)] at hline
    have hok := h.1
    rw [hline] at hok
    cases hok
  · have hrefused := (parseRspState_none hunread fun num tail hs => hstart ⟨num, tail, hs⟩).1
    rw [h.1] at hrefused
    cases hrefused

end Blocks

/-- **When `Parse` calls `Send`.**  For every session: when both buffers are there and not
empty, a request of more than ten bytes passes its stages, and a response of more than
ten bytes passes its own with the version that the request left in `Result` (its own, or
what was there before if it was too short to be parsed).  A message of up to ten bytes
would never pass its stages; it is not put through them. -/
theorem parse_sends_iff (B : Boost) (e : ParseEnv) (s : CSession) :
    ((parse B e s).2 ≠ none ↔ ∃ req rsp, s.reqBuf.buf = some req ∧ s.rspBuf.buf = some rsp ∧
      s.reqBuf.len ≠ 0 ∧ s.rspBuf.len ≠ 0 ∧
      (10 < s.reqBuf.len → RequestParses B e.method req.byte s.reqBuf.len s.result) ∧
      (10 < s.rspBuf.len → ResponseParses B rsp.byte s.rspBuf.len
        (parseRequest B e.method req.byte s.reqBuf.len s.result).out)) ∧
    (∀ req, (parseRequest B e.method req s.reqBuf.len s.result).ok = true →
      (parseRequest B e.method req s.reqBuf.len s.result).out.version =
        if 10 < s.reqBuf.len then
          (parseMethodAndUri B e.method req s.reqBuf.len 0 s.result).out.version
        else s.result.version) ∧
    (∀ m len result, len ≤ 10 → ¬ RequestParses B e.method m len result ∧
      ¬ ResponseParses B m len result) := by
  refine ⟨?_, fun req hok => parseRequest_version hok,
    fun m len result hshort => ⟨fun h => not_lt.mpr hshort h.long,
      fun h => not_lt.mpr hshort h.long⟩⟩
  constructor
  · intro hsent
    obtain ⟨hreq₀, hrsp₀⟩ := len_of_sent hsent
    cases hreq : s.reqBuf.buf with
    | none =>
      unfold parse at hsent
      rw [hreq] at hsent
      exact absurd rfl hsent
    | some req =>
      cases hrsp : s.rspBuf.buf with
      | none =>
        unfold parse at hsent
        rw [hreq, hrsp] at hsent
        exact absurd rfl hsent
      | some rsp =>
        rw [parse_snd hreq hrsp hreq₀ hrsp₀] at hsent
        split at hsent
        · rename_i hboth
          obtain ⟨hreqOk, hrspOk⟩ := (Bool.and_eq_true _ _).mp hboth
          exact ⟨req, rsp, rfl, rfl, hreq₀, hrsp₀, parseRequest_ok.mp hreqOk,
            parseResponse_ok.mp hrspOk⟩
        · exact absurd rfl hsent
  · rintro ⟨req, rsp, hreq, hrsp, hreq₀, hrsp₀, hreqOk, hrspOk⟩
    rw [parse_snd hreq hrsp hreq₀ hrsp₀, parseRequest_ok.mpr hreqOk, parseResponse_ok.mpr hrspOk]
    simp

/-! ## Messages of one byte -/

/-- A session that shows `A` and `B`. -/
def shortSession : CSession := { blankSes 0 with reqBuf := bufOf [65], rspBuf := bufOf [66] }

/-- It is sent, though no stage accepts either. -/
theorem sends_short : (parse Boost.decimal ⟨0, SesAlloc.granting⟩ shortSession).2 ≠ none ∧
    ¬ RequestParses Boost.decimal 0 (memOf [65]) 1 shortSession.result ∧
    ¬ ResponseParses Boost.decimal (memOf [66]) 1 shortSession.result := by
  refine ⟨?_, fun h => absurd h.long (by decide), fun h => absurd h.long (by decide)⟩
  have hsent : (parse Boost.decimal ⟨0, SesAlloc.granting⟩ shortSession).2.isSome = true := by
    decide +kernel
  intro hnone
  rw [hnone] at hsent
  cases hsent

end HttpDecoder
