import HttpDecoder.Conservation
import HttpDecoder.Lib.File

/-!
# The driver: `AppMain.cpp`

The read loop of `main`, which `http_parser::start` repeats.  One frame after the other is
read into the array `tmp1`, in three pieces, and given to `Receiver::Work`.  No result of
`fread` is looked at; the loop ends when `feof` answers true before an iteration.

* `readFrame` — one iteration.
* `readLoop` — the iterations of the loop, with `readLoop_eq`, its unfolding.
* `workCalls`, `runCapture` — the calls of `Work`, and what they leave.
-/

namespace HttpDecoder

open CLib CHandle

/-- `ETHERTYPE_IP`. -/
def ethertypeIp : UInt16 := 0x0800

/-- `ETHERTYPE_IPV6`. -/
def ethertypeIpv6 : UInt16 := 0x86dd

/-- One iteration of the read loop. -/
structure Iteration where
  start : CFile
  /-- The array it leaves. -/
  tmp1 : Mem
  /-- The file it leaves. -/
  file : CFile
  /-- `rcv.Work(head,fs)` is reached. -/
  work : Bool

/-- `ntohs(m_pEthhdr->ether_type)==ETHERTYPE_IP`. -/
def isIpv4 (head : Mem) : Bool := decide (ntohs (ld16 head 12) = ethertypeIp)

/-- `m_pEthhdr->ether_type==ETHERTYPE_IPV6`. -/
def isIpv6 (head : Mem) : Bool := decide (ld16 head 12 = ethertypeIpv6)

/-- The body of the read loop. -/
def readFrame (tmp1 : Mem) (f : CFile) : Iteration :=
  let head := f.fread tmp1 0 14
  if isIpv4 head.1 then
    let iphead := head.2.fread head.1 14 20
    let len := ntohs (ld16 iphead.1 16)
    -- `len-20` is an `int` and the parameter a `size_t`
    let ip4packet := iphead.2.fread iphead.1 34 (sizeT (len.toNat - 20))
    ⟨f, ip4packet.1, ip4packet.2, true⟩
  else if isIpv6 head.1 then
    let iphead := head.2.fread head.1 14 40
    let len := ntohs (ld16 iphead.1 18)
    let ip6packet := iphead.2.fread iphead.1 54 len.toNat
    ⟨f, ip6packet.1, ip6packet.2, true⟩
  else ⟨f, head.1, head.2, false⟩

/-- At most `n` iterations of the read loop. -/
def iterations : Nat → Mem → CFile → List Iteration
  | 0, _, _ => []
  | n + 1, tmp1, f =>
    if f.eof then []
    else
      let it := readFrame tmp1 f
      it :: iterations n it.tmp1 it.file

/-- The read loop: no more than one iteration for each byte and one for the end. -/
def readLoop (tmp1 : Mem) (f : CFile) : List Iteration := iterations (f.rest.length + 1) tmp1 f

/-- The arrays given to `Receiver::Work` for a file, `tmp1` being the array before. -/
def workCalls (tmp1 : Mem) (file : Bytes) : List Mem :=
  (readLoop tmp1 ⟨file, false⟩).filterMap fun it => if it.work then some it.tmp1 else none

/-- The packets formatted by the calls of `Work`, `supply` giving the time and the
environment of each. -/
def arrivals (supply : Nat → TimeVal × Env) (msgs : List Mem) : List Arrival :=
  msgs.mapIdx fun i msg => ⟨CFormatPacket.format msg (supply i).1, (supply i).2⟩

/-- The handle when the read loop has ended, `now` being the time of `Init`. -/
def runCapture (B : Boost) (ses : Nat → CSession) (now : Int) (supply : Nat → TimeVal × Env)
    (tmp1 : Mem) (file : Bytes) : CHandle :=
  ((handleMachine B).run (CHandle.init ses now)
    ((arrivals supply (workCalls tmp1 file)).map Arrival.call)).1

/-! ## The loop ends -/

/-- Later reads of an iteration leave no more than the first one. -/
theorem readFrame_rest_le (tmp1 : Mem) (f : CFile) :
    (readFrame tmp1 f).file.rest.length ≤ (f.fread tmp1 0 14).2.rest.length ∧
      ((f.fread tmp1 0 14).2.eof = true → (readFrame tmp1 f).file.eof = true) := by
  unfold readFrame
  generalize f.fread tmp1 0 14 = head
  simp only
  split
  · exact ⟨(CFile.length_fread_le ..).trans (CFile.length_fread_le ..),
      fun h => CFile.eof_fread _ _ (CFile.eof_fread _ _ h _) _⟩
  split
  · exact ⟨(CFile.length_fread_le ..).trans (CFile.length_fread_le ..),
      fun h => CFile.eof_fread _ _ (CFile.eof_fread _ _ h _) _⟩
  · exact ⟨le_refl _, id⟩

@[simp] theorem readFrame_start (tmp1 : Mem) (f : CFile) : (readFrame tmp1 f).start = f := by
  unfold readFrame
  simp only
  split_ifs <;> rfl

/-- Every iteration reads something or notices the end. -/
theorem left_readFrame_lt (tmp1 : Mem) {f : CFile} (h : f.eof = false) :
    (readFrame tmp1 f).file.left < f.left := by
  have hleft := CFile.left_of_not_eof h
  obtain ⟨hrest, heof⟩ := readFrame_rest_le tmp1 f
  by_cases hshort : f.rest.length < 14
  · rw [CFile.left_of_eof (heof (by rw [CFile.fread_short _ _ hshort])), hleft]
    omega
  · have hhead := CFile.length_fread tmp1 0 (not_lt.mp hshort)
    have hle := CFile.left_le (readFrame tmp1 f).file
    omega

/-- After the end of the file was noticed there is no iteration. -/
theorem iterations_of_eof {f : CFile} (h : f.eof = true) (n : Nat) (tmp1 : Mem) :
    iterations n tmp1 f = [] := by
  cases n with
  | zero => rfl
  | succ n => exact if_pos h

theorem iterations_succ {f : CFile} (h : f.eof = false) (n : Nat) (tmp1 : Mem) :
    iterations (n + 1) tmp1 f = readFrame tmp1 f ::
      iterations n (readFrame tmp1 f).tmp1 (readFrame tmp1 f).file :=
  if_neg (by simp [h])

/-- More iterations than are left to do change nothing. -/
theorem iterations_eq (n : Nat) : ∀ (n' : Nat) (tmp1 : Mem) (f : CFile), f.left ≤ n →
    f.left ≤ n' → iterations n tmp1 f = iterations n' tmp1 f := by
  have hzero : ∀ f : CFile, f.left ≤ 0 → f.eof = true := by
    intro f h
    cases heof : f.eof with
    | true => rfl
    | false =>
      have hleft := CFile.left_of_not_eof heof
      omega
  induction n with
  | zero =>
    intro n' tmp1 f h _
    rw [iterations_of_eof (hzero f h), iterations_of_eof (hzero f h)]
  | succ n ih =>
    intro n' tmp1 f h h'
    cases heof : f.eof with
    | true => rw [iterations_of_eof heof, iterations_of_eof heof]
    | false =>
      have hlt := left_readFrame_lt tmp1 heof
      cases n' with
      | zero =>
        rw [hzero f h'] at heof
        exact absurd heof (by simp)
      | succ n' =>
        rw [iterations_succ heof, iterations_succ heof, ih n' _ _ (by omega) (by omega)]

/-- **The read loop ends, and unfolds as a loop does.** -/
theorem readLoop_eq (tmp1 : Mem) (f : CFile) : readLoop tmp1 f =
    if f.eof then []
    else readFrame tmp1 f :: readLoop (readFrame tmp1 f).tmp1 (readFrame tmp1 f).file := by
  cases heof : f.eof with
  | true =>
    rw [if_pos rfl]
    exact iterations_of_eof heof ..
  | false =>
    rw [if_neg (by simp)]
    have hlt := left_readFrame_lt tmp1 heof
    have hleft := CFile.left_of_not_eof heof
    refine (iterations_succ heof ..).trans (congrArg _ ?_)
    exact iterations_eq _ _ _ _ (by omega) (CFile.left_le _)

end HttpDecoder
