import HttpDecoder.Capture
import HttpDecoder.Lib.Loop
import HttpDecoder.ResponseTally

/-!
# The closing dump

After the read loop `main` asks `fs->RspBuf` for its bytes and their number, `length`, and
prints as many bytes as `len` says, a field of the last frame it read.

* `Main` — the variables of `main` that outlive an iteration; `mainEnd` — what they are when
  the read loop has ended (`mainEnd_eof`); `mainEnd_returns` — **the read loop ends** with them,
  after at most one iteration for each byte of the file and two more.
* `mainEnd_eq` — they are told by the calls of `Work`: `len` by the last one (`lastLength`),
  the handle as `runCapture` has it, and `fs` by all.
* `Main.dumped` — the indices at which the closing loop reads.
* `dumpsResponse_iff` — **when it reads the response and nothing else**: when the length field
  of the last frame is the number of bytes filed in `fs` since it was last parsed.
-/

namespace HttpDecoder

open CLib CHandle

/-! ## The variables of `main` -/

/-- The variables of `main` that outlive an iteration of the read loop. -/
structure Main where
  tmp1 : Mem
  f : CFile
  len : UInt16
  /-- The handle inside `rcv`. -/
  rcv : CHandle
  /-- `fs`, `none` being the session that `main` makes for it. -/
  fs : Option Nat

/-- What an iteration leaves in `len`. -/
def lenAfter (tmp1 : Mem) (f : CFile) (len : UInt16) : UInt16 :=
  let head := f.fread tmp1 0 14
  if isIpv4 head.1 then
    let iphead := head.2.fread head.1 14 20
    ntohs (ld16 iphead.1 16)
  else if isIpv6 head.1 then
    let iphead := head.2.fread head.1 14 40
    ntohs (ld16 iphead.1 18)
  else len

namespace Main

/-- The body of the read loop, with the time and the environment of the call of `Work`. -/
def iterate (B : Boost) (d : Main) (now : TimeVal) (e : Env) : Main :=
  let it := readFrame d.tmp1 d.f
  let len := lenAfter d.tmp1 d.f d.len
  if it.work then
    let r := handleMessage B d.rcv (some it.tmp1) now e
    ⟨it.tmp1, it.file, len, r.handle, r.sesp.or d.fs⟩
  else ⟨it.tmp1, it.file, len, d.rcv, d.fs⟩

/-- At most `n` iterations of the read loop, `supply` giving the time and the environment of
each call of `Work`. -/
def loop (B : Boost) : (Nat → TimeVal × Env) → Nat → Main → Main
  | _, 0, d => d
  | supply, n + 1, d =>
    if d.f.eof then d
    else
      loop B (if (readFrame d.tmp1 d.f).work then fun i => supply (i + 1) else supply) n
        (d.iterate B (supply 0).1 (supply 0).2)

/-- `fs->RspBuf`, `first` being that of the session that `main` makes. -/
def rspBuf (first : CBuffer) (d : Main) : CBuffer :=
  match d.fs with
  | none => first
  | some a => (d.rcv.sesHash.ses a).rspBuf

/-- The indices at which the closing loop, `for(int i=0;i<len;i++)`, reads through `rsp`. -/
def dumped (d : Main) : List Nat := List.range d.len.toNat

/-- The closing loop reads at every index below the length that `GetBuf` reports, and at no
other. -/
def DumpsResponse (first : CBuffer) (d : Main) : Prop :=
  (∀ i ∈ d.dumped, i < (d.rspBuf first).len) ∧ ∀ i < (d.rspBuf first).len, i ∈ d.dumped

end Main

/-- The response buffer of `new CSession()`. -/
def newRspBuf (e : NewSession) : CBuffer := (CBuffer.new e.bufs.rsp).reset e.reset.rsp

/-- The variables when the read loop has ended, `len` being what the memory of that variable
held, `tmp1` what the array held and `now` the time of `Init`. -/
def mainEnd (B : Boost) (ses : Nat → CSession) (now : Int) (len : UInt16)
    (supply : Nat → TimeVal × Env) (tmp1 : Mem) (file : Bytes) : Main :=
  Main.loop B supply (file.length + 1) ⟨tmp1, ⟨file, false⟩, len, CHandle.init ses now, none⟩

/-! ## What the calls of `Work` tell -/

/-- The length field of a frame given to `Work`. -/
def lengthField (msg : Mem) : UInt16 :=
  if isIpv4 msg then ntohs (ld16 msg 16) else ntohs (ld16 msg 18)

/-- The length field of the last frame given to `Work`, and `len` if there is none. -/
def lastLength (tmp1 : Mem) (file : Bytes) (len : UInt16) : UInt16 :=
  ((workCalls tmp1 file).getLast?.map lengthField).getD len

/-- A read at an offset leaves the fields before it. -/
theorem ld16_fread (f : CFile) (m : Mem) {off i : Nat} (h : i + 2 ≤ off) (size : Nat) :
    ld16 (f.fread m off size).1 i = ld16 m i := by
  unfold ld16
  rw [CFile.fread_fst, Mem.store_of_lt m _ (show i < off by omega),
    Mem.store_of_lt m _ (show i + 1 < off by omega)]

/-- `len` is the length field of the frame, if there is one. -/
theorem lenAfter_eq (tmp1 : Mem) (f : CFile) (len : UInt16) : lenAfter tmp1 f len =
    if (readFrame tmp1 f).work then lengthField (readFrame tmp1 f).tmp1 else len := by
  have htype : ∀ (g : CFile) (m : Mem) {off : Nat} (h : 14 ≤ off) (size : Nat),
      isIpv4 (g.fread m off size).1 = isIpv4 m := by
    intro g m off h size
    unfold isIpv4
    rw [ld16_fread g m h]
  unfold lenAfter readFrame
  generalize f.fread tmp1 0 14 = head
  simp only
  by_cases hipv4 : isIpv4 head.1
  · have hkept : ∀ size, isIpv4 ((head.2.fread head.1 14 20).2.fread
        (head.2.fread head.1 14 20).1 34 size).1 = true := by
      intro size
      rw [htype _ _ (show 14 ≤ 34 by omega), htype _ _ (le_refl 14), hipv4]
    simp only [if_pos hipv4]
    rw [if_pos trivial, lengthField, if_pos (hkept _),
      ld16_fread _ _ (show 16 + 2 ≤ 34 by omega)]
  · by_cases hipv6 : isIpv6 head.1
    · have hkept : ∀ size, ¬ isIpv4 ((head.2.fread head.1 14 40).2.fread
          (head.2.fread head.1 14 40).1 54 size).1 = true := by
        intro size
        rw [htype _ _ (show 14 ≤ 54 by omega), htype _ _ (le_refl 14)]
        exact hipv4
      simp only [if_neg hipv4, if_pos hipv6]
      rw [if_pos trivial, lengthField, if_neg (hkept _),
        ld16_fread _ _ (show 18 + 2 ≤ 54 by omega)]
    · simp only [if_neg hipv4, if_neg hipv6]
      rw [if_neg (by simp)]

/-- The last of a list told by its first: the default is replaced. -/
theorem getLast?_cons_getD {α β : Type} (g : α → β) (a : α) (l : List α) (d : β) :
    ((a :: l).getLast?.map g).getD d = (l.getLast?.map g).getD (g a) := by
  rw [List.getLast?_cons]
  cases l.getLast? with
  | none => rfl
  | some b => rfl

theorem worksOf_cons (it : Iteration) (its : List Iteration) : worksOf (it :: its) =
    if it.work then it.tmp1 :: worksOf its else worksOf its := by
  unfold worksOf
  rw [List.filterMap_cons]
  cases it.work <;> rfl

theorem arrivals_cons (supply : Nat → TimeVal × Env) (msg : Mem) (msgs : List Mem) :
    arrivals supply (msg :: msgs) =
      ⟨CFormatPacket.format msg (supply 0).1, (supply 0).2⟩ ::
        arrivals (fun i => supply (i + 1)) msgs := List.mapIdx_cons

namespace Main

variable (B : Boost)

/-- The array and the file after an iteration. -/
theorem iterate_file (d : Main) (now : TimeVal) (e : Env) :
    (d.iterate B now e).tmp1 = (readFrame d.tmp1 d.f).tmp1 ∧
      (d.iterate B now e).f = (readFrame d.tmp1 d.f).file := by
  unfold iterate
  simp only
  split <;> exact ⟨rfl, rfl⟩

/-- An iteration that calls `Work`. -/
theorem iterate_of_work {d : Main} (h : (readFrame d.tmp1 d.f).work = true) (now : TimeVal)
    (e : Env) :
    let x : Arrival := ⟨CFormatPacket.format (readFrame d.tmp1 d.f).tmp1 now, e⟩
    (d.iterate B now e).len = lengthField (readFrame d.tmp1 d.f).tmp1 ∧
      (d.iterate B now e).rcv = (d.rcv.process B x.call).handle ∧
      (d.iterate B now e).fs = (d.rcv.process B x.call).sesp.or d.fs := by
  have hlen := lenAfter_eq d.tmp1 d.f d.len
  rw [if_pos h] at hlen
  unfold iterate
  simp only [if_pos h]
  exact ⟨hlen, rfl, rfl⟩

/-- One that does not. -/
theorem iterate_of_not_work {d : Main} (h : (readFrame d.tmp1 d.f).work = false) (now : TimeVal)
    (e : Env) : (d.iterate B now e).len = d.len ∧ (d.iterate B now e).rcv = d.rcv ∧
      (d.iterate B now e).fs = d.fs := by
  have hnot : ¬ (readFrame d.tmp1 d.f).work = true := by simp [h]
  have hlen := lenAfter_eq d.tmp1 d.f d.len
  rw [if_neg hnot] at hlen
  unfold iterate
  rw [if_neg hnot]
  exact ⟨hlen, rfl, rfl⟩

/-- **The read loop ends.** -/
theorem eof_loop (n : Nat) : ∀ (supply : Nat → TimeVal × Env) (d : Main), d.f.left ≤ n →
    (loop B supply n d).f.eof = true := by
  induction n with
  | zero =>
    intro supply d h
    by_contra heof
    have hleft := CFile.left_of_not_eof (Bool.eq_false_iff.mpr heof)
    exact absurd h (by rw [show (loop B supply 0 d).f = d.f from rfl] at hleft; omega)
  | succ n ih =>
    intro supply d h
    unfold loop
    by_cases heof : d.f.eof = true
    · rw [if_pos heof]
      exact heof
    · rw [if_neg heof]
      apply ih
      have hlt := left_readFrame_lt d.tmp1 (Bool.eq_false_iff.mpr heof)
      rw [(iterate_file B d _ _).2]
      omega

/-- What the iterations of the loop leave in `len`, in the handle and in `fs`. -/
theorem loop_eq (n : Nat) : ∀ (supply : Nat → TimeVal × Env) (d : Main),
    let msgs := worksOf (iterations n d.tmp1 d.f)
    let xs := arrivals supply msgs
    (loop B supply n d).len = (msgs.getLast?.map lengthField).getD d.len ∧
      (loop B supply n d).rcv = ((handleMachine B).run d.rcv (xs.map Arrival.call)).1 ∧
      (loop B supply n d).fs = sespBy B d.rcv d.fs xs := by
  induction n with
  | zero => exact fun _ _ => ⟨rfl, rfl, rfl⟩
  | succ n ih =>
    intro supply d
    unfold loop
    by_cases heof : d.f.eof = true
    · rw [if_pos heof, iterations_of_eof heof]
      exact ⟨rfl, rfl, rfl⟩
    · rw [if_neg heof, iterations_succ (Bool.eq_false_iff.mpr heof), worksOf_cons]
      obtain ⟨htmp, hfile⟩ := iterate_file B d (supply 0).1 (supply 0).2
      cases hwork : (readFrame d.tmp1 d.f).work with
      | true =>
        obtain ⟨hlen, hrcv, hfs⟩ := iterate_of_work B hwork (supply 0).1 (supply 0).2
        obtain ⟨ihlen, ihrcv, ihfs⟩ := ih (fun i => supply (i + 1))
          (d.iterate B (supply 0).1 (supply 0).2)
        rw [htmp, hfile] at ihlen ihrcv ihfs
        rw [if_pos rfl, if_pos rfl]
        dsimp only
        rw [arrivals_cons]
        refine ⟨?_, ?_, ?_⟩
        · rw [ihlen, hlen, getLast?_cons_getD]
        · rw [ihrcv, hrcv]
          rfl
        · rw [ihfs, hrcv, hfs]
          rfl
      | false =>
        obtain ⟨hlen, hrcv, hfs⟩ := iterate_of_not_work B hwork (supply 0).1 (supply 0).2
        have hrest := ih supply (d.iterate B (supply 0).1 (supply 0).2)
        rw [htmp, hfile, hlen, hrcv, hfs] at hrest
        exact hrest

/-- What an iteration leaves of the supply. -/
def supplyAfter (d : Main) (supply : Nat → TimeVal × Env) : Nat → TimeVal × Env :=
  if (readFrame d.tmp1 d.f).work then fun i => supply (i + 1) else supply

/-- `while (!feof(f))`, with what is supplied among its variables. -/
def readLoop : Loop ((Nat → TimeVal × Env) × Main) Main where
  body v :=
    if v.2.f.eof then .inr v.2
    else .inl (v.2.supplyAfter v.1, v.2.iterate B (v.1 0).1 (v.1 0).2)

variable {B} {supply : Nat → TimeVal × Env} {d : Main}

theorem loop_of_eof (heof : d.f.eof = true) (n : Nat) : loop B supply n d = d := by
  cases n with
  | zero => rfl
  | succ n => rw [loop, if_pos heof]

theorem loop_succ (heof : d.f.eof = false) (n : Nat) : loop B supply (n + 1) d =
    loop B (d.supplyAfter supply) n (d.iterate B (supply 0).1 (supply 0).2) := by
  rw [loop, if_neg (Bool.eq_false_iff.mp heof)]
  rfl

/-- An iteration lowers what is left to do. -/
theorem left_iterate_lt (B : Boost) (heof : d.f.eof = false) (now : TimeVal) (e : Env) :
    (d.iterate B now e).f.left < d.f.left := by
  rw [(iterate_file B d now e).2]
  exact left_readFrame_lt d.tmp1 heof

/-- It does not matter how many iterations are allowed if they are enough. -/
theorem loop_fuel (n : Nat) : ∀ {m : Nat} {supply : Nat → TimeVal × Env} {d : Main},
    d.f.left ≤ n → d.f.left ≤ m → loop B supply n d = loop B supply m d := by
  induction n with
  | zero =>
    intro m supply d hn _
    have heof : d.f.eof = true := by
      by_contra hno
      have hleft := CFile.left_of_not_eof (Bool.eq_false_iff.mpr hno)
      omega
    rw [loop_of_eof heof, loop_of_eof heof]
  | succ n ih =>
    intro m supply d hn hm
    cases heof : d.f.eof with
    | true => rw [loop_of_eof heof, loop_of_eof heof]
    | false =>
      have hleft := CFile.left_of_not_eof heof
      have hlt := left_iterate_lt B heof (supply 0).1 (supply 0).2
      obtain ⟨m, rfl⟩ := Nat.exists_eq_succ_of_ne_zero (show m ≠ 0 by omega)
      rw [loop_succ heof, loop_succ heof]
      exact ih (by omega) (by omega)

/-- With enough of them the bounded loop goes on as the loop does. -/
theorem loop_unfolds (v : (Nat → TimeVal × Env) × Main) :
    loop B v.1 v.2.f.left v.2 =
      Sum.elim (fun w => loop B w.1 w.2.f.left w.2) id ((readLoop B).body v) := by
  unfold readLoop
  dsimp only
  cases heof : v.2.f.eof with
  | true => rw [if_pos rfl, loop_of_eof heof, Sum.elim_inr, id]
  | false =>
    have hleft := CFile.left_of_not_eof heof
    have hlt := left_iterate_lt B heof (v.1 0).1 (v.1 0).2
    rw [if_neg Bool.false_ne_true, Sum.elim_inl, hleft, loop_succ heof]
    exact loop_fuel _ (by omega) (le_refl _)

/-- **The read loop returns** what the bounded loop comes to. -/
theorem readLoop_returns (v : (Nat → TimeVal × Env) × Main) :
    ∃ n ≤ v.2.f.left + 1, (readLoop B).Returns v n (loop B v.1 v.2.f.left v.2) := by
  have hstep : ∀ a b : (Nat → TimeVal × Env) × Main, True → (readLoop B).body a = .inl b →
      True ∧ b.2.f.left + 1 ≤ a.2.f.left := by
    intro a b _ hround
    unfold readLoop at hround
    dsimp only at hround
    cases heof : a.2.f.eof with
    | true => simp [heof] at hround
    | false =>
      rw [heof, if_neg Bool.false_ne_true] at hround
      rw [← Sum.inl.inj hround]
      exact ⟨trivial, left_iterate_lt B heof _ _⟩
  obtain ⟨n, r, hreturns, hn⟩ := Loop.exists_returns Nat.one_pos hstep v trivial
  rw [Nat.div_one] at hn
  exact ⟨n, hn, hreturns.eq_of_unfolds loop_unfolds ▸ hreturns⟩

end Main

section MainEnd

variable (B : Boost) (ses : Nat → CSession) (now : Int) (len : UInt16)
  (supply : Nat → TimeVal × Env) (tmp1 : Mem) (file : Bytes)

/-- The read loop has come to the end of the file. -/
theorem mainEnd_eof : (mainEnd B ses now len supply tmp1 file).f.eof = true :=
  Main.eof_loop B _ _ _ (CFile.left_le _)

/-- **The read loop ends**, with these variables. -/
theorem mainEnd_returns : ∃ n ≤ file.length + 2, (Main.readLoop B).Returns
    (supply, ⟨tmp1, ⟨file, false⟩, len, CHandle.init ses now, none⟩) n
    (mainEnd B ses now len supply tmp1 file) := by
  obtain ⟨n, hn, hreturns⟩ := Main.readLoop_returns (B := B)
    (supply, ⟨tmp1, ⟨file, false⟩, len, CHandle.init ses now, none⟩)
  exact ⟨n, hn, hreturns⟩

/-- **What the calls of `Work` tell of the variables when the read loop has ended.** -/
theorem mainEnd_eq :
    (mainEnd B ses now len supply tmp1 file).len = lastLength tmp1 file len ∧
      (mainEnd B ses now len supply tmp1 file).rcv = runCapture B ses now supply tmp1 file ∧
      (mainEnd B ses now len supply tmp1 file).fs =
        sespBy B (CHandle.init ses now) none (arrivals supply (workCalls tmp1 file)) :=
  Main.loop_eq B (file.length + 1) supply ⟨tmp1, ⟨file, false⟩, len, CHandle.init ses now, none⟩

/-! ## The closing loop -/

/-- The bytes filed as responses, in the session `fs` points to, since `Parse` was last called
on it. -/
def filedInFs : Nat :=
  let xs := arrivals supply (workCalls tmp1 file)
  match sespBy B (CHandle.init ses now) none xs with
  | none => 0
  | some a => filedBy B (CHandle.init ses now) (fun _ => 0) xs a

/-- The length that `GetBuf` reports is their number, in 32 bits. -/
theorem rspBuf_len (e : NewSession) :
    ((mainEnd B ses now len supply tmp1 file).rspBuf (newRspBuf e)).len =
      u32 (filedInFs B ses now supply tmp1 file) := by
  obtain ⟨-, hrcv, hfs⟩ := mainEnd_eq B ses now len supply tmp1 file
  have hnone : ∀ a ∈ (none : Option Nat), a < (CHandle.init ses now).sesHash.next :=
    fun a ha => absurd ha (Option.not_mem_none a)
  obtain ⟨htally, hthere⟩ := tallied_run B (arrivals supply (workCalls tmp1 file))
    (CSessionHashTable.wf_init ses) (tallied_init ses now) hnone
  unfold Main.rspBuf filedInFs
  rw [hfs, hrcv]
  dsimp only
  cases hsesp : sespBy B (CHandle.init ses now) none (arrivals supply (workCalls tmp1 file)) with
  | none => rfl
  | some a => exact htally.len a (hthere a hsesp)

/-- **When the closing loop reads the response and nothing else.**  For every capture file: it
reads as many bytes as the length field of the last frame given to `Work` says, and these are
the bytes that `GetBuf` reports exactly if that field is their number: the bytes filed as
responses in the session `fs` points to since it was last parsed, in 32 bits. -/
theorem dumpsResponse_iff (e : NewSession) :
    (mainEnd B ses now len supply tmp1 file).dumped =
        List.range (lastLength tmp1 file len).toNat ∧
      ((mainEnd B ses now len supply tmp1 file).DumpsResponse (newRspBuf e) ↔
        (lastLength tmp1 file len).toNat = u32 (filedInFs B ses now supply tmp1 file)) := by
  obtain ⟨hlen, -, -⟩ := mainEnd_eq B ses now len supply tmp1 file
  unfold Main.DumpsResponse Main.dumped
  rw [hlen, rspBuf_len]
  refine ⟨rfl, ?_⟩
  simp only [List.mem_range]
  constructor
  · rintro ⟨hinside, hall⟩
    by_contra hne
    rcases Nat.lt_or_gt_of_ne hne with hlt | hlt
    · exact lt_irrefl _ (hall _ hlt)
    · exact lt_irrefl _ (hinside _ hlt)
  · intro heq
    rw [heq]
    exact ⟨fun i hi => hi, fun i hi => hi⟩

end MainEnd

/-! ## Acknowledgements only -/

/-- A packet without payload is not filed, so no session is handed out. -/
theorem process_sesp_of_empty (B : Boost) (h : CHandle) {x : Call} (hzero : x.packet.dataLen = 0) :
    (h.process B x).sesp = none := by
  cases hinfo : x.info with
  | none =>
    unfold process
    simp only [hinfo]
  | some info =>
    obtain ⟨hclosing, hdropped, -⟩ := process_table B h hinfo
    cases hclose : x.packet.closes with
    | true => rw [hclosing hclose]
    | false => rw [hdropped hclose (Or.inl hzero)]

theorem sespBy_of_empty (B : Boost) {xs : List Arrival} (hxs : ∀ x ∈ xs, x.packet.dataLen = 0) :
    ∀ (h : CHandle) (fs : Option Nat), sespBy B h fs xs = fs := by
  induction xs with
  | nil => exact fun _ _ => rfl
  | cons x xs ih =>
    intro h fs
    have hnone : (h.process B x.call).sesp = none :=
      process_sesp_of_empty B h (hxs x List.mem_cons_self)
    rw [sespBy, ih (fun y hy => hxs y (List.mem_cons_of_mem _ hy)), hnone, Option.none_or]

/-- An acknowledgement without payload in an IPv4 frame of 54 bytes. -/
def ackFrame : Bytes :=
  List.replicate 12 0 ++ [0x08, 0x00, 0x45, 0x00, 0x00, 40] ++ List.replicate 5 0 ++ [6] ++
    List.replicate 22 0 ++ [0x50, 0x10] ++ List.replicate 6 0

/-- The variables after a file, when the clock stands still and memory is always granted. -/
def ackEnd (file : Bytes) : Main :=
  mainEnd Boost.decimal blankSes 0 0 (fun _ => (⟨0, 0⟩, Env.granting 0)) (fun _ => 0) file

/-- The response buffer that nothing was filed in. -/
def emptyRspBuf : CBuffer := newRspBuf (Env.granting 0).new

theorem rspBuf_ackEnd : ((ackEnd ackFrame).rspBuf emptyRspBuf).len = 0 ∧
    ((ackEnd []).rspBuf emptyRspBuf).len = 0 := by
  have hnone : ∀ file : Bytes, (∀ x ∈ arrivals (fun _ => (⟨0, 0⟩, Env.granting 0))
      (workCalls (fun _ => 0) file), x.packet.dataLen = 0) →
      ((ackEnd file).rspBuf emptyRspBuf).len = 0 := by
    intro file hfile
    rw [ackEnd, emptyRspBuf, rspBuf_len, filedInFs, sespBy_of_empty _ hfile]
    rfl
  exact ⟨hnone _ (by decide +kernel), hnone _ (by decide +kernel)⟩

/-- After a file with this frame the closing loop reads 40 bytes of an empty buffer, and after
an empty file none. -/
theorem not_dumpsResponse_ack :
    ¬ (ackEnd ackFrame).DumpsResponse emptyRspBuf ∧
      ((ackEnd ackFrame).rspBuf emptyRspBuf).len = ((ackEnd []).rspBuf emptyRspBuf).len ∧
      (ackEnd ackFrame).dumped ≠ (ackEnd []).dumped := by
  obtain ⟨hack, hempty⟩ := rspBuf_ackEnd
  have hlen : ∀ file, (ackEnd file).dumped =
      List.range (lastLength (fun _ => 0) file 0).toNat := by
    intro file
    obtain ⟨hlen, -, -⟩ := mainEnd_eq Boost.decimal blankSes 0 0
      (fun _ => (⟨0, 0⟩, Env.granting 0)) (fun _ => 0) file
    rw [Main.dumped, ackEnd, hlen]
  have hlast : (lastLength (fun _ => 0) ackFrame 0).toNat = 40 := by decide +kernel
  have hlast' : (lastLength (fun _ => 0) [] 0).toNat = 0 := by decide +kernel
  have hdumped : (ackEnd ackFrame).dumped = List.range 40 := by rw [hlen, hlast]
  have hdumped' : (ackEnd []).dumped = List.range 0 := by rw [hlen, hlast']
  refine ⟨fun hdumps => ?_, hack.trans hempty.symm, ?_⟩
  · have hinside := hdumps.1 0 (by rw [hdumped]; decide)
    rw [hack] at hinside
    exact lt_irrefl 0 hinside
  · rw [hdumped, hdumped']
    decide

end HttpDecoder
