import HttpDecoder.Isolation
import HttpDecoder.Ledger
import HttpDecoder.Exchange

/-!
# No byte is lost or made up

While every request for memory is granted, what the calls of `Parse` on a session got and
what the session still shows is exactly the payload of the packets it accepted.

* `Ledger.Whole` — every accepted packet is filed, in the order of arrival.
* `countable_of_own` — when a connection brings little enough, its bytes can be counted.
* `conservation` — **conservation of accepted payload**, along every run from `Init`.
-/

namespace HttpDecoder

open CLib CHandle

/-! ## Every accepted packet is filed -/

/-- `Parse` is called at most once before a packet is filed. -/
theorem parseFull_calls (B : Boost) (e : ParseEnv) (s : CSession) :
    (parseFull B e s).2 = [] ∨ ∃ k, (parseFull B e s).2 = [k] := by
  unfold parseFull
  split
  · exact Or.inr ⟨_, rfl⟩
  · exact Or.inl rfl

theorem processData_calls (B : Boost) (x : Arrival) (s : CSession) :
    (processData B x.env x.packet (behavior x.packet).matchWay s).calls = [] ∨
      ∃ k, (processData B x.env x.packet (behavior x.packet).matchWay s).calls = [k] := by
  cases hto : x.packet.toServer with
  | true =>
    rw [processData_toServer B hto]
    exact parseFull_calls ..
  | false =>
    rw [processData_toClient B hto]
    exact Or.inl rfl

namespace Ledger

/-- The accepted packets are those given to `Parse`, call by call, and those filed since. -/
def Whole (l : Ledger) : Prop := l.accepted = l.parsed.flatMap Handed.filed ++ l.since

theorem Whole.parse {B : Boost} {l : Ledger} (h : l.Whole) (e : ParseEnv) :
    (l.parse B e).Whole := by
  show l.accepted = (l.parsed ++ [(⟨l.ses, (HttpDecoder.parse B e l.ses).2, l.since⟩ :
    Handed)]).flatMap Handed.filed ++ []
  rw [List.flatMap_append, List.append_nil, List.flatMap_singleton]
  exact h

/-- A call in which `Append` gets its memory keeps a ledger whole. -/
theorem Whole.keeps (B : Boost) {x : Arrival} (he : x.env.append.isSome) :
    Keeps B x (Countable B x) Whole where
  sweep l a b h := h.parse (B := B) (x.env.sweep a b)
  close l h := h.parse (B := B) x.env.parse
  opened o h := by
    cases o with
    | none => rfl
    | some l => exact h l rfl
  file l h hcount := by
    have hdone := processData_done B he l.ses hcount.kept
    show l.accepted ++ [x.packet] = (l.parsed ++ (processData B x.env x.packet
      (behavior x.packet).matchWay l.ses).calls.map _).flatMap Handed.filed ++
        joined (processData B x.env x.packet (behavior x.packet).matchWay l.ses) l.since x.packet
    rw [h, joined, if_pos hdone]
    rcases processData_calls B x l.ses with hnone | ⟨k, hone⟩
    · rw [hnone]
      simp
    · rw [hone]
      simp

end Ledger

/-- What every accepted packet guarantees holds wherever one is filed. -/
theorem Book.filesAlong_of_accepts {B : Boost} {last : Int} {c : Conn}
    {F : Arrival → Ledger → Prop} {xs : List Arrival}
    (h : ∀ x ∈ xs, ∀ l : Ledger, Traced.accepts x.packet l.ses = true → F x l) :
    ∀ b : Book, Book.FilesAlong B last c F b xs := by
  induction xs with
  | nil => intro b; trivial
  | cons x xs ih =>
    intro b
    exact ⟨fun _ hacc => h x List.mem_cons_self _ hacc,
      ih (fun y hy => h y (List.mem_cons_of_mem _ hy)) _⟩

/-- **Every accepted packet is filed**, along every run in which `Append` gets its memory. -/
theorem whole_run (B : Boost) (last : Int) (c : Conn) {xs : List Arrival}
    (he : ∀ x ∈ xs, x.env.append.isSome)
    (hcount : Book.FilesAlong B last c (Ledger.Countable B) Book.empty xs) :
    ∀ l ∈ ((bookMachine B last c).run Book.empty (xs.map Arrival.call)).1.ledgers, l.Whole :=
  Book.keeps_run (fun x hx => Ledger.Whole.keeps B (he x hx))
    (fun l hl => absurd hl (by simp [Book.ledgers, Book.empty])) hcount

/-! ## Counting the bytes -/

/-- The number of payload bytes in a session. -/
def Ledger.held (l : Ledger) : Nat := (l.since.map fun p => p.payload.length).sum

/-- The number of payload bytes a connection holds. -/
def Book.held (b : Book) : Nat := (b.current.map Ledger.held).getD 0

theorem length_flatMap_payload_filter_le (f : CFormatPacket → Bool) (ps : List CFormatPacket) :
    ((ps.filter f).flatMap CFormatPacket.payload).length ≤
      (ps.map fun p => p.payload.length).sum := by
  induction ps with
  | nil => exact le_refl _
  | cons p ps ih =>
    rw [List.map_cons, List.sum_cons]
    cases hp : f p with
    | true =>
      rw [List.filter_cons_of_pos hp, List.flatMap_cons, List.length_append]
      omega
    | false =>
      rw [List.filter_cons_of_neg (by simp [hp])]
      omega

theorem Ledger.counted_of_held {l : Ledger} (h : l.held < 2 ^ 32) : l.Counted :=
  ⟨lt_of_le_of_lt (length_flatMap_payload_filter_le ..) h,
    lt_of_le_of_lt (length_flatMap_payload_filter_le ..) h⟩

/-- Filing a packet adds its payload at most. -/
theorem Ledger.held_file_le (B : Boost) (x : Call) (info : CSharedBehaviorInfo) (l : Ledger) :
    (l.file B x info).held ≤ l.held + x.packet.payload.length := by
  have hjoined : ∀ (b d : Bool), ((((if b then l.since else []) ++ if d then [x.packet] else
      []).map fun p => p.payload.length).sum) ≤ l.held + x.packet.payload.length := by
    intro b d
    rw [List.map_append, List.sum_append, Ledger.held]
    refine Nat.add_le_add ?_ ?_
    · cases b <;> simp
    · cases d <;> simp
  exact hjoined _ _

theorem Book.held_swept_le (B : Boost) (last : Int) (b : Book) (x : Call) :
    (b.swept B last x).held ≤ b.held := by
  unfold Book.held Book.swept
  cases b.current with
  | none => exact le_refl _
  | some l =>
    simp only [Ledger.sweep]
    split
    · split
      · exact Nat.zero_le _
      · simp only [Option.map_some, Option.getD_some]
        split
        · exact Nat.zero_le _
        · exact le_refl _
    · exact le_refl _

theorem Book.held_meets_le (B : Boost) (last : Int) (b : Book) (x : Call)
    (info : CSharedBehaviorInfo) : (b.meets B last x info).held ≤ b.held := by
  refine le_trans (le_of_eq ?_) (Book.held_swept_le B last b x)
  unfold Book.meets Book.held
  cases (b.swept B last x).current <;> rfl

/-- A call adds the payload of its packet at most. -/
theorem Book.held_step_le (B : Boost) (last : Int) (c : Conn) (b : Book) (x : Call) :
    (Book.step B last c b x).held ≤ b.held + x.packet.payload.length := by
  have hswept := Book.held_swept_le B last b x
  unfold Book.step
  cases x.info with
  | none => exact le_trans hswept (Nat.le_add_right _ _)
  | some info =>
    by_cases hc : x.packet.conn = c
    · simp only [if_pos hc]
      have hmeets := Book.held_meets_le B last b x info
      have hfile := Ledger.held_file_le B x info (b.meets B last x info)
      unfold Ledger.serve
      split
      · exact Nat.zero_le _
      · split
        · exact le_trans hfile (Nat.add_le_add_right hmeets _)
        · exact le_trans hmeets (Nat.le_add_right _ _)
    · simp only [if_neg hc]
      exact le_trans hswept (Nat.le_add_right _ _)

/-- So do many calls. -/
theorem Book.held_run_le (B : Boost) (last : Int) (c : Conn) (xs : List Call) : ∀ b : Book,
    ((bookMachine B last c).run b xs).1.held ≤ b.held + payloadBytes xs := by
  induction xs with
  | nil => exact fun b => Nat.le_add_right _ _
  | cons x xs ih =>
    intro b
    have hstep := Book.held_step_le B last c b x
    have hrest := ih (Book.step B last c b x)
    have hsum : payloadBytes (x :: xs) = x.packet.payload.length + payloadBytes xs := List.sum_cons
    show ((bookMachine B last c).run (Book.step B last c b x) xs).1.held ≤ _
    omega

/-- Both lengths are `uint32_t` values. -/
structure Ledger.Typed (l : Ledger) : Prop where
  req : l.ses.reqBuf.len < 2 ^ 32
  rsp : l.ses.rspBuf.len < 2 ^ 32

/-- There is none yet. -/
theorem Book.typed_empty : ∀ l ∈ Book.empty.ledgers, l.Typed :=
  fun _ hl => absurd hl List.not_mem_nil

namespace Ledger.Typed

variable {l : Ledger} {x : Arrival}

/-- So is that of the buffer that `Append` gets. -/
theorem bufferAt_len (h : l.Typed) (x : Arrival) : (bufferAt x l.ses).len < 2 ^ 32 := by
  unfold bufferAt
  split_ifs
  · norm_num
  · exact h.req
  · exact h.rsp

/-- A length that can be counted frees no block. -/
theorem not_frees (h : l.Typed) (hsize : x.packet.dataSize < 2 ^ 32) :
    ¬ (bufferAt x l.ses).Frees x.packet.dataSize := by
  have hlen := h.bufferAt_len x
  exact CBuffer.not_frees_of_lt (by omega)

theorem parse (B : Boost) (e : ParseEnv) (l : Ledger) : (l.parse B e).Typed := by
  have hlen := cleared_parse l B e
  exact ⟨by rw [hlen.req]; norm_num, by rw [hlen.rsp]; norm_num⟩

/-- Every call leaves them so. -/
theorem keeps (B : Boost) (x : Arrival) : Keeps B x (fun _ => True) Typed where
  sweep l a b _ := parse B (x.env.sweep a b) l
  close l _ := parse B x.env.parse l
  opened o h := by
    cases o with
    | none =>
      obtain ⟨hreq, hrsp⟩ := opened_none_len x.call (behavior x.packet)
      exact ⟨hreq.trans_lt (by norm_num), hrsp.trans_lt (by norm_num)⟩
    | some l => exact ⟨(h l rfl).req, (h l rfl).rsp⟩
  file l h _ := by
    have happended := CBuffer.append_len_lt (h.bufferAt_len x) x.env.append x.packet.data
      x.packet.dataSize
    cases hto : x.packet.toServer with
    | true =>
      obtain ⟨-, hreq, -, hrsp⟩ := processData_request B l.ses hto
      refine ⟨hreq ▸ happended, hrsp.trans_lt ?_⟩
      split
      · exact h.rsp
      · norm_num
    | false =>
      obtain ⟨-, hrsp, hreq, -, -⟩ := processData_response B l.ses hto
      exact ⟨hreq ▸ h.req, hrsp ▸ happended⟩

end Ledger.Typed

/-- **When a connection brings little enough, its bytes can be counted.** -/
theorem countable_of_own (B : Boost) (last : Int) {c : Conn} {xs : List Arrival} {b : Book}
    (hb : ∀ l ∈ b.ledgers, l.Typed)
    (h : b.held + payloadBytes (ofConn c (xs.map Arrival.call)) < 2 ^ 32) :
    Book.FilesAlong B last c (Ledger.Countable B) b xs := by
  induction xs generalizing b with
  | nil => trivial
  | cons x xs ih =>
    have hown : ofConn c ((x :: xs).map Arrival.call) =
        if x.packet.conn = c then x.call :: ofConn c (xs.map Arrival.call)
          else ofConn c (xs.map Arrival.call) := by
      rw [List.map_cons, ofConn, List.filter_cons, Arrival.call_packet]
      by_cases hc : x.packet.conn = c <;> simp [hc, ofConn]
    rw [hown] at h
    have htyped := Book.keeps_meets last (Ledger.Typed.keeps B x) hb
    have hrest : ∀ l ∈ (Book.step B last c b x.call).ledgers, l.Typed :=
      Book.keeps_step (Ledger.Typed.keeps B x) hb fun _ _ => trivial
    by_cases hc : x.packet.conn = c
    · have hstep := Book.held_step_le B last c b x.call
      have hmeets := Book.held_meets_le B last b x.call (behavior x.packet)
      have hfile := Ledger.held_file_le B x.call (behavior x.packet)
        (b.meets B last x.call (behavior x.packet))
      have hsum : payloadBytes (x.call :: ofConn c (xs.map Arrival.call)) =
          x.packet.payload.length + payloadBytes (ofConn c (xs.map Arrival.call)) := List.sum_cons
      rw [if_pos hc, hsum] at h
      rw [Arrival.call_packet] at hstep hfile
      have hsize : x.packet.payload.length = x.packet.dataSize := Mem.length_read ..
      refine ⟨fun _ _ => ⟨Ledger.counted_of_held (by omega), htyped.not_frees (by omega)⟩, ?_⟩
      exact ih hrest (by omega)
    · -- a packet of another connection brings a sweep at most
      have hstep : Book.step B last c b x.call = b.swept B last x.call := by
        unfold Book.step
        simp only [Arrival.call_info]
        exact if_neg hc
      have hswept := Book.held_swept_le B last b x.call
      rw [if_neg hc] at h
      exact ⟨fun hc' => absurd hc' hc, ih hrest (by rw [hstep]; omega)⟩

/-- So they can when little enough arrives at all. -/
theorem countable_of_payload (B : Boost) (last : Int) (c : Conn) {xs : List Arrival} {b : Book}
    (hb : ∀ l ∈ b.ledgers, l.Typed)
    (h : b.held + payloadBytes (xs.map Arrival.call) < 2 ^ 32) :
    Book.FilesAlong B last c (Ledger.Countable B) b xs := by
  have hown : payloadBytes (ofConn c (xs.map Arrival.call)) ≤ payloadBytes (xs.map Arrival.call) :=
    payloadBytes_le List.filter_sublist
  exact countable_of_own B last hb (by omega)

/-! ## Conservation -/

/-- The books of connection `c` after a run from `Init`. -/
def booksOf (B : Boost) (now : Int) (c : Conn) (xs : List Arrival) : Book :=
  ((bookMachine B now c).run Book.empty (xs.map Arrival.call)).1

/-- **The books are about the run**: from any table without a session for the connection,
they end with the session the table then has for it, and hold the calls of `Parse` made on
its sessions. -/
theorem booksOf_absent (B : Boost) {h : CHandle} (hw : h.sesHash.WF) {c : Conn}
    (habsent : h.sesHash.session c = none) (xs : List Arrival) :
    let r := (handleMachine B).run h (xs.map Arrival.call)
    (booksOf B h.lastTimeOutCheck c xs).current.map Ledger.ses = r.1.sesHash.session c ∧
      (booksOf B h.lastTimeOutCheck c xs).handed.map Ledger.pair =
        r.2.filterMap (obsConn c) := by
  obtain ⟨hses, hcalls⟩ := run_conn B hw c (xs.map Arrival.call)
  obtain ⟨hview, hout⟩ := bookMachine_view B h.lastTimeOutCheck c (xs.map Arrival.call) Book.empty
  have hhanded := handed_run B h.lastTimeOutCheck c (xs.map Arrival.call) Book.empty
  rw [habsent] at hses hcalls
  refine ⟨hview.trans hses.symm, ?_⟩
  rw [hcalls]
  refine hhanded.trans ?_
  rw [hout]
  rfl

/-- So they are about every run from `Init`. -/
theorem booksOf_run (B : Boost) (ses : Nat → CSession) (now : Int) (c : Conn)
    (xs : List Arrival) :
    let r := (handleMachine B).run (CHandle.init ses now) (xs.map Arrival.call)
    (booksOf B now c xs).current.map Ledger.ses = r.1.sesHash.session c ∧
      (booksOf B now c xs).handed.map Ledger.pair = r.2.filterMap (obsConn c) :=
  booksOf_absent B (h := CHandle.init ses now) (CSessionHashTable.wf_init ses)
    (CSessionHashTable.session_init ..) xs

/-- The contents of a buffer at the calls of `Parse` on a session, and now. -/
def Ledger.shown (buf : CSession → CBuffer) (l : Ledger) : Bytes :=
  (l.parsed.flatMap fun k => (buf k.ses).contents) ++ (buf l.ses).contents

theorem Ledger.shown_eq {l : Ledger} (hb : l.Balanced) (hw : l.Whole) :
    l.shown CSession.reqBuf = requestOf l.accepted ∧
      l.shown CSession.rspBuf = responseOf l.accepted := by
  have hcarried : ∀ ks : List Handed, (∀ k ∈ ks, k.ses.Carries k.filed) →
      (ks.flatMap fun k => k.ses.reqBuf.contents) = requestOf (ks.flatMap Handed.filed) ∧
        (ks.flatMap fun k => k.ses.rspBuf.contents) = responseOf (ks.flatMap Handed.filed) := by
    intro ks
    induction ks with
    | nil => intro _; exact ⟨rfl, rfl⟩
    | cons k ks ih =>
      intro hks
      obtain ⟨hreq, hrsp⟩ := ih fun k' hk' => hks k' (List.mem_cons_of_mem _ hk')
      have hk := hks k List.mem_cons_self
      constructor
      · rw [List.flatMap_cons, List.flatMap_cons, requestOf_append, hreq, hk.req]
      · rw [List.flatMap_cons, List.flatMap_cons, responseOf_append, hrsp, hk.rsp]
  obtain ⟨hparsed, hparsed'⟩ := hcarried l.parsed hb.parsed
  unfold Ledger.shown
  rw [hw, requestOf_append, responseOf_append, hparsed, hparsed', hb.since.req, hb.since.rsp]
  exact ⟨rfl, rfl⟩

/-- **Conservation of accepted payload.**  Along every run from `Init` in which every request
for memory is granted and the bytes buffered can be counted, with sweeps at any times: for
every session a connection ever had, what the calls of `Parse` got and what it shows now
is, in either direction, the payload of the packets that passed the tests, in the order of
arrival; and a session is only removed with both buffers empty. -/
theorem conservation (B : Boost) (ses : Nat → CSession) (now : Int) (c : Conn)
    {xs : List Arrival} (hgrant : ∀ x ∈ xs, x.env.Granted)
    (hcount : Book.FilesAlong B now c (Ledger.Countable B) Book.empty xs) :
    let r := (handleMachine B).run (CHandle.init ses now) (xs.map Arrival.call)
    (booksOf B now c xs).current.map Ledger.ses = r.1.sesHash.session c ∧
      (booksOf B now c xs).handed.map Ledger.pair = r.2.filterMap (obsConn c) ∧
      (∀ l ∈ (booksOf B now c xs).ledgers, l.shown CSession.reqBuf = requestOf l.accepted ∧
        l.shown CSession.rspBuf = responseOf l.accepted) ∧
      ∀ l ∈ (booksOf B now c xs).closed, l.Cleared := by
  intro r
  obtain ⟨hses, hcalls⟩ := booksOf_run B ses now c xs
  refine ⟨hses, hcalls, fun l hl => ?_, cleared_run B now c _⟩
  exact Ledger.shown_eq
    (balanced_run B now c (fun x hx => (hgrant x hx).toResets) hcount l hl)
    (whole_run B now c (fun x hx => (hgrant x hx).append) hcount l hl)

/-- The exchange of one request and one response. -/
theorem conservation_sample :
    (∀ l ∈ (booksOf Boost.decimal 0 s(⟨1, 1000⟩, ⟨2, 80⟩) (sampleFull ++ [sampleFin])).ledgers,
      l.shown CSession.reqBuf = requestOf l.accepted ∧
        l.shown CSession.rspBuf = responseOf l.accepted) ∧
      ∀ l ∈ (booksOf Boost.decimal 0 s(⟨1, 1000⟩, ⟨2, 80⟩) (sampleFull ++ [sampleFin])).closed,
        l.Cleared := by
  have hgrant : ∀ x ∈ sampleFull ++ [sampleFin], x.env.Granted := by
    simp [sampleFull, sampleFin, arrival, Env.granted_granting]
  have hcount : payloadBytes ((sampleFull ++ [sampleFin]).map Arrival.call) < 2 ^ 32 := by
    simp [payloadBytes, sampleFull, sampleFin, payload_arrival]
  exact (conservation Boost.decimal blankSes 0 _ hgrant
    (countable_of_payload Boost.decimal 0 _ Book.typed_empty (by simpa [Book.held, Book.empty] using hcount))).2.2

end HttpDecoder
