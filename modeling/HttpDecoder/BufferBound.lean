import HttpDecoder.Conservation

/-!
# Lengths and the declared limit

`len` is a `uint32_t` and `MAX_BUFFER_SIZE` is declared beside it, but `Append` compares
the length with nothing.

* `sizeTo` — the payload sizes of some packets, summed without bounds.
* `CBuffer.Backed` — the block has the room that is counted, if there is a block.
* `Ledger.Exact` — both lengths are those sums and keep to `MAX_BUFFER_SIZE`, within their blocks.
* `Ledger.Roomy` — the packet fits below the limit, or is refused memory without its block being
  freed.
* `exact_file_iff` — filing a packet keeps the lengths exact exactly if it is roomy.
* `exact_run_iff` — so does a run, **exactly if every packet it files is**; and then no
  payload is written over another.
-/

namespace HttpDecoder

open CLib CHandle

/-! ## Sums of sizes -/

/-- The sizes of the packets of a direction, summed. -/
def sizeTo (toServer : Bool) (ps : List CFormatPacket) : Nat :=
  ((ps.filter fun p => p.toServer = toServer).map CFormatPacket.dataSize).sum

@[simp] theorem sizeTo_append (toServer : Bool) (ps qs : List CFormatPacket) :
    sizeTo toServer (ps ++ qs) = sizeTo toServer ps + sizeTo toServer qs := by
  unfold sizeTo
  rw [List.filter_append, List.map_append, List.sum_append]

theorem sizeTo_single (toServer : Bool) (p : CFormatPacket) :
    sizeTo toServer [p] = if p.toServer = toServer then p.dataSize else 0 := by
  unfold sizeTo
  by_cases h : p.toServer = toServer <;> simp [h]

/-- It counts the bytes that the packets carry to the server. -/
theorem length_requestOf (ps : List CFormatPacket) :
    (requestOf ps).length = sizeTo true ps := by
  induction ps with
  | nil => rfl
  | cons p ps ih =>
    rw [← List.singleton_append, requestOf_append, sizeTo_append, List.length_append, ih,
      requestOf_single, sizeTo_single]
    cases p.toServer with
    | true => rw [if_pos rfl, if_pos rfl, CFormatPacket.payload, Mem.length_read]
    | false => rfl

/-- And those they carry to the client. -/
theorem length_responseOf (ps : List CFormatPacket) :
    (responseOf ps).length = sizeTo false ps := by
  induction ps with
  | nil => rfl
  | cons p ps ih =>
    rw [← List.singleton_append, responseOf_append, sizeTo_append, List.length_append, ih,
      responseOf_single, sizeTo_single]
    cases p.toServer with
    | true => rfl
    | false => rw [if_neg (by simp), if_pos rfl, CFormatPacket.payload, Mem.length_read]

/-! ## One call of `Append` -/

namespace CBuffer

/-- The block, if there is one, has room for what is counted. -/
structure Backed (b : CBuffer) : Prop where
  free_pos : 1 ≤ b.free
  default_le : bufferSize ≤ b.len + b.free
  /-- The bytes and the room lie in the block. -/
  block : ∀ blk, b.buf = some blk → b.len + b.free ≤ blk.cap

variable {b : CBuffer}

/-- `Reset` leaves it so, if a block that was there is large enough. -/
theorem backed_reset (e : ResetAlloc) (h : ∀ blk, b.buf = some blk → bufferSize ≤ blk.cap) :
    (b.reset e).Backed := by
  refine ⟨by simp [bufferSize], by simp, fun blk hblk => ?_⟩
  show 0 + bufferSize ≤ blk.cap
  rw [Nat.zero_add]
  unfold CBuffer.reset at hblk
  dsimp only at hblk
  split_ifs at hblk
  · exact (cap_of_realloc hblk).ge
  · cases hbuf : b.buf with
    | none =>
      rw [hbuf] at hblk
      obtain ⟨blk₀, hmalloc, rfl⟩ := Option.map_eq_some_iff.mp hblk
      obtain ⟨g, -, rfl⟩ := Option.map_eq_some_iff.mp hmalloc
      exact le_refl _
    | some blk₀ =>
      rw [hbuf] at hblk
      exact h blk (hbuf.trans hblk)

theorem backed_new (e : ResetAlloc) : (new e).Backed :=
  backed_reset e fun _ hblk => absurd hblk (Option.some_ne_none _).symm

theorem Backed.reset (h : b.Backed) (e : ResetAlloc) : (b.reset e).Backed :=
  backed_reset e fun blk hblk => h.default_le.trans (h.block blk hblk)

/-- An `Append` whose length can be counted leaves it so. -/
theorem Backed.append (h : b.Backed) (a : Alloc) (p : Mem) {size : Nat}
    (hfit : b.len + size < 2 ^ 32) : (b.append a (some p) size).2.Backed := by
  have hpos := h.free_pos
  have hdefault := h.default_le
  have hkeep : ¬ b.Frees size := not_frees_of_lt (by omega)
  have hu : u32 (b.len + size) = b.len + size := u32_of_lt hfit
  by_cases h0 : size = 0
  · rw [h0]
    exact h
  by_cases hroom : size < b.free
  · rw [append_fast h0 hroom, hu]
    refine ⟨by simp; omega, by simp; omega, fun blk hblk => ?_⟩
    obtain ⟨blk₀, hblk₀, rfl⟩ := Option.map_eq_some_iff.mp hblk
    have hcap := h.block blk₀ hblk₀
    show b.len + size + (b.free - size) ≤ blk₀.cap
    omega
  have hfree := not_lt.mp hroom
  cases a with
  | none =>
    rw [append_refused hfree h0 hkeep]
    exact h
  | some g =>
    have hmod : (b.len + size + 1) % 2 ^ 64 = b.len + size + 1 := Nat.mod_eq_of_lt (by omega)
    rw [append_slow hfree h0 hkeep, realloc_granted (asks_of_not_frees hkeep hfree h0), hu, hmod]
    refine ⟨le_refl _, by simp; omega, fun blk hblk => ?_⟩
    rw [← Option.some.inj hblk]

/-- **When `Append` keeps to the limit.**  What it makes of a length within the limit is the
sum, within the limit and within the block, exactly if the sum is within the limit or the memory
is refused and the block not freed. -/
theorem append_exact_iff (h : b.Backed) (hb : b.len ≤ maxBufferSize) (a : Alloc) (p : Mem)
    (size : Nat) :
    ((b.append a (some p) size).2.len =
        b.len + (if (b.append a (some p) size).1 then size else 0) ∧
      b.len + (if (b.append a (some p) size).1 then size else 0) ≤ maxBufferSize ∧
      (b.append a (some p) size).2.Backed) ↔
    b.len + size ≤ maxBufferSize ∨ (a = none ∧ b.free ≤ size ∧ ¬ b.Frees size) := by
  have hlimit : maxBufferSize < 2 ^ 32 := by decide
  have hpos := h.free_pos
  by_cases hfrees : b.Frees size
  · -- the block is gone
    refine iff_of_false (fun hexact => ?_) ?_
    · obtain ⟨blk, hblk⟩ := Option.isSome_iff_exists.mp hfrees.1
      have hbacked := hexact.2.2
      rw [append_frees hfrees, hblk] at hbacked
      have hgone : b.len + b.free ≤ 0 := hbacked.block _ rfl
      omega
    · rintro (hfits | ⟨-, -, hkeep⟩)
      · exact not_frees_of_lt (by omega) hfrees
      · exact hkeep hfrees
  rw [append_len (lt_of_le_of_lt hb hlimit)]
  cases hdone : (b.append a (some p) size).1 with
  | true =>
    rw [if_pos rfl, if_pos rfl]
    constructor
    · exact fun hexact => Or.inl hexact.2.1
    · intro hroomy
      have hfits : b.len + size ≤ maxBufferSize := by
        rcases hroomy with hfits | ⟨rfl, hfree, -⟩
        · exact hfits
        · -- without memory only an empty append succeeds here
          have h0 : size = 0 := by
            by_contra h0
            rw [append_refused hfree h0 hfrees] at hdone
            cases hdone
          omega
      have hlt := lt_of_le_of_lt hfits hlimit
      exact ⟨u32_of_lt hlt, hfits, h.append a p hlt⟩
  | false =>
    rcases append_cases a p hfrees with ⟨g, hgranted⟩ | hrefused
    · rw [hgranted, append_fst (Option.isSome_some (a := g)) p hfrees] at hdone
      cases hdone
    rw [hrefused]
    refine iff_of_true ⟨rfl, hb, h⟩ (Or.inr ⟨?_, ?_, hfrees⟩)
    · cases a with
      | none => rfl
      | some g =>
        rw [append_fst (Option.isSome_some (a := g)) p hfrees] at hdone
        cases hdone
    · by_contra hroom
      rw [(append_fst_iff hpos a p size).mpr (Or.inl (not_le.mp hroom))] at hdone
      cases hdone

end CBuffer

/-! ## Exact lengths -/

namespace Ledger

/-- The lengths are the sums of the sizes appended since the last `Reset`, within the
declared limit and within the blocks. -/
structure Exact (l : Ledger) : Prop where
  req : l.ses.reqBuf.len = sizeTo true l.since
  rsp : l.ses.rspBuf.len = sizeTo false l.since
  req_le : sizeTo true l.since ≤ maxBufferSize
  rsp_le : sizeTo false l.since ≤ maxBufferSize
  req_backed : l.ses.reqBuf.Backed
  rsp_backed : l.ses.rspBuf.Backed

/-- The packet fits below the limit, or `Append` is refused its memory and keeps its block. -/
def Roomy (x : Arrival) (l : Ledger) : Prop :=
  (bufferAt x l.ses).len + x.packet.dataSize ≤ maxBufferSize ∨
    (x.env.append = none ∧ (bufferAt x l.ses).free ≤ x.packet.dataSize ∧
      ¬ (bufferAt x l.ses).Frees x.packet.dataSize)

instance (x : Arrival) (l : Ledger) : Decidable (l.Roomy x) :=
  have : Decidable (x.env.append = none) := decidable_of_iff _ Option.isNone_iff_eq_none
  inferInstanceAs (Decidable (_ ∨ _))

variable (B : Boost) {l : Ledger} {x : Arrival}

theorem Exact.parse (h : l.Exact) (e : ParseEnv) : (l.parse B e).Exact := by
  have hlen := cleared_parse l B e
  have hses : (l.parse B e).ses = l.ses.reset e.reset := parse_fst ..
  refine ⟨hlen.req, hlen.rsp, Nat.zero_le _, Nat.zero_le _, ?_, ?_⟩
  · rw [hses]
    exact h.req_backed.reset _
  · rw [hses]
    exact h.rsp_backed.reset _

theorem exact_opened {o : Option Ledger} (h : ∀ l ∈ o, l.Exact) (x : Call)
    (info : CSharedBehaviorInfo) : (opened x info o).Exact := by
  cases o with
  | none =>
    obtain ⟨hreq, hrsp⟩ := opened_none_len x info
    have hbacked : (CHandle.opened x info none).reqBuf.Backed ∧
        (CHandle.opened x info none).rspBuf.Backed := by
      show (CSessionHashTable.newSession ..).reqBuf.Backed ∧
        (CSessionHashTable.newSession ..).rspBuf.Backed
      unfold CSessionHashTable.newSession
      split <;> exact ⟨(CBuffer.backed_new _).reset _, (CBuffer.backed_new _).reset _⟩
    exact ⟨hreq, hrsp, Nat.zero_le _, Nat.zero_le _, hbacked.1, hbacked.2⟩
  | some l =>
    have hl := h l rfl
    exact ⟨hl.req, hl.rsp, hl.req_le, hl.rsp_le, hl.req_backed, hl.rsp_backed⟩

/-- The buffer that `Append` gets has the room that it counts. -/
theorem Exact.bufferAt (h : l.Exact) (x : Arrival) : (bufferAt x l.ses).Backed := by
  unfold HttpDecoder.bufferAt
  split_ifs
  · exact h.req_backed.reset _
  · exact h.req_backed
  · exact h.rsp_backed

theorem file_since (l : Ledger) (x : Arrival) : (l.file B x.call (behavior x.packet)).since =
    joined (processData B x.env x.packet (behavior x.packet).matchWay l.ses) l.since x.packet :=
  rfl

theorem file_ses (l : Ledger) (x : Arrival) : (l.file B x.call (behavior x.packet)).ses =
    (processData B x.env x.packet (behavior x.packet).matchWay l.ses).ses := rfl

/-- The call of `Parse` before a packet leaves the response, or resets it. -/
theorem parseFull_rspBuf (e : ParseEnv) {s : CSession} (h : s.rspBuf.Backed) :
    (parseFull B e s).1.rspBuf.Backed := by
  unfold parseFull
  split
  · have hreset : (HttpDecoder.parse B e s).1.rspBuf = s.rspBuf.reset e.reset.rsp :=
      congrArg CSession.rspBuf (parse_fst ..)
    show (HttpDecoder.parse B e s).1.rspBuf.Backed
    rw [hreset]
    exact h.reset _
  · exact h

/-- So does filing it. -/
theorem Exact.rspBuf_file (h : l.Exact) (hto : x.packet.toServer = true) :
    (l.file B x.call (behavior x.packet)).ses.rspBuf.Backed := by
  rw [file_ses, processData_rspBuf B l.ses hto]
  apply parseFull_rspBuf
  rw [CSession.setSeq_rspBuf]
  exact h.rsp_backed

/-- A packet to the server: the request grows, and the response stays or is reset. -/
theorem exact_file_request (h : l.Exact) (hto : x.packet.toServer = true) :
    (l.file B x.call (behavior x.packet)).Exact ↔ l.Roomy x := by
  obtain ⟨hdone, hreq, hlen, hrsp⟩ := processData_request B l.ses hto
  have hbase : (bufferAt x l.ses).len = sizeTo true (if (processData B x.env x.packet
      (behavior x.packet).matchWay l.ses).calls.isEmpty then l.since else []) := by
    rw [hlen, h.req]
    split <;> rfl
  have hother : sizeTo false (if (processData B x.env x.packet
      (behavior x.packet).matchWay l.ses).calls.isEmpty then l.since else []) =
        (l.file B x.call (behavior x.packet)).ses.rspBuf.len := by
    rw [file_ses, hrsp, h.rsp]
    split <;> rfl
  have hother_le : (l.file B x.call (behavior x.packet)).ses.rspBuf.len ≤ maxBufferSize := by
    rw [← hother]
    split
    · exact h.rsp_le
    · exact Nat.zero_le _
  have hbase_le : (bufferAt x l.ses).len ≤ maxBufferSize := by
    rw [hbase]
    split
    · exact h.req_le
    · exact Nat.zero_le _
  have hsum : sizeTo true (l.file B x.call (behavior x.packet)).since =
      (bufferAt x l.ses).len + if ((bufferAt x l.ses).append x.env.append
        (some x.packet.data) x.packet.dataSize).1 then x.packet.dataSize else 0 := by
    rw [file_since, joined, sizeTo_append, ← hbase, hdone]
    split
    · rw [sizeTo_single, if_pos hto]
    · rfl
  have hsame : sizeTo false (l.file B x.call (behavior x.packet)).since =
      (l.file B x.call (behavior x.packet)).ses.rspBuf.len := by
    rw [file_since, joined, sizeTo_append, hother]
    split
    · rw [sizeTo_single, if_neg (by simp [hto])]
      rfl
    · rfl
  have happ := CBuffer.append_exact_iff (h.bufferAt x) hbase_le x.env.append x.packet.data
    x.packet.dataSize
  rw [← hsum, ← hreq, ← file_ses] at happ
  constructor
  · intro hex
    exact happ.mp ⟨hex.req, hex.req_le, hex.req_backed⟩
  · intro hroomy
    obtain ⟨hexact, hlimit, hbacked⟩ := happ.mpr hroomy
    exact ⟨hexact, hsame.symm, hlimit, hsame ▸ hother_le, hbacked, h.rspBuf_file B hto⟩

/-- A packet to the client: the response grows, and the request stays. -/
theorem exact_file_response (h : l.Exact) (hto : x.packet.toServer = false) :
    (l.file B x.call (behavior x.packet)).Exact ↔ l.Roomy x := by
  obtain ⟨hdone, hrsp, hreq, hcalls, hbuf⟩ := processData_response B l.ses hto
  have hsame : sizeTo true (l.file B x.call (behavior x.packet)).since = sizeTo true l.since := by
    rw [file_since, joined, sizeTo_append, hcalls, hdone]
    refine Eq.trans (congrArg (sizeTo true l.since + ·) ?_) (Nat.add_zero _)
    split
    · rw [sizeTo_single, if_neg (by simp [hto])]
    · rfl
  have hsum : sizeTo false (l.file B x.call (behavior x.packet)).since =
      (bufferAt x l.ses).len + if ((bufferAt x l.ses).append x.env.append
        (some x.packet.data) x.packet.dataSize).1 then x.packet.dataSize else 0 := by
    rw [file_since, joined, sizeTo_append, hcalls, hdone, hbuf, h.rsp]
    congr 1
    split
    · rw [sizeTo_single, if_pos hto]
    · rfl
  have hbase_le : (bufferAt x l.ses).len ≤ maxBufferSize := by
    rw [hbuf, h.rsp]
    exact h.rsp_le
  have happ := CBuffer.append_exact_iff (h.bufferAt x) hbase_le x.env.append x.packet.data
    x.packet.dataSize
  rw [← hsum, ← hrsp, ← file_ses] at happ
  have hkept : (l.file B x.call (behavior x.packet)).ses.reqBuf = l.ses.reqBuf := by
    rw [file_ses, hreq]
  constructor
  · intro hex
    exact happ.mp ⟨hex.rsp, hex.rsp_le, hex.rsp_backed⟩
  · intro hroomy
    obtain ⟨hexact, hlimit, hbacked⟩ := happ.mpr hroomy
    refine ⟨?_, hexact, hsame ▸ h.req_le, hlimit, ?_, hbacked⟩
    · rw [hkept, hsame]
      exact h.req
    · rw [hkept]
      exact h.req_backed

/-- **Filing a packet keeps the lengths exact exactly if it is roomy.** -/
theorem exact_file_iff (h : l.Exact) :
    (l.file B x.call (behavior x.packet)).Exact ↔ l.Roomy x := by
  cases hto : x.packet.toServer with
  | true => exact exact_file_request B h hto
  | false => exact exact_file_response B h hto

/-- A call keeps the lengths exact if what it files is roomy. -/
theorem Exact.keeps (x : Arrival) : Keeps B x (Roomy x) Exact where
  sweep _ a b h := h.parse B (x.env.sweep a b)
  close _ h := h.parse B x.env.parse
  opened _ h := exact_opened h x.call (behavior x.packet)
  file _ h hroomy := (exact_file_iff B h).mpr hroomy

theorem Roomy.not_frees (h : l.Roomy x) :
    ¬ (HttpDecoder.bufferAt x l.ses).Frees x.packet.dataSize := by
  rcases h with hfits | ⟨-, -, hkeep⟩
  · have hlimit : maxBufferSize < 2 ^ 32 := by decide
    exact CBuffer.not_frees_of_lt (by omega)
  · exact hkeep

/-- Lengths within the limit can be counted in 32 bits. -/
theorem Exact.counted (h : l.Exact) : l.Counted := by
  have hlimit : maxBufferSize < 2 ^ 32 := by decide
  refine ⟨?_, ?_⟩
  · rw [length_requestOf]
    exact lt_of_le_of_lt h.req_le hlimit
  · rw [length_responseOf]
    exact lt_of_le_of_lt h.rsp_le hlimit

end Ledger

/-! ## Exact lengths along a run -/

section Runs

variable (B : Boost) (last : Int) (c : Conn) {xs : List Arrival}

/-- What holds along a run holds along its beginnings. -/
theorem Book.filesAlong_prefix {F : Arrival → Ledger → Prop} {ys : List Arrival}
    (hpre : ys <+: xs) : ∀ b : Book, Book.FilesAlong B last c F b xs →
      Book.FilesAlong B last c F b ys := by
  induction ys generalizing xs with
  | nil => intro _ _; trivial
  | cons y ys ih =>
    intro b h
    obtain ⟨zs, rfl⟩ := hpre
    exact ⟨h.1, ih (List.prefix_append ys zs) _ h.2⟩

/-- An accepted packet of the connection leaves its session in the books, with the packet
filed. -/
theorem Book.file_mem_step {b : Book} {x : Arrival} (hc : x.packet.conn = c)
    (hacc : Traced.accepts x.packet (b.meets B last x.call (behavior x.packet)).ses = true) :
    (b.meets B last x.call (behavior x.packet)).file B x.call (behavior x.packet) ∈
      (Book.step B last c b x.call).ledgers := by
  have hopen := (Traced.accepts_iff.mp hacc).1
  have hserve : (b.meets B last x.call (behavior x.packet)).serve B x.call (behavior x.packet) =
      (some ((b.meets B last x.call (behavior x.packet)).file B x.call (behavior x.packet)),
        []) := by
    unfold Ledger.serve
    rw [Arrival.call_packet, if_neg (by simp [hopen]), if_pos hacc]
  unfold Book.step
  simp only [Arrival.call_info, if_pos (show x.call.packet.conn = c from hc), hserve, Book.ledgers]
  exact List.mem_append_right _ (List.mem_singleton.mpr rfl)

/-- Lengths stay exact along every beginning of a run exactly if all it files is roomy. -/
theorem Book.exact_along_iff {b : Book} (hb : ∀ l ∈ b.ledgers, l.Exact) :
    (∀ ys, ys <+: xs → ∀ l ∈ ((bookMachine B last c).run b (ys.map Arrival.call)).1.ledgers,
      l.Exact) ↔ Book.FilesAlong B last c (fun x l => l.Roomy x) b xs := by
  constructor
  · induction xs generalizing b with
    | nil => intro _; trivial
    | cons x xs ih =>
      intro hall
      have hstep : ∀ l ∈ (Book.step B last c b x.call).ledgers, l.Exact :=
        hall [x] (List.prefix_append [x] xs)
      refine ⟨fun hc hacc => ?_, ih hstep fun ys hys =>
        hall (x :: ys) (List.cons_prefix_cons.mpr ⟨rfl, hys⟩)⟩
      have hmeets := Book.keeps_meets last (Ledger.Exact.keeps B x) hb
      exact (Ledger.exact_file_iff B hmeets).mp (hstep _ (Book.file_mem_step B last c hc hacc))
  · intro hfile ys hys
    exact Book.keeps_run (fun x _ => Ledger.Exact.keeps B x) hb
      (Book.filesAlong_prefix B last c hys b hfile)

/-- What is roomy can be counted. -/
theorem Book.countable_of_roomy {b : Book} (hb : ∀ l ∈ b.ledgers, l.Exact)
    (h : Book.FilesAlong B last c (fun x l => l.Roomy x) b xs) :
    Book.FilesAlong B last c (Ledger.Countable B) b xs := by
  induction xs generalizing b with
  | nil => trivial
  | cons x xs ih =>
    have hmeets := Book.keeps_meets last (Ledger.Exact.keeps B x) hb
    refine ⟨fun hc hacc => ⟨((Ledger.exact_file_iff B hmeets).mpr (h.1 hc hacc)).counted,
      (h.1 hc hacc).not_frees⟩, ?_⟩
    exact ih (Book.keeps_step (Ledger.Exact.keeps B x) hb h.1) h.2

end Runs

theorem Book.exact_empty : ∀ l ∈ Book.empty.ledgers, l.Exact :=
  fun _ hl => absurd hl List.not_mem_nil

/-- **When the lengths stay exact and bounded.**  For every run from `Init`, with any
packets, clocks and answers of the allocator: in every state reached the two lengths of
every session of a connection are the sums of the sizes appended since its last `Reset`,
at most `MAX_BUFFER_SIZE` and within their blocks, exactly if every packet that was filed found
room below that limit or was refused its memory, its block being kept.  Then, as long as
constructors and `Reset` get their memory, the buffers show the payloads one after another. -/
theorem exact_run_iff (B : Boost) (ses : Nat → CSession) (now : Int) (c : Conn)
    (xs : List Arrival) :
    (∀ ys, (booksOf B now c ys).current.map Ledger.ses =
      ((handleMachine B).run (CHandle.init ses now) (ys.map Arrival.call)).1.sesHash.session c) ∧
    ((∀ ys, ys <+: xs → ∀ l ∈ (booksOf B now c ys).ledgers, l.Exact) ↔
      Book.FilesAlong B now c (fun x l => l.Roomy x) Book.empty xs) ∧
    (Book.FilesAlong B now c (fun x l => l.Roomy x) Book.empty xs →
      (∀ x ∈ xs, x.env.Resets) →
        ∀ l ∈ (booksOf B now c xs).ledgers, l.ses.Carries l.since) := by
  refine ⟨fun ys => (booksOf_run B ses now c ys).1,
    Book.exact_along_iff B now c Book.exact_empty, fun hroomy he l hl => ?_⟩
  exact (balanced_run B now c he
    (Book.countable_of_roomy B now c Book.exact_empty hroomy) l hl).since

/-- The exchange of one request and one response stays exact. -/
theorem exact_run_sample :
    ∀ l ∈ (booksOf Boost.decimal 0 s(⟨1, 1000⟩, ⟨2, 80⟩) sampleFull).ledgers, l.Exact :=
  ((exact_run_iff Boost.decimal blankSes 0 s(⟨1, 1000⟩, ⟨2, 80⟩) sampleFull).2.1.mpr
    (by decide +kernel)) _ List.prefix_rfl

/-! ## A long download -/

/-- The largest payload that an `int16_t` can count. -/
def fullData : Bytes := List.replicate 32767 65

theorem length_fullData : fullData.length = 32767 := List.length_replicate

/-- A response segment with that payload and number `n`. -/
def fullSegment (n : UInt32) : Arrival := arrival ⟨2, 80⟩ ⟨1, 1000⟩ n fullData false

/-- A response of `2 * k` such segments. -/
def download (k : Nat) : List Arrival := (List.replicate k [fullSegment 1, fullSegment 2]).flatten

theorem download_succ (k : Nat) :
    download (k + 1) = fullSegment 1 :: fullSegment 2 :: download k := rfl

theorem fullSegment_data (n : UInt32) : DataSegment ⟨2, 80⟩ ⟨1, 1000⟩ (fullSegment n).packet :=
  dataSegment_arrival _ _ _
    (List.ne_nil_of_length_pos (by rw [length_fullData]; decide))
    (by rw [length_fullData]; decide)

theorem fullSegment_payload (n : UInt32) : (fullSegment n).packet.payload.length = 32767 := by
  rw [fullSegment, payload_arrival _ _ _ _ (by rw [length_fullData]; decide), length_fullData]

theorem mem_download {k : Nat} {x : Arrival} (h : x ∈ download k) : ∃ n, x = fullSegment n := by
  obtain ⟨l, hl, hx⟩ := List.mem_flatten.mp h
  rw [List.eq_of_mem_replicate hl] at hx
  rcases List.mem_pair.mp hx with rfl | rfl
  · exact ⟨1, rfl⟩
  · exact ⟨2, rfl⟩

theorem payloadBytes_download (k : Nat) :
    payloadBytes ((download k).map Arrival.call) = 65534 * k := by
  induction k with
  | zero => rfl
  | succ k ih =>
    rw [download_succ, List.map_cons, List.map_cons]
    unfold payloadBytes at ih ⊢
    rw [List.map_cons, List.map_cons, List.sum_cons, List.sum_cons, ih, Arrival.call_packet,
      Arrival.call_packet, fullSegment_payload, fullSegment_payload]
    omega

/-- Every segment is appended and none is parsed. -/
theorem runArrivals_download (k : Nat) : ∀ f : Flow, f.seqNo ≠ 1 →
    ∃ g, runArrivals s(⟨1, 1000⟩, ⟨2, 80⟩) (some f) (download k) = (some g, []) ∧
      g.rsp.length = f.rsp.length + 65534 * k := by
  induction k with
  | zero => exact fun f _ => ⟨f, rfl, rfl⟩
  | succ k ih =>
    intro f hf
    obtain ⟨g₁, hstep₁, hseq₁, -, hrsp₁⟩ := arrive_response
      (by decide) (f := f) (fullSegment_data 1)
      (by rw [fullSegment, arrival, segment_seqNo]; exact hf)
    rw [fullSegment, arrival, segment_seqNo] at hseq₁
    obtain ⟨g₂, hstep₂, hseq₂, -, hrsp₂⟩ := arrive_response
      (by decide) (f := g₁) (fullSegment_data 2)
      (by rw [fullSegment, arrival, segment_seqNo, hseq₁]; decide)
    rw [fullSegment, arrival, segment_seqNo] at hseq₂
    obtain ⟨g, hrun, hlen⟩ := ih g₂ (by rw [hseq₂]; decide)
    refine ⟨g, ?_, ?_⟩
    · rw [download_succ, runArrivals_cons, runArrivals_cons, hstep₁, hstep₂, hrun]
      rfl
    · rw [hlen, hrsp₂, hrsp₁, List.length_append, List.length_append, fullSegment_payload,
        fullSegment_payload]
      omega

/-- What the session then holds. -/
theorem len_download {k : Nat} (hk : 65534 * k < 2 ^ 32) (hpos : 0 < k) :
    ∃ s, ((handleMachine Boost.decimal).run (init blankSes 0)
        ((download k).map Arrival.call)).1.sesHash.session s(⟨1, 1000⟩, ⟨2, 80⟩) = some s ∧
      s.rspBuf.len = 65534 * k := by
  have hall : ∀ x ∈ download k, x.env = Env.granting 0 ∧ x.packet.conn = s(⟨1, 1000⟩, ⟨2, 80⟩) := by
    intro x hx
    obtain ⟨n, rfl⟩ := mem_download hx
    exact ⟨rfl, (fullSegment_data n).conn.trans Sym2.eq_swap⟩
  have hrefines := run_arrivals Boost.decimal (h := init blankSes 0)
    (CSessionHashTable.wf_init blankSes) (c := s(⟨1, 1000⟩, ⟨2, 80⟩))
    (List.filter_eq_self.mpr fun x hx => decide_eq_true (hall x hx).2)
    (fun x hx => by rw [(hall x hx).1]; decide)
    (fun x hx => by rw [(hall x hx).1]; exact Env.granted_granting 0)
    (fun s hs => absurd hs (Option.not_mem_none s))
    (fitsAlong_of_payload _ (by
      rw [payloadBytes_download]
      exact lt_of_le_of_lt (le_of_eq (Nat.zero_add _)) hk))
  -- the first segment opens the session
  obtain ⟨j, rfl⟩ := Nat.exists_eq_succ_of_ne_zero hpos.ne'
  have hfirst : runArrivals s(⟨1, 1000⟩, ⟨2, 80⟩) none (download (j + 1)) =
      runArrivals s(⟨1, 1000⟩, ⟨2, 80⟩) (some (firstFlow (fullSegment 1))) (download (j + 1)) := by
    rw [download_succ, runArrivals_cons _ none,
      arrive_none ((fullSegment_data 1).conn.trans Sym2.eq_swap), ← runArrivals_cons]
  obtain ⟨g, hrun, hlen⟩ := runArrivals_download (j + 1) (firstFlow (fullSegment 1)) (by decide)
  have hflow := hrefines.flow
  have hsession : (init blankSes 0).sesHash.session s(⟨1, 1000⟩, ⟨2, 80⟩) = none :=
    CSessionHashTable.session_init ..
  rw [hsession, Option.map_none, hfirst, hrun] at hflow
  obtain ⟨s, hs, hsg⟩ := Option.map_eq_some_iff.mp hflow
  refine ⟨s, hs, ?_⟩
  have hwf : s.WF := hrefines.wf s hs
  rw [← hwf.rsp.contents_length]
  have hrsp : s.rspBuf.contents = g.rsp := congrArg Flow.rsp hsg
  have hnew : (firstFlow (fullSegment 1)).rsp = [] := rfl
  rw [hrsp, hlen, hnew]
  exact Nat.zero_add _

/-- 2050 segments exceed the limit. -/
theorem not_exact_download :
    ¬ (∀ ys, ys <+: download 1025 →
      ∀ l ∈ (booksOf Boost.decimal 0 s(⟨1, 1000⟩, ⟨2, 80⟩) ys).ledgers, l.Exact) ∧
    ∃ s, ((handleMachine Boost.decimal).run (init blankSes 0)
        ((download 1025).map Arrival.call)).1.sesHash.session s(⟨1, 1000⟩, ⟨2, 80⟩) = some s ∧
      s.rspBuf.len = 67172350 ∧ maxBufferSize < s.rspBuf.len := by
  obtain ⟨s, hs, hlen⟩ := len_download (k := 1025) (by decide) (by decide)
  have hover : maxBufferSize < s.rspBuf.len := by
    rw [hlen]
    decide
  refine ⟨fun hall => ?_, s, hs, hlen, hover⟩
  have hbooks := (booksOf_run Boost.decimal blankSes 0 s(⟨1, 1000⟩, ⟨2, 80⟩) (download 1025)).1
  rw [hs] at hbooks
  obtain ⟨l, hl, rfl⟩ := Option.map_eq_some_iff.mp hbooks
  have hexact := hall _ List.prefix_rfl l
    (List.mem_append_right _ (Option.mem_toList.mpr hl))
  rw [hexact.rsp] at hover
  exact absurd hexact.rsp_le (not_le.mpr hover)

end HttpDecoder
