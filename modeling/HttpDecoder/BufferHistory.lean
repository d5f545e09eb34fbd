import HttpDecoder.AllocFailure
import HttpDecoder.Conservation
import HttpDecoder.Language
import HttpDecoder.Teardown

/-!
# The calls that made a buffer

Every buffer of a session was made by its constructor and a sequence of calls of `Append` and
`Reset`.  So what holds of a buffer after any such sequence holds of the buffers in the table.

* `Snug` — a well-formed buffer whose block is not much larger than its contents;
  `snug_run` — it stays so, and every store stays inside its block.
* `MadeBy` — the buffer was made by calls that append the given data.
* `connStep_made` — the packets of a connection make its buffers.
* `buffers_made` — **so the buffers of every session in every run were made by its packets**, the
  stores that made them all lay inside their blocks, and they take little more memory than what
  they hold.
-/

namespace HttpDecoder

open CLib CHandle

namespace BufferCall

/-- `Append`. -/
def isAppend : BufferCall → Bool
  | append .. => true
  | reset _ => false

/-- The number of bytes to append. -/
def added : BufferCall → Nat
  | append _ _ size => size
  | reset _ => 0

/-- `Reset` adds nothing. -/
theorem sum_added_filter (calls : List BufferCall) :
    ((calls.filter isAppend).map added).sum = (calls.map added).sum := by
  induction calls with
  | nil => rfl
  | cons d calls ih =>
    cases d with
    | append a p size =>
      rw [List.filter_cons_of_pos rfl, List.map_cons, List.sum_cons, ih, List.map_cons,
        List.sum_cons]
    | reset e =>
      rw [List.filter_cons_of_neg Bool.false_ne_true, ih, List.map_cons, List.sum_cons]
      exact (Nat.zero_add _).symm

end BufferCall

/-! ## Blocks that fit their contents -/

namespace CBuffer

variable {b : CBuffer}

/-- The buffer is well formed, and its block is no larger than what `Reset` leaves uncut or what
the bytes and their terminator need. -/
structure Snug (b : CBuffer) : Prop where
  wf : b.WF
  /-- The block is not too large. -/
  cap_le : b.cap ≤ max (2 * bufferSize + 1) (b.len + 1)

theorem Snug.keeps (h : b.Snug) : b.Keeps b.contents := ⟨h.wf, rfl, h.cap_le⟩

theorem snug_new {e : ResetAlloc} (he : e.malloc.isSome) : (new e).Snug :=
  ⟨wf_new he, (keeps_new he).cap_le⟩

/-- The outcomes of `Append`, with what it stores: those of a request that is granted, or none. -/
theorem append_stores_cases (a : Alloc) (p : Mem) {size : Nat} (hkeep : ¬ b.Frees size) :
    (∃ g : Mem, b.append a (some p) size = b.append (some g) (some p) size ∧
        b.appendStores a (some p) size = b.appendStores (some g) (some p) size) ∨
      b.append a (some p) size = (false, b) ∧ b.appendStores a (some p) size = [] := by
  cases a with
  | some g => exact Or.inl ⟨g, rfl, rfl⟩
  | none =>
    by_cases h0 : size = 0
    · exact Or.inl ⟨fun _ => 0, by simp [append, h0], by simp [appendStores, h0]⟩
    by_cases hroom : size < b.free
    · refine Or.inl ⟨fun _ => 0, ?_, ?_⟩
      · rw [append_fast h0 hroom, append_fast h0 hroom]
      · rw [appendStores_fast h0 hroom, appendStores_fast h0 hroom]
    · have hfree := not_lt.mp hroom
      exact Or.inr ⟨append_refused hfree h0 hkeep, appendStores_refused h0 hfree hkeep⟩

/-- **One call keeps a buffer snug and stores inside its block**, whether `Append` is granted its
memory or not. -/
theorem Snug.step (h : b.Snug) {d : BufferCall} (hreset : d.ResetGranted)
    (hfit : b.len + d.added < 2 ^ 32) :
    (bufferMachine.step b d).1.Snug ∧ (bufferMachine.step b d).1.len ≤ b.len + d.added ∧
      ∀ w ∈ (bufferMachine.step b d).2, w.Inside := by
  cases d with
  | reset e =>
    obtain ⟨hkeeps, hstores⟩ := h.keeps.reset hreset.2
    refine ⟨⟨hkeeps.wf, hkeeps.cap_le⟩, Nat.zero_le _, fun w hw => ?_⟩
    change w ∈ b.resetStores e at hw
    rw [hstores] at hw
    exact absurd hw List.not_mem_nil
  | append a p size =>
    change b.len + size < 2 ^ 32 at hfit
    change (b.append a (some p) size).2.Snug ∧ (b.append a (some p) size).2.len ≤ b.len + size ∧
      ∀ w ∈ b.appendStores a (some p) size, w.Inside
    have hkeep : ¬ b.Frees size := not_frees_of_lt (by omega)
    rcases append_stores_cases a p hkeep with ⟨g, hsame, hstores⟩ | ⟨hsame, hstores⟩
    · rw [hsame, hstores]
      have hlen : (b.contents ++ p.read 0 size).length = b.len + size := by
        rw [List.length_append, h.wf.contents_length, Mem.length_read]
      obtain ⟨hkeeps, hinside⟩ := h.keeps.append (a := some g) rfl (p := p) (hlen.trans_lt hfit)
      exact ⟨⟨hkeeps.wf, hkeeps.cap_le⟩, (hkeeps.isBytes.len.trans hlen).le, hinside⟩
    · rw [hsame, hstores]
      exact ⟨h, Nat.le_add_right _ _, fun w hw => absurd hw List.not_mem_nil⟩

/-- **So do many calls.** -/
theorem Snug.run {calls : List BufferCall} : ∀ {b : CBuffer}, b.Snug →
    (∀ d ∈ calls, d.ResetGranted) → b.len + (calls.map BufferCall.added).sum < 2 ^ 32 →
    (bufferMachine.run b calls).1.Snug ∧ ∀ w ∈ (bufferMachine.run b calls).2, w.Inside := by
  induction calls with
  | nil => exact fun h _ _ => ⟨h, fun w hw => absurd hw List.not_mem_nil⟩
  | cons d calls ih =>
    intro b h hreset hfit
    rw [List.map_cons, List.sum_cons] at hfit
    obtain ⟨hsnug, hlen, hstores⟩ := h.step (hreset d List.mem_cons_self) (by omega)
    obtain ⟨hsnug', hstores'⟩ :=
      ih hsnug (fun d' hd => hreset d' (List.mem_cons_of_mem _ hd)) (by omega)
    refine ⟨hsnug', ?_⟩
    rw [Machine.run_cons, List.forall_mem_append]
    exact ⟨hstores, hstores'⟩

end CBuffer

/-! ## Calls -/

/-- Calls that append data of `as` in its order, each `Reset` being granted its memory. -/
structure CallsOf (as calls : List BufferCall) : Prop where
  appends : (calls.filter BufferCall.isAppend).Sublist as
  resets : ∀ d ∈ calls, d.ResetGranted

/-- The buffer was made by a constructor, which got its memory, and such calls. -/
def MadeBy (as : List BufferCall) (b : CBuffer) : Prop :=
  ∃ (e : ResetAlloc) (calls : List BufferCall), e.malloc.isSome ∧
    b = (bufferMachine.run (CBuffer.new e) calls).1 ∧ CallsOf as calls

section MadeBy

variable {as as' : List BufferCall} {b : CBuffer}

theorem madeBy_new {e : ResetAlloc} (he : e.malloc.isSome) : MadeBy [] (CBuffer.new e) :=
  ⟨e, [], he, rfl, List.Sublist.refl _, fun _ hd => absurd hd List.not_mem_nil⟩

/-- More data to append are no harm. -/
theorem MadeBy.mono (h : MadeBy as b) (hsub : as.Sublist as') : MadeBy as' b := by
  obtain ⟨e, calls, he, hb, hcalls⟩ := h
  exact ⟨e, calls, he, hb, hcalls.appends.trans hsub, hcalls.resets⟩

/-- One more call. -/
theorem MadeBy.step (h : MadeBy as b) {d : BufferCall}
    (hd : ([d].filter BufferCall.isAppend).Sublist as') (hreset : d.ResetGranted) :
    MadeBy (as ++ as') (bufferMachine.step b d).1 := by
  obtain ⟨e, calls, he, rfl, hcalls⟩ := h
  refine ⟨e, calls ++ [d], he, by rw [Machine.run_concat], ?_, ?_⟩
  · rw [List.filter_append]
    exact hcalls.appends.append hd
  · rw [List.forall_mem_append]
    exact ⟨hcalls.resets, fun d' hd' => List.mem_singleton.mp hd' ▸ hreset⟩

theorem MadeBy.reset (h : MadeBy as b) {e : ResetAlloc} (he : e.malloc.isSome ∧ e.realloc.isSome) :
    MadeBy as (b.reset e) := by
  have hstep : MadeBy (as ++ []) (b.reset e) := h.step (d := .reset e) (List.Sublist.refl _) he
  rwa [List.append_nil] at hstep

theorem MadeBy.append (h : MadeBy as b) (a : Alloc) (p : Mem) (size : Nat) :
    MadeBy (as ++ [.append a p size]) (b.append a (some p) size).2 :=
  h.step (d := .append a p size) (List.Sublist.refl _) trivial

end MadeBy

/-! ## Sessions -/

/-- The call of `Append` for a packet. -/
def Arrival.filed (x : Arrival) : BufferCall :=
  .append x.env.append x.packet.data x.packet.dataSize

/-- The calls of `Append` for the packets of a connection in one direction. -/
def filedTo (toServer : Bool) (c : Conn) (xs : List Arrival) : List BufferCall :=
  ((arrivalsOf c xs).filter fun x => x.packet.toServer = toServer).map Arrival.filed

/-- The buffers of a session were made by such packets. -/
structure SessionMade (c : Conn) (xs : List Arrival) (s : CSession) : Prop where
  req : MadeBy (filedTo true c xs) s.reqBuf
  rsp : MadeBy (filedTo false c xs) s.rspBuf

section Steps

variable {B : Boost} {c : Conn} {xs : List Arrival} {x : Arrival} {s : CSession}

theorem filedTo_concat (toServer : Bool) (hc : x.packet.conn = c) :
    filedTo toServer c (xs ++ [x]) = filedTo toServer c xs ++
      if x.packet.toServer = toServer then [x.filed] else [] := by
  unfold filedTo arrivalsOf
  rw [List.filter_append, List.filter_append, List.map_append, List.filter_singleton,
    decide_eq_true hc]
  by_cases hto : x.packet.toServer = toServer <;> simp [hto]

/-- A packet more is no harm. -/
theorem SessionMade.concat (h : SessionMade c xs s) (x : Arrival) :
    SessionMade c (xs ++ [x]) s := by
  have hsub : ∀ toServer, (filedTo toServer c xs).Sublist (filedTo toServer c (xs ++ [x])) := by
    intro toServer
    exact (((List.sublist_append_left xs [x]).filter _).filter _).map _
  exact ⟨h.req.mono (hsub true), h.rsp.mono (hsub false)⟩

theorem SessionMade.reset (h : SessionMade c xs s) {e : SesAlloc} (he : e.Granted) :
    SessionMade c xs (s.reset e) :=
  ⟨h.req.reset ⟨he.req_malloc, he.req_realloc⟩, h.rsp.reset ⟨he.rsp_malloc, he.rsp_realloc⟩⟩

theorem SessionMade.parse (h : SessionMade c xs s) {e : ParseEnv} (he : e.reset.Granted) :
    SessionMade c xs (parse B e s).1 := by
  rw [parse_fst]
  exact h.reset he

theorem SessionMade.parseFull (h : SessionMade c xs s) {e : ParseEnv} (he : e.reset.Granted) :
    SessionMade c xs (CHandle.parseFull B e s).1 := by
  unfold CHandle.parseFull
  split
  · exact h.parse he
  · exact h

/-- The sweep only resets. -/
theorem SessionMade.sweepConn {e : Env} (he : e.Resets) (reach : Nat) {o : Option CSession}
    (h : ∀ s ∈ o, SessionMade c xs s) :
    ∀ s ∈ (CHandle.sweepConn B e reach o).1, SessionMade c xs s := by
  cases o with
  | none => exact fun s hs => absurd hs (Option.not_mem_none s)
  | some s₀ =>
    intro s hs
    have h₀ := h s₀ rfl
    rcases sweepConn_cases B e reach s₀ s hs with rfl | rfl
    · unfold sweptSes
      split
      · exact h₀.parse (he.sweep _ _)
      · exact h₀
    · exact h₀

/-- The session that a packet finds or gets. -/
theorem SessionMade.opened (he : x.env.Resets) {o : Option CSession}
    (h : ∀ s ∈ o, SessionMade c xs s) :
    SessionMade c xs (CHandle.opened x.call (behavior x.packet) o) := by
  cases o with
  | some s => exact ⟨(h s rfl).req, (h s rfl).rsp⟩
  | none =>
    have hreq := (madeBy_new he.bufs.req_malloc).reset ⟨he.reset.req_malloc, he.reset.req_realloc⟩
    have hrsp := (madeBy_new he.bufs.rsp_malloc).reset ⟨he.reset.rsp_malloc, he.reset.rsp_realloc⟩
    show SessionMade c xs (CSessionHashTable.newSession x.env.timeCreate x.env.new x.packet
      (behavior x.packet))
    unfold CSessionHashTable.newSession
    split
    · exact ⟨hreq.mono (List.nil_sublist _), hrsp.mono (List.nil_sublist _)⟩
    · exact ⟨hreq.mono (List.nil_sublist _), hrsp.mono (List.nil_sublist _)⟩

/-- `Append` on the request. -/
theorem SessionMade.appendRequest (h : SessionMade c xs s) (hc : x.packet.conn = c)
    (hto : x.packet.toServer = true) :
    SessionMade c (xs ++ [x]) (CHandle.appendRequest x.env x.packet s).2 := by
  refine ⟨?_, (h.concat x).rsp⟩
  rw [filedTo_concat true hc, if_pos hto]
  exact h.req.append ..

/-- `Append` on the response. -/
theorem SessionMade.appendResponse (h : SessionMade c xs s) (hc : x.packet.conn = c)
    (hto : x.packet.toServer = false) :
    SessionMade c (xs ++ [x]) (CHandle.appendResponse x.env x.packet s).2 := by
  refine ⟨(h.concat x).req, ?_⟩
  rw [filedTo_concat false hc, if_pos hto]
  exact h.rsp.append ..

theorem SessionMade.setSeq (h : SessionMade c xs s) (n m : UInt32) :
    SessionMade c xs (s.setSeq n m) := ⟨h.req, h.rsp⟩

/-- A time stamp leaves the buffers. -/
theorem SessionMade.congr {s' : CSession} (h : SessionMade c xs s) (hreq : s'.reqBuf = s.reqBuf)
    (hrsp : s'.rspBuf = s.rspBuf) : SessionMade c xs s' :=
  ⟨hreq ▸ h.req, hrsp ▸ h.rsp⟩

/-- Filing a packet appends its data in its direction. -/
theorem SessionMade.processData (h : SessionMade c xs s) (he : x.env.Resets)
    (hc : x.packet.conn = c) : SessionMade c (xs ++ [x])
      (CHandle.processData B x.env x.packet (behavior x.packet).matchWay s).ses := by
  have h₀ := h.setSeq x.packet.seqNo x.packet.ackSeqNo
  cases hto : x.packet.toServer with
  | true =>
    have h₁ := h₀.parseFull (B := B) he.parse
    obtain ⟨-, -, -, hreq, hrsp⟩ := stampRequest_fields x.packet
      (CHandle.parseFull B x.env.parse (s.setSeq x.packet.seqNo x.packet.ackSeqNo)).1
    rw [processData_toServer B hto]
    exact (h₁.congr hreq hrsp).appendRequest hc hto
  | false =>
    obtain ⟨-, -, -, hreq, hrsp⟩ := stampResponse_fields x.packet
      (s.setSeq x.packet.seqNo x.packet.ackSeqNo)
    rw [processData_toClient B hto]
    exact (h₀.congr hreq hrsp).appendResponse hc hto

/-- **The packets of a connection make its buffers.** -/
theorem connStep_made (last : Int) (he : x.env.Resets) {o : Option CSession}
    (h : ∀ s ∈ o, SessionMade c xs s) :
    ∀ s ∈ (connStep B last c o x.call).1, SessionMade c (xs ++ [x]) s := by
  have hsweep := SessionMade.sweepConn (B := B) he (sweepReach last x.env) h
  intro s hs
  unfold connStep at hs
  simp only [Arrival.call_info] at hs
  rw [show x.call.env = x.env from rfl] at hs
  generalize CHandle.sweepConn B x.env (sweepReach last x.env) o = q at hsweep hs
  by_cases hc : x.packet.conn = c
  · rw [Arrival.call_packet, if_pos hc] at hs
    have hopened := SessionMade.opened he hsweep
    rcases serve_cases B x.call (behavior x.packet) _ s hs with rfl | rfl
    · exact hopened.concat x
    · exact hopened.processData he hc
  · rw [Arrival.call_packet, if_neg hc] at hs
    exact (hsweep s hs).concat x

/-- **So do those of a run.** -/
theorem run_made (B : Boost) (last : Int) (c : Conn) {xs : List Arrival}
    (he : ∀ x ∈ xs, x.env.Resets) :
    ∀ s ∈ ((connMachine B last c).run none (xs.map Arrival.call)).1, SessionMade c xs s := by
  induction xs using List.reverseRecOn with
  | nil => exact fun s hs => absurd hs (Option.not_mem_none s)
  | append_singleton xs x ih =>
    obtain ⟨hxs, hx⟩ := List.forall_mem_append.mp he
    rw [List.map_append, List.map_singleton, Machine.run_concat]
    exact connStep_made last (hx x (List.mem_singleton.mpr rfl)) (ih hxs)

end Steps

/-! ## Every buffer of every run -/

/-- The buffer of a session for one direction. -/
def CSession.bufTo (s : CSession) (toServer : Bool) : CBuffer :=
  if toServer then s.reqBuf else s.rspBuf

/-- The payload to be appended is part of that of the connection. -/
theorem sum_added_le (toServer : Bool) (c : Conn) (xs : List Arrival) :
    ((filedTo toServer c xs).map BufferCall.added).sum ≤
      payloadBytes (ofConn c (xs.map Arrival.call)) := by
  have hown : ofConn c (xs.map Arrival.call) = (arrivalsOf c xs).map Arrival.call := by
    rw [ofConn, List.filter_map]
    rfl
  have hsize : ∀ ys : List Arrival, (ys.map Arrival.filed).map BufferCall.added =
      (ys.map Arrival.call).map fun y => y.packet.payload.length := by
    intro ys
    rw [List.map_map, List.map_map]
    exact List.map_congr_left fun y _ => (Mem.length_read ..).symm
  rw [hown, filedTo, hsize, payloadBytes]
  exact ((List.filter_sublist.map _).map _).sum_le_sum fun _ _ => Nat.zero_le _

/-- **The buffers of every session were made by its packets, inside their blocks.**  In every run
from `Init`, with any sweeps and whether `Append` is granted its memory or not, as long as the
constructors and `Reset` are and the payload of every connection can be counted: either buffer of
the session of a connection is what its constructor and some calls of `Append` and `Reset` made,
the appends being those of packets of this connection in this direction, in their order; every
store of these calls lay inside the block; and the block is no larger than what the bytes in the
buffer and their terminator need, or than `2 * BUFFER_SIZE + 1`. -/
theorem buffers_made (B : Boost) {ses : Nat → CSession} {now : Int} {xs : List Arrival} {c : Conn}
    {s : CSession} (he : ∀ x ∈ xs, x.env.Resets)
    (hsmall : ∀ c', payloadBytes (ofConn c' (xs.map Arrival.call)) < 2 ^ 32)
    (hs : ((handleMachine B).run (init ses now) (xs.map Arrival.call)).1.sesHash.session c = some s)
    (toServer : Bool) :
    ∃ (e : ResetAlloc) (calls : List BufferCall),
      s.bufTo toServer = (bufferMachine.run (CBuffer.new e) calls).1 ∧
      (calls.filter BufferCall.isAppend).Sublist (filedTo toServer c xs) ∧
      (∀ w ∈ CBuffer.newStores e ++ (bufferMachine.run (CBuffer.new e) calls).2, w.Inside) ∧
      (s.bufTo toServer).cap ≤ max (2 * bufferSize + 1) ((s.bufTo toServer).len + 1) := by
  rw [(run_conn B (CSessionHashTable.wf_init ses) c (xs.map Arrival.call)).1,
    show (init ses now).sesHash.session c = none from CSessionHashTable.session_init ses c] at hs
  have hmade := run_made B _ c he s hs
  have hbuf : MadeBy (filedTo toServer c xs) (s.bufTo toServer) := by
    cases toServer with
    | true => exact hmade.req
    | false => exact hmade.rsp
  obtain ⟨e, calls, halloc, hrun, hcalls⟩ := hbuf
  have hsum : (calls.map BufferCall.added).sum < 2 ^ 32 := by
    rw [← BufferCall.sum_added_filter]
    calc ((calls.filter BufferCall.isAppend).map BufferCall.added).sum
        ≤ ((filedTo toServer c xs).map BufferCall.added).sum :=
          (hcalls.appends.map _).sum_le_sum fun _ _ => Nat.zero_le _
      _ ≤ payloadBytes (ofConn c (xs.map Arrival.call)) := sum_added_le toServer c xs
      _ < 2 ^ 32 := hsmall c
  obtain ⟨hsnug, hstores⟩ := (CBuffer.snug_new halloc).run hcalls.resets
    ((Nat.zero_add _).trans_lt hsum)
  refine ⟨e, calls, hrun, hcalls.appends, ?_, ?_⟩
  · rw [List.forall_mem_append]
    exact ⟨CBuffer.newStores_inside e, hstores⟩
  · rw [hrun]
    exact hsnug.cap_le

/-- A segment that fills the buffer while `Append` is refused its memory. -/
def refusedSegment : Arrival where
  packet := (arrival ⟨1, 1000⟩ ⟨2, 80⟩ 7 (List.replicate 2048 65) false).packet
  env := { Env.granting 0 with append := none }

/-- A request and a response, which this segment makes `Process` parse and reset, and one more
byte. -/
def refusedRun : List Arrival :=
  [arrival ⟨1, 1000⟩ ⟨2, 80⟩ 5 [71] false, arrival ⟨2, 80⟩ ⟨1, 1000⟩ 6 [72] false, refusedSegment,
    arrival ⟨1, 1000⟩ ⟨2, 80⟩ 8 [73] false]

theorem payload_refusedSegment : refusedSegment.packet.payload.length = 2048 := by
  show (arrival ⟨1, 1000⟩ ⟨2, 80⟩ 7 (List.replicate 2048 65) false).packet.payload.length = 2048
  rw [payload_arrival _ _ _ _ (by rw [List.length_replicate]; decide), List.length_replicate]

theorem buffers_made_refused : ∃ s,
    ((handleMachine Boost.decimal).run (init blankSes 0) (refusedRun.map
      Arrival.call)).1.sesHash.session s(⟨1, 1000⟩, ⟨2, 80⟩) = some s ∧
      ∃ (e : ResetAlloc) (calls : List BufferCall),
        s.bufTo true = (bufferMachine.run (CBuffer.new e) calls).1 ∧
        (calls.filter BufferCall.isAppend).Sublist
          (filedTo true s(⟨1, 1000⟩, ⟨2, 80⟩) refusedRun) ∧
        (∀ w ∈ CBuffer.newStores e ++ (bufferMachine.run (CBuffer.new e) calls).2, w.Inside) ∧
        (s.bufTo true).cap ≤ max (2 * bufferSize + 1) ((s.bufTo true).len + 1) := by
  have hresets : ∀ x ∈ refusedRun, x.env.Resets := by
    have hgrant := (Env.granted_granting 0).toResets
    intro x hx
    simp only [refusedRun, List.mem_cons, List.not_mem_nil, or_false] at hx
    rcases hx with rfl | rfl | rfl | rfl
    · exact hgrant
    · exact hgrant
    · exact ⟨hgrant.bufs, hgrant.reset, hgrant.parse, hgrant.sweep⟩
    · exact hgrant
  have hbytes : payloadBytes (refusedRun.map Arrival.call) < 2 ^ 32 := by
    simp [payloadBytes, refusedRun, payload_arrival, payload_refusedSegment]
  have hleft := (run_session_none_iff Boost.decimal blankSes 0 (refusedRun.take 3)
    (arrival ⟨1, 1000⟩ ⟨2, 80⟩ 8 [73] false)).not.mpr (by simp [arrival, segment_closes])
  obtain ⟨s, hs⟩ := Option.ne_none_iff_exists'.mp hleft
  exact ⟨s, hs, buffers_made Boost.decimal hresets
    (fun _ => (payloadBytes_le List.filter_sublist).trans_lt hbytes) hs true⟩

end HttpDecoder
