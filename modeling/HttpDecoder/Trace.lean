import HttpDecoder.Segment

/-!
# The packets of one connection

Arrivals of one connection, as its flow reads them while no sweep is due.

* `DataSegment`, `bytesOf`, `lastSeq` — what a trace is made of.
* `arrive`, `runArrivals`, `Countable` — the flow along a trace.
* `run_arrivals` — a run of the handle is, for a connection, the run of its flow.
* `arrive_request`, `arrive_response`, `arrive_closes` — what one packet does.
-/

namespace HttpDecoder

open CLib CHandle

/-! ## Segments -/

/-- A segment with payload from `a` to `b`; `m_DataLen` is an `int16_t`. -/
structure DataSegment (a b : Endpoint) (p : CFormatPacket) : Prop where
  src : p.src = a
  dst : p.dst = b
  opens : p.closes = false
  pos : 0 < p.dataLen
  /-- The length is a 16-bit one. -/
  short : p.dataLen < 2 ^ 15

/-- The bytes some segments carry. -/
def bytesOf (xs : List Arrival) : Bytes := xs.flatMap fun x => x.packet.payload

@[simp] theorem bytesOf_cons (x : Arrival) (xs : List Arrival) :
    bytesOf (x :: xs) = x.packet.payload ++ bytesOf xs := List.flatMap_cons

/-- The number of the last segment, `n` if there is none. -/
def lastSeq (n : UInt32) : List Arrival → UInt32
  | [] => n
  | x :: xs => lastSeq x.packet.seqNo xs

theorem lastSeq_append (n : UInt32) (xs ys : List Arrival) :
    lastSeq n (xs ++ ys) = lastSeq (lastSeq n xs) ys := by
  induction xs generalizing n with
  | nil => rfl
  | cons x xs ih => exact ih _

/-! ## Segments in the flow -/

section Segments

variable {a b client server : Endpoint} {p : CFormatPacket}

theorem DataSegment.conn (h : DataSegment a b p) : p.conn = s(a, b) := by
  rw [CFormatPacket.conn, h.src, h.dst]

/-- A 16-bit length other than zero leaves payload. -/
theorem payload_ne_of_int16 (hlo : -2 ^ 15 ≤ p.dataLen) (hhi : p.dataLen < 2 ^ 15)
    (h : p.dataLen ≠ 0) : p.payload ≠ [] := by
  have hsize : p.dataSize ≠ 0 := by
    unfold CFormatPacket.dataSize sizeT
    omega
  intro hnil
  have hlen : p.payload.length = p.dataSize := Mem.length_read ..
  rw [hnil] at hlen
  exact hsize hlen.symm

theorem DataSegment.payload_ne (h : DataSegment a b p) : p.payload ≠ [] := by
  have hpos := h.pos
  exact payload_ne_of_int16 (by omega) h.short (by omega)

/-- The step of the flow for an arrival. -/
def arrive (c : Conn) (o : Option Flow) (x : Arrival) : Option Flow × List Flow :=
  (flowMachine c).step o x.call

/-- The run of the flow over arrivals. -/
def runArrivals (c : Conn) (o : Option Flow) (xs : List Arrival) : Option Flow × List Flow :=
  (flowMachine c).run o (xs.map Arrival.call)

/-- The bytes can be counted along such a run. -/
def Countable (c : Conn) (o : Option Flow) (xs : List Arrival) : Prop :=
  FitsAlong c o (xs.map Arrival.call)

theorem runArrivals_cons (c : Conn) (o : Option Flow) (x : Arrival) (xs : List Arrival) :
    runArrivals c o (x :: xs) = ((runArrivals c (arrive c o x).1 xs).1,
      (arrive c o x).2 ++ (runArrivals c (arrive c o x).1 xs).2) := rfl

theorem runArrivals_append (c : Conn) (o : Option Flow) (xs ys : List Arrival) :
    runArrivals c o (xs ++ ys) = ((runArrivals c (runArrivals c o xs).1 ys).1,
      (runArrivals c o xs).2 ++ (runArrivals c (runArrivals c o xs).1 ys).2) := by
  unfold runArrivals
  rw [List.map_append, Machine.run_append]

theorem countable_cons {c : Conn} {o : Option Flow} {x : Arrival} {xs : List Arrival} :
    Countable c o (x :: xs) ↔
      (∀ f ∈ (arrive c o x).1, f.Fits) ∧ Countable c (arrive c o x).1 xs := Iff.rfl

theorem countable_append {c : Conn} {o : Option Flow} {xs ys : List Arrival} :
    Countable c o (xs ++ ys) ↔
      Countable c o xs ∧ Countable c (runArrivals c o xs).1 ys := by
  unfold Countable runArrivals FitsAlong
  rw [List.map_append, Machine.along_append]

/-- **While no sweep is due, the machine of a connection runs as its flow does on its own
arrivals.** -/
theorem connMachine_arrivals (B : Boost) {last : Int} {c : Conn} {xs own : List Arrival}
    (htrace : (xs.filter fun x => x.packet.conn = c) = own)
    (hquiet : ∀ x ∈ xs, x.env.timeCheck - last < timeoutCheckDur)
    (hgrant : ∀ x ∈ own, x.env.Granted) {o : Option CSession} (ho : ∀ s ∈ o, s.WF)
    (hfit : Countable c (o.map CSession.flow) own) :
    Refines ((connMachine B last c).run o (xs.map Arrival.call))
      (runArrivals c (o.map CSession.flow) own) := by
  have hquiet' : ∀ y ∈ xs.map Arrival.call, y.env.timeCheck - last < timeoutCheckDur := by
    intro y hy
    obtain ⟨x, hx, rfl⟩ := List.mem_map.mp hy
    exact hquiet x hx
  have hown : ofConn c (xs.map Arrival.call) = own.map Arrival.call := by
    rw [← htrace, ofConn, List.filter_map]
    rfl
  rw [connMachine_ofConn B c hquiet', hown]
  refine connMachine_flow B (fun y hy => ?_) (fun y hy => ?_) ho hfit
  · rw [← hown] at hy
    exact hquiet' y (List.mem_of_mem_filter hy)
  · obtain ⟨x, hx, rfl⟩ := List.mem_map.mp hy
    exact hgrant x hx

/-- So does the handle, seen from the connection. -/
theorem run_arrivals (B : Boost) {h : CHandle} (hw : h.sesHash.WF) {c : Conn}
    {xs own : List Arrival} (htrace : (xs.filter fun x => x.packet.conn = c) = own)
    (hquiet : ∀ x ∈ xs, x.env.timeCheck - h.lastTimeOutCheck < timeoutCheckDur)
    (hgrant : ∀ x ∈ own, x.env.Granted) (ho : ∀ s ∈ h.sesHash.session c, s.WF)
    (hfit : Countable c ((h.sesHash.session c).map CSession.flow) own) :
    Refines (((handleMachine B).run h (xs.map Arrival.call)).1.sesHash.session c,
        ((handleMachine B).run h (xs.map Arrival.call)).2.filterMap (obsConn c))
      (runArrivals c ((h.sesHash.session c).map CSession.flow) own) := by
  obtain ⟨hses, hcalls⟩ := run_conn B hw c (xs.map Arrival.call)
  rw [hses, hcalls]
  exact connMachine_arrivals B htrace hquiet hgrant ho hfit

theorem arrive_eq {c : Conn} {x : Arrival} (hc : x.packet.conn = c) (o : Option Flow) :
    arrive c o x =
      (Flow.opened x.call (behavior x.packet) o).serve x.packet (behavior x.packet) := by
  have hstep := Flow.step_quiet (Arrival.call_info x) (c := c) (by rw [Arrival.call_packet, hc]) o
  rw [Arrival.call_packet] at hstep
  exact hstep

theorem arrive_some {c : Conn} {x : Arrival} (hc : x.packet.conn = c) (f : Flow) :
    arrive c (some f) x = f.serve x.packet (behavior x.packet) := arrive_eq hc (some f)

/-- A data segment to the server that is not a repetition. -/
theorem arrive_request (hport : server.port = 80) {f : Flow} {x : Arrival}
    (h : DataSegment client server x.packet) (hseq : f.seqNo ≠ x.packet.seqNo) :
    ∃ g out, arrive s(client, server) (some f) x = (some g, out) ∧ g.seqNo = x.packet.seqNo ∧
      g.req = f.parseFull.1.req ++ x.packet.payload ∧ g.rsp = f.parseFull.1.rsp ∧
      out.map (fun k => (k.req, k.rsp)) = f.pending := by
  have hway := behavior_matchWay_of_eq (p := x.packet) (by rw [h.dst, hport])
  have hpos := h.pos
  rw [arrive_some h.conn, Flow.serve_data h.opens hseq (by omega), hway]
  obtain ⟨hreq, hrsp, hout⟩ := f.file_request x.packet
  exact ⟨_, _, rfl, f.file_seqNo .., hreq, hrsp, hout⟩

/-- A data segment to the client that is not a repetition. -/
theorem arrive_response (hport : client.port ≠ 80) {f : Flow} {x : Arrival}
    (h : DataSegment server client x.packet) (hseq : f.seqNo ≠ x.packet.seqNo) :
    ∃ g, arrive s(client, server) (some f) x = (some g, []) ∧ g.seqNo = x.packet.seqNo ∧
      g.req = f.req ∧ g.rsp = f.rsp ++ x.packet.payload := by
  have hway := behavior_matchWay_of_ne (p := x.packet) (by rw [h.dst]; exact hport)
  have hpos := h.pos
  rw [arrive_some (h.conn.trans Sym2.eq_swap), Flow.serve_data h.opens hseq (by omega), hway]
  obtain ⟨hreq, hrsp, hout⟩ := f.file_response x.packet
  exact ⟨_, by rw [hout], f.file_seqNo .., hreq, hrsp⟩

end Segments

/-- The flow the first packet of a connection opens. -/
def firstFlow (x : Arrival) : Flow := Flow.create x.env.new x.packet (behavior x.packet)

/-- Opening the session is part of serving the packet. -/
theorem arrive_opened {c : Conn} {x : Arrival} (hc : x.packet.conn = c) (o : Option Flow) :
    arrive c o x = arrive c (some (Flow.opened x.call (behavior x.packet) o)) x := by
  rw [arrive_eq hc, arrive_some hc]

/-- A packet that finds no session opens one and is served by it. -/
theorem arrive_none {c : Conn} {x : Arrival} (hc : x.packet.conn = c) :
    arrive c none x = arrive c (some (firstFlow x)) x := arrive_opened hc none

/-- A FIN or RST hands out what is there and leaves nothing. -/
theorem arrive_closes {c : Conn} {x : Arrival} (hc : x.packet.conn = c)
    (hclose : x.packet.closes = true) (f : Flow) : arrive c (some f) x = (none, [f]) := by
  rw [arrive_some hc, Flow.serve_closes hclose]

theorem dataSegment_arrival (src dst : Endpoint) (seqNo : UInt32) {data : Bytes}
    (hne : data ≠ []) (hlen : data.length < 2 ^ 15) :
    DataSegment src dst (arrival src dst seqNo data false).packet where
  src := segment_src ..
  dst := segment_dst ..
  opens := segment_closes ..
  pos := by
    show (0 : Int) < data.length
    exact_mod_cast List.length_pos_iff.mpr hne
  short := by
    show (data.length : Int) < 2 ^ 15
    exact_mod_cast hlen

theorem payload_arrival (src dst : Endpoint) (seqNo : UInt32) {data : Bytes} (fin : Bool)
    (hlen : data.length < 2 ^ 64) : (arrival src dst seqNo data fin).packet.payload = data :=
  segment_payload src dst seqNo fin hlen

end HttpDecoder
