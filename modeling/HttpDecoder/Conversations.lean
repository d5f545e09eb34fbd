import HttpDecoder.EndOfFile
import HttpDecoder.RecentActivity
import HttpDecoder.Roles
import HttpDecoder.RoundTrip

/-!
# From capture files to reports

A keep-alive connection among others in some capture files, from the bytes of the frames to the
bytes of the file that is written.

* `Transaction.record` — what is to be printed for an exchange; `parse_record` — **`Parse` sends
  that record**.
* `runArrivals_ends` — the exchanges of a connection are handed out with its ends.
* `Conversation` — a connection with its exchanges and its packets; `Conversation.Proper.reports` —
  **its exchanges are reported in order**, whatever the other connections do.
* `captures_report` — **from capture files to the report**.
-/

namespace HttpDecoder

open CLib CHandle

/-! ## The record of an exchange -/

/-- What is printed for an exchange. -/
def Transaction.record (t : Transaction) (client server : Endpoint) : Record where
  client := client
  server := server
  method := t.method.2
  version := t.version.2
  retCode := t.num
  retNote := t.reason
  url := t.url
  requestHeader := (∅ : HeaderMap).insertMany t.requestHeaders
  requestContext := t.request
  responseHeader := (∅ : HeaderMap).insertMany t.responseHeaders
  responseContext := t.response

/-- A buffer whose contents are not empty shows them. -/
theorem CBuffer.shows_contents {b : CBuffer} (h : b.contents ≠ []) : b.Shows b.contents := by
  unfold CBuffer.contents at h ⊢
  cases hbuf : b.buf with
  | none =>
    rw [hbuf] at h
    exact absurd rfl h
  | some blk => exact ⟨by simp, blk, hbuf, Mem.holds_read _ _ _⟩

/-- Which ends are printed, and the bytes, do not hang on the result. -/
theorem send_withResult (s : CSession) (r : CResult) : send { s with result := r } =
    ⟨s.client, s.server, r.method, r.version, r.retCode, r.retNote, r.url, r.requestHeader,
      s.reqBuf.contents, r.responseHeader, s.rspBuf.contents⟩ := rfl

/-- **`Parse` sends the record of the exchange** that the buffers of a clean session hold. -/
theorem parse_record {B : Boost} (hB : B.CastsVersions) (hD : B.CastsDecimals) {t : Transaction}
    (ht : t.Valid) (e : ParseEnv) {s : CSession} (hclean : s.Clean)
    (hreq : s.reqBuf.Shows t.request) (hrsp : s.rspBuf.Shows t.response) :
    (parse B e s).2 = some (t.record s.client s.server) := by
  obtain ⟨hreqLong, hrspLong⟩ := ht.long
  obtain ⟨reqBlk, hreqBuf, hreqHolds⟩ := hreq.block
  obtain ⟨rspBlk, hrspBuf, hrspHolds⟩ := hrsp.block
  have hreqLen := hreq.len
  have hrspLen := hrsp.len
  have hreqSmall := ht.request_small
  have hrspSmall := ht.response_small
  have hreqUnread : Unread reqBlk.byte s.reqBuf.len 0 t.request := ⟨hreqHolds, by omega, by omega⟩
  have hrspUnread : Unread rspBlk.byte s.rspBuf.len 0 t.response := ⟨hrspHolds, by omega, by omega⟩
  obtain ⟨reqPos, reqEvals, -, hreqParse⟩ := parseRequest_block e.method hreqUnread (by omega)
    (ht.requestLine hB) (headerLines_headerText ht.requestHeaders _)
    (Transaction.blank_append ht.requestEnd _) s.result
  have hstart : StatusStart B (requestResult e.method s.result t.method.1 t.url t.version.2
      t.requestHeaders).version t.response t.num _ := ht.statusStart hB hD
  obtain ⟨rspPos, rspEvals, -, hrspParse⟩ := parseResponse_block hrspUnread (by omega) hstart
    ⟨rfl, ht.reason⟩ (headerLines_headerText ht.responseHeaders _)
    (Transaction.blank_append ht.responseEnd _)
  have hsnd := parse_snd (B := B) (e := e) hreqBuf hrspBuf (by omega) (by omega)
  simp only [hreqParse, hrspParse] at hsnd
  have hreq' := hreq.contents_eq
  have hrsp' := hrsp.contents_eq
  have hmethod := getMethod_of_mem e.method ht.method
  refine hsnd.trans (congrArg some ((send_withResult s _).trans ?_))
  simp only [responseResult, requestResult, Transaction.record, hclean.retNote, hclean.url,
    hclean.requestHeader, hclean.responseHeader, List.nil_append, hreq', hrsp', hmethod]

/-! ## The ends of a flow -/

namespace Flow

/-- The server and the client end. -/
def ends (f : Flow) : Endpoint × Endpoint := (f.server, f.client)

theorem parseFull_ends (f : Flow) : f.parseFull.1.ends = f.ends ∧
    ∀ g ∈ f.parseFull.2, g.ends = f.ends := by
  unfold parseFull
  split
  · exact ⟨rfl, fun g hg => by rw [List.mem_singleton.mp hg]⟩
  · exact ⟨rfl, fun g hg => absurd hg List.not_mem_nil⟩

theorem stampRequest_ends (f : Flow) (p : CFormatPacket) : (f.stampRequest p).ends = f.ends := by
  unfold stampRequest
  split <;> rfl

theorem stampResponse_ends (f : Flow) (p : CFormatPacket) : (f.stampResponse p).ends = f.ends := by
  unfold stampResponse
  split <;> rfl

@[simp] theorem setSeq_ends (f : Flow) (n m : UInt32) : (f.setSeq n m).ends = f.ends := rfl

@[simp] theorem appendRequest_ends (f : Flow) (p : CFormatPacket) :
    (f.appendRequest p).ends = f.ends := rfl

@[simp] theorem appendResponse_ends (f : Flow) (p : CFormatPacket) :
    (f.appendResponse p).ends = f.ends := rfl

/-- Filing a packet keeps the ends. -/
theorem file_ends (f : Flow) (p : CFormatPacket) (way : UInt32) :
    (f.file p way).1.ends = f.ends ∧ ∀ g ∈ (f.file p way).2, g.ends = f.ends := by
  unfold file
  generalize hf : f.setSeq p.seqNo p.ackSeqNo = f₀
  have h₀ : f₀.ends = f.ends := by rw [← hf, setSeq_ends]
  obtain ⟨hfull, hout⟩ := f₀.parseFull_ends
  have hnone : ∀ g ∈ ([] : List Flow), g.ends = f.ends := fun g hg => absurd hg List.not_mem_nil
  simp only
  split_ifs
  · exact ⟨h₀, hnone⟩
  · rw [appendRequest_ends, stampRequest_ends, hfull]
    exact ⟨h₀, fun g hg => (hout g hg).trans h₀⟩
  · rw [appendResponse_ends, stampResponse_ends]
    exact ⟨h₀, hnone⟩
  · exact ⟨h₀, hnone⟩

/-- So does serving it. -/
theorem serve_ends (f : Flow) (p : CFormatPacket) (info : CSharedBehaviorInfo) :
    (∀ g ∈ (f.serve p info).1, g.ends = f.ends) ∧ ∀ g ∈ (f.serve p info).2, g.ends = f.ends := by
  have hsame : (∀ g ∈ some f, g.ends = f.ends) ∧ ∀ g ∈ ([] : List Flow), g.ends = f.ends :=
    ⟨fun g hg => by rw [Option.mem_some_iff.mp hg], fun g hg => absurd hg List.not_mem_nil⟩
  unfold serve
  split_ifs
  · exact ⟨fun g hg => absurd hg (Option.not_mem_none g),
      fun g hg => by rw [List.mem_singleton.mp hg]⟩
  · exact hsame
  · exact hsame
  · obtain ⟨hses, hout⟩ := f.file_ends p info.matchWay
    exact ⟨fun g hg => Option.mem_some_iff.mp hg ▸ hses, hout⟩

end Flow

section Ends

variable {client server : Endpoint}

/-- The first packet of a connection to port 80 finds out which end is the server, whichever of
the two sends it. -/
theorem firstFlow_ends (hport : server.port = 80) (hport' : client.port ≠ 80) {x : Arrival}
    (hx : x.packet.conn = s(client, server)) : (firstFlow x).ends = (server, client) := by
  obtain ⟨hserver, hclient⟩ := newSession_behavior 0 x.env.new x.packet
  have hends : (firstFlow x).ends = ((CSessionHashTable.newSession 0 x.env.new x.packet
      (behavior x.packet)).server, (CSessionHashTable.newSession 0 x.env.new x.packet
      (behavior x.packet)).client) := by
    rw [firstFlow, ← CSessionHashTable.newSession_flow 0]
    rfl
  rw [hends, hserver, hclient]
  rcases Sym2.eq_iff.mp hx with ⟨hsrc, hdst⟩ | ⟨hsrc, hdst⟩
  · rw [hsrc, hdst, if_pos hport, if_pos hport]
  · rw [hsrc, hdst, if_neg hport', if_neg hport']

/-- One packet keeps the ends. -/
theorem arrive_ends (hport : server.port = 80) (hport' : client.port ≠ 80) {x : Arrival}
    (hx : x.packet.conn = s(client, server)) {o : Option Flow}
    (ho : ∀ f ∈ o, f.ends = (server, client)) :
    (∀ f ∈ (arrive s(client, server) o x).1, f.ends = (server, client)) ∧
      ∀ f ∈ (arrive s(client, server) o x).2, f.ends = (server, client) := by
  have hopened : (Flow.opened x.call (behavior x.packet) o).ends = (server, client) := by
    cases o with
    | none => exact firstFlow_ends hport hport' hx
    | some f => exact ho f rfl
  rw [arrive_eq hx]
  obtain ⟨hses, hout⟩ := (Flow.opened x.call (behavior x.packet) o).serve_ends x.packet
    (behavior x.packet)
  exact ⟨fun f hf => (hses f hf).trans hopened, fun f hf => (hout f hf).trans hopened⟩

/-- **So the exchanges of a connection are all handed out with the ends of the connection.** -/
theorem runArrivals_ends (hport : server.port = 80) (hport' : client.port ≠ 80)
    {xs : List Arrival} (hxs : ∀ x ∈ xs, x.packet.conn = s(client, server)) :
    ∀ {o : Option Flow}, (∀ f ∈ o, f.ends = (server, client)) →
      ∀ f ∈ (runArrivals s(client, server) o xs).2, f.ends = (server, client) := by
  induction xs with
  | nil => exact fun _ f hf => absurd hf List.not_mem_nil
  | cons x xs ih =>
    intro o ho f hf
    obtain ⟨hses, hout⟩ := arrive_ends hport hport' (hxs x List.mem_cons_self) ho
    rw [runArrivals_cons] at hf
    rcases List.mem_append.mp hf with hf | hf
    · exact hout f hf
    · exact ih (fun y hy => hxs y (List.mem_cons_of_mem _ hy)) hses f hf

end Ends

/-! ## A conversation -/

/-- A keep-alive connection: its exchanges, and the packets in which they come. -/
structure Conversation where
  client : Endpoint
  server : Endpoint
  transactions : List Transaction
  /-- How they are cut into segments. -/
  exchanges : List Exchange
  /-- The packets before the close. -/
  full : List Arrival
  /-- The FIN or RST. -/
  fin : Arrival

namespace Conversation

variable (v : Conversation)

/-- The connection. -/
def conn : Conn := s(v.client, v.server)

/-- All its packets. -/
def packets : List Arrival := v.full ++ [v.fin]

/-- What is to be sent for it. -/
def records : List Record := v.transactions.map fun t => t.record v.client v.server

/-- What is to be written. -/
def report : Bytes := v.records.flatMap Record.text

/-- The packets are those of the exchanges, with segments that carry nothing new in between. -/
structure Proper : Prop where
  /-- The server listens at port 80. -/
  server_port : v.server.port = 80
  client_port : v.client.port ≠ 80
  exchanges_ne : v.exchanges ≠ []
  /-- The segments carry the exchanges. -/
  contents : v.exchanges.map Exchange.content = v.transactions.map fun t => (t.request, t.response)
  valid : ∀ t ∈ v.transactions, t.Valid
  /-- Requests go to the server, and responses to the client. -/
  between : ∀ e ∈ v.exchanges, e.Between v.client v.server
  /-- Repetitions and empty segments are all that is added. -/
  padded : Padded v.conn none (v.exchanges.flatMap Exchange.segments) v.full
  closes : v.fin.packet.closes = true
  /-- Consecutive segments have different numbers, and the first another one than is found in
  the memory of the session. -/
  fresh : ∀ x ∈ v.full.head?, Fresh x.env.new.seqNo (v.exchanges.flatMap Exchange.segments)
  /-- The allocator answers. -/
  granted : ∀ x ∈ v.packets, x.env.Granted

end Conversation

/-- Sessions that hold exchanges send their records. -/
theorem sent_of_contents {B : Boost} (hB : B.CastsVersions) (hD : B.CastsDecimals)
    {client server : Endpoint} {calls : List (CSession × Option Record)} :
    ∀ {ts : List Transaction}, (∀ t ∈ ts, t.Valid) → (∀ k ∈ calls, CleanCall B k) →
      (∀ k ∈ calls, k.1.client = client ∧ k.1.server = server) →
      (calls.map fun k => (k.1.reqBuf.contents, k.1.rspBuf.contents)) =
        (ts.map fun t => (t.request, t.response)) →
      calls.map Prod.snd = ts.map fun t => some (t.record client server) := by
  induction calls with
  | nil =>
    intro ts _ _ _ h
    rw [List.map_eq_nil_iff.mp h.symm]
    rfl
  | cons k calls ih =>
    intro ts hvalid hclean hends h
    cases ts with
    | nil => exact absurd h (List.cons_ne_nil _ _)
    | cons t ts =>
      obtain ⟨ht, hts⟩ := List.forall_mem_cons.mp hvalid
      obtain ⟨⟨hk, e, hsent⟩, hclean⟩ := List.forall_mem_cons.mp hclean
      obtain ⟨⟨hclient, hserver⟩, hends⟩ := List.forall_mem_cons.mp hends
      obtain ⟨hhead, hrest⟩ := List.cons.inj h
      obtain ⟨hreq, hrsp⟩ := Prod.mk.inj hhead
      obtain ⟨hreqLong, hrspLong⟩ := ht.long
      have hreqNe : k.1.reqBuf.contents ≠ [] := by
        rw [hreq]
        exact List.ne_nil_of_length_pos (by omega)
      have hrspNe : k.1.rspBuf.contents ≠ [] := by
        rw [hrsp]
        exact List.ne_nil_of_length_pos (by omega)
      have hrecord := parse_record hB hD ht e hk (hreq ▸ CBuffer.shows_contents hreqNe)
        (hrsp ▸ CBuffer.shows_contents hrspNe)
      rw [hclient, hserver, ← hsent] at hrecord
      rw [List.map_cons, List.map_cons, hrecord, ih hts hclean hends hrest]

section Reports

variable {B : Boost} {v : Conversation}

/-- Where there was no session there is none. -/
theorem SameButTimes.eq_none {o : Option CSession} (h : SameButTimes none o) : o = none := by
  cases h
  rfl

/-- A trace without packets is that of nothing. -/
theorem Padded.core_nil {c : Conn} {last : Option Arrival} {core : List Arrival}
    (h : Padded c last core []) : core = [] := by
  cases h
  rfl

/-- The number the first packet finds in the memory of the session, if there is a packet. -/
theorem Conversation.Proper.exists_seqNo (hv : v.Proper) :
    ∃ n, (∀ x ∈ v.full.head?, x.env.new.seqNo = n) ∧
      Fresh n (v.exchanges.flatMap Exchange.segments) := by
  have hpad := hv.padded
  have hfresh := hv.fresh
  cases hfull : v.full with
  | nil =>
    rw [hfull] at hpad
    rw [hpad.core_nil]
    exact ⟨0, fun x hx => absurd hx (Option.not_mem_none x), trivial⟩
  | cons x ys =>
    rw [hfull] at hfresh
    exact ⟨x.env.new.seqNo, fun y hy => by rw [Option.some.inj hy], hfresh x rfl⟩

/-- **The machine of the connection sends the records of its exchanges in order**, and no session
is left. -/
theorem Conversation.Proper.connMachine (hv : v.Proper) (hB : B.CastsVersions)
    (hD : B.CastsDecimals) {last : Int} {xs : List Arrival}
    (htrace : (xs.filter fun x => x.packet.conn = v.conn) = v.packets)
    (hquiet : ∀ x ∈ xs, x.env.timeCheck - last < timeoutCheckDur) :
    let r := (connMachine B last v.conn).run none (xs.map Arrival.call)
    r.2.map Prod.snd = v.records.map some ∧ r.1 = none := by
  intro r
  have hconn : ∀ x ∈ v.packets, x.packet.conn = s(v.client, v.server) := by
    intro x hx
    rw [← htrace] at hx
    exact of_decide_eq_true (List.mem_filter.mp hx).2
  obtain ⟨n, hinit, hfresh⟩ := hv.exists_seqNo
  obtain ⟨hstate, hout, hcount⟩ := run_trace hv.server_port hv.client_port hv.exchanges_ne
    hv.between hv.padded hconn hv.closes hinit hfresh
  have hrefines : Refines r (runArrivals v.conn none v.packets) :=
    connMachine_arrivals B htrace hquiet hv.granted (fun s hs => absurd hs (Option.not_mem_none s))
      hcount
  refine ⟨?_, Option.map_eq_none_iff.mp (hrefines.flow.trans hstate)⟩
  -- the sessions handed over are clean, and have the ends and the bytes of the exchanges
  have hclean : ∀ k ∈ r.2, CleanCall B k :=
    (clean_run _ _ _ fun s hs => absurd hs (Option.not_mem_none s)).calls
  have hflow : ∀ k ∈ r.2, k.1.flow.ends = (v.server, v.client) := by
    intro k hk
    refine runArrivals_ends hv.server_port hv.client_port hconn
      (fun f hf => absurd hf (Option.not_mem_none f)) _ ?_
    exact hrefines.calls ▸ List.mem_map_of_mem hk
  have hcontents : (r.2.map fun k => (k.1.reqBuf.contents, k.1.rspBuf.contents)) =
      v.transactions.map fun t => (t.request, t.response) := by
    rw [← hv.contents, ← hout,
      show (runArrivals s(v.client, v.server) none (v.full ++ [v.fin])).2 = _
        from hrefines.calls.symm, List.map_map]
    rfl
  rw [sent_of_contents hB hD hv.valid hclean (fun k hk => ⟨congrArg Prod.snd (hflow k hk),
    congrArg Prod.fst (hflow k hk)⟩) hcontents, Conversation.records, List.map_map]
  rfl

/-- **The exchanges of a conversation are reported in order**, whatever the other connections do
in between. -/
theorem Conversation.Proper.reports (hv : v.Proper) (hB : B.CastsVersions) (hD : B.CastsDecimals)
    {g : CHandle} (hw : g.sesHash.WF) (habsent : g.sesHash.session v.conn = none)
    {xs : List Arrival} (htrace : (xs.filter fun x => x.packet.conn = v.conn) = v.packets)
    (hquiet : ∀ x ∈ xs, x.env.timeCheck - g.lastTimeOutCheck < timeoutCheckDur) :
    let r := (handleMachine B).run g (xs.map Arrival.call)
    (r.2.filterMap (obsConn v.conn)).map Prod.snd = v.records.map some ∧
      r.1.sesHash.session v.conn = none := by
  intro r
  obtain ⟨hses, hcalls⟩ := run_conn B hw v.conn (xs.map Arrival.call)
  obtain ⟨hsent, hnone⟩ := hv.connMachine hB hD htrace hquiet
  rw [habsent] at hses hcalls
  exact ⟨(congrArg (List.map Prod.snd) hcalls).trans hsent, hses.trans hnone⟩

/-- The calls on a connection, as those of the map. -/
theorem filter_seen (c : Conn) (ks : List ParseCall) :
    ((ks.map ParseCall.seen).filter fun k => decide (k.1.conn = c)) = ks.filterMap (obsConn c) := by
  induction ks with
  | nil => rfl
  | cons k ks ih =>
    rw [List.map_cons, List.filter_cons]
    by_cases hc : k.seen.1.conn = c
    · rw [if_pos (decide_eq_true hc), ih,
        List.filterMap_cons_some (show obsConn c k = some k.seen from if_pos hc)]
    · rw [if_neg fun h => hc (of_decide_eq_true h), ih,
        List.filterMap_cons_none (show obsConn c k = none from if_neg hc)]

/-- Calls that send nothing but records for a port. -/
theorem recordsTo_of_sent {port : UInt16} {l : List (CSession × Option Record)} {rs : List Record}
    (h : l.map Prod.snd = rs.map some) (hport : ∀ r ∈ rs, r.client.port = port) :
    recordsTo port l = rs := by
  have hsent : l.filterMap Prod.snd = rs := by
    have hmap : (l.map Prod.snd).filterMap id = l.filterMap Prod.snd := List.filterMap_map
    rw [← hmap, h, List.filterMap_map]
    exact List.filterMap_some
  rw [recordsTo, hsent]
  exact List.filter_eq_self.mpr fun r hr => decide_eq_true (hport r hr)

/-- The calls of a run from a reachable handle are clean. -/
theorem Reachable.cleanCall {g : CHandle} (hr : Reachable B g) (xs : List Call) :
    ∀ k ∈ ((handleMachine B).run g xs).2, CleanCall B k.seen := by
  obtain ⟨ses, now, pre, rfl⟩ := hr
  intro k hk
  refine cleanCall_run B ses now (pre ++ xs) ?_
  rw [Machine.run_append]
  exact List.mem_append_right _ hk

/-- What a file gets is what is sent on a connection, if no other is parsed that uses its port. -/
theorem disk_of_conn {g : CHandle} (hr : Reachable B g) {xs : List Call} {c : Conn} {port : UInt16}
    (hport : ∀ k ∈ ((handleMachine B).run g xs).2, OnPort port k.ses.conn → k.ses.conn = c)
    (d : Files) :
    disk d ((handleMachine B).run g xs).2 (fileName port) = d (fileName port) ++
      (recordsTo port (((handleMachine B).run g xs).2.filterMap (obsConn c))).flatMap Record.text := by
  have hown : ∀ k ∈ ((handleMachine B).run g xs).2.map ParseCall.seen,
      ∀ r, k.2 = some r → r.client.port = port → decide (k.1.conn = c) = true := by
    intro k hk r hr' hclient
    obtain ⟨k', hk', rfl⟩ := List.mem_map.mp hk
    exact decide_eq_true (hport k' hk' (onPort_of_sent (hr.cleanCall _ k' hk') hr' hclient))
  rw [disk_file, sentTo_seen, ← recordsTo_filter _ hown, filter_seen]

/-- While no sweep is due, a connection is parsed only if it has a packet. -/
theorem onPort_calls {g : CHandle} (hr : Reachable B g) {xs : List Arrival} {c : Conn}
    {port : UInt16} (hport : ∀ x ∈ xs, OnPort port x.packet.conn → x.packet.conn = c)
    (hquiet : ∀ x ∈ xs, x.env.timeCheck - g.lastTimeOutCheck < timeoutCheckDur) :
    ∀ k ∈ ((handleMachine B).run g (xs.map Arrival.call)).2, OnPort port k.ses.conn →
      k.ses.conn = c := by
  intro k hk hon
  have hkeyed : Sessions.Keyed g.sesHash.session :=
    fun c s hs => CSessionHashTable.conn_of_session hs
  have hmap := (run_map B hr.wf (xs.map Arrival.call) (by
    intro x hx
    obtain ⟨y, hy, rfl⟩ := List.mem_map.mp hx
    exact hquiet y hy)).2
  obtain ⟨x, hx, hconn⟩ := mapMachine_conn B hkeyed k.seen (hmap ▸ List.mem_map_of_mem hk)
  obtain ⟨y, hy, rfl⟩ := List.mem_map.mp hx
  have hconn' : k.ses.conn = y.packet.conn := hconn
  exact hconn'.trans (hport y hy (hconn' ▸ hon))

/-- **The file of a conversation gets its report** when its records are what is sent on its
connection and no other connection is parsed that uses the port of its client. -/
theorem disk_of_reports {g : CHandle} (hr : Reachable B g) {xs : List Call}
    (hsent : (((handleMachine B).run g xs).2.filterMap (obsConn v.conn)).map Prod.snd =
      v.records.map some)
    (hport : ∀ k ∈ ((handleMachine B).run g xs).2, OnPort v.client.port k.ses.conn →
      k.ses.conn = v.conn) (d : Files) :
    disk d ((handleMachine B).run g xs).2 (fileName v.client.port) =
      d (fileName v.client.port) ++ v.report := by
  rw [disk_of_conn hr hport, recordsTo_of_sent hsent fun r hr' => ?_]
  · rfl
  · obtain ⟨t, -, rfl⟩ := List.mem_map.mp hr'
    rfl

/-- So it is as long as no other connection uses the port and no sweep is due. -/
theorem Conversation.Proper.file (hv : v.Proper) (hB : B.CastsVersions) (hD : B.CastsDecimals)
    {g : CHandle} (hr : Reachable B g) (habsent : g.sesHash.session v.conn = none)
    {xs : List Arrival} (htrace : (xs.filter fun x => x.packet.conn = v.conn) = v.packets)
    (hport : ∀ x ∈ xs, OnPort v.client.port x.packet.conn → x.packet.conn = v.conn)
    (hquiet : ∀ x ∈ xs, x.env.timeCheck - g.lastTimeOutCheck < timeoutCheckDur) (d : Files) :
    disk d ((handleMachine B).run g (xs.map Arrival.call)).2 (fileName v.client.port) =
      d (fileName v.client.port) ++ v.report := by
  obtain ⟨hsent, -⟩ := hv.reports hB hD hr.wf habsent htrace hquiet
  exact disk_of_reports hr hsent (onPort_calls hr hport hquiet) d

/-- **From capture files to the report.**  A reachable handle without a session for the
connection reads files of self-contained IPv4 frames, among them those of the connection, spread
over the files in any way: its exchanges, padded with repetitions and empty segments, and the
close.  Whatever the other connections do, the report of the exchanges joins the file of the
client's port, once, and no session is left, as long as no other connection uses that port and no
sweep is due. -/
theorem captures_report (hv : v.Proper) (hB : B.CastsVersions) (hD : B.CastsDecimals)
    {g : CHandle} (hr : Reachable B g) (habsent : g.sesHash.session v.conn = none)
    {rs : List Pass} (hrs : ∀ r ∈ rs, r.Sound)
    (htrace : ((rs.flatMap Pass.once).filter fun x => x.packet.conn = v.conn) = v.packets)
    (hport : ∀ x ∈ rs.flatMap Pass.once, OnPort v.client.port x.packet.conn →
      x.packet.conn = v.conn)
    (hquiet : Pass.Quiet g rs) (d : Files) :
    let r := (handleMachine B).run g (rs.flatMap Pass.calls)
    disk d r.2 (fileName v.client.port) = d (fileName v.client.port) ++ v.report ∧
      r.1.sesHash.session v.conn = none := by
  intro r
  have hquiet' : ∀ x ∈ rs.flatMap Pass.once,
      x.env.timeCheck - g.lastTimeOutCheck < timeoutCheckDur := by
    intro x hx
    obtain ⟨p, hp, hx⟩ := List.mem_flatMap.mp hx
    obtain ⟨i, hi, henv⟩ := (hrs p hp).env_mem (List.mem_append_left _ hx)
    rw [henv]
    exact hquiet p hp i hi
  obtain ⟨hnear, hsent⟩ := Pass.run_once B hr.wf hrs hquiet
  obtain ⟨-, hnone⟩ := hv.reports hB hD hr.wf habsent htrace hquiet'
  have hfile := hv.file hB hD hr habsent htrace hport hquiet' d
  unfold disk at hfile
  rw [hsent] at hfile
  refine ⟨hfile, ?_⟩
  have hconn := hnear v.conn
  rw [hnone] at hconn
  exact hconn.eq_none

end Reports

/-! ## A page -/

/-- What comes of a TCP frame with payload. -/
theorem TcpFrame.ReadBy.dataSegment {f : TcpFrame} {p : CFormatPacket} (h : f.ReadBy p)
    (hopen : f.fin = false ∧ f.rst = false) (hpos : 0 < f.payload.length)
    (hsmall : f.totLen < 2 ^ 15) : DataSegment f.src f.dst p where
  src := h.src
  dst := h.dst
  opens := by rw [CFormatPacket.closes, h.fin, h.rst, hopen.1, hopen.2]; rfl
  pos := by
    rw [h.dataLen]
    exact_mod_cast hpos
  short := by
    rw [h.dataLen]
    unfold TcpFrame.totLen at hsmall
    omega

/-- A frame with options, for the given segment. -/
def pageFrame (src dst : Endpoint) (seqNo : UInt32) (payload : Bytes) (fin : Bool) : TcpFrame :=
  { optionsFrame with src := src, dst := dst, seqNo := seqNo, payload := payload, fin := fin }

/-- The request and the response in one segment each, and the FIN. -/
def pageFrames : List TcpFrame :=
  [pageFrame ⟨1, 1000⟩ ⟨2, 80⟩ 6 sampleTransaction.request false,
    pageFrame ⟨2, 80⟩ ⟨1, 1000⟩ 9 sampleTransaction.response false,
    pageFrame ⟨1, 1000⟩ ⟨2, 80⟩ 7 [] true]

/-- A frame as it arrives at a given time. -/
def TcpFrame.arrival (now : Int) (f : TcpFrame) : Arrival :=
  ⟨CFormatPacket.format (memOf f.bytes) ⟨0, 0⟩, Env.clock now⟩

theorem TcpFrame.readBy_arrival (now : Int) {f : TcpFrame} (h : f.totLen < 2 ^ 15) :
    f.ReadBy (f.arrival now).packet := TcpFrame.readBy_format (holds_memOf _) h _

/-- The conversation of the page, at a given time. -/
def pageConversation (now : Int) : Conversation where
  client := ⟨1, 1000⟩
  server := ⟨2, 80⟩
  transactions := [sampleTransaction]
  exchanges := [⟨[pageFrames[0].arrival now], [pageFrames[1].arrival now]⟩]
  full := [pageFrames[0].arrival now, pageFrames[1].arrival now]
  fin := pageFrames[2].arrival now

theorem pageConversation_proper (now : Int) : (pageConversation now).Proper := by
  have hreq : pageFrames[0].ReadBy (pageFrames[0].arrival now).packet :=
    TcpFrame.readBy_arrival now (by decide)
  have hrsp : pageFrames[1].ReadBy (pageFrames[1].arrival now).packet :=
    TcpFrame.readBy_arrival now (by decide)
  have hfin : pageFrames[2].ReadBy (pageFrames[2].arrival now).packet :=
    TcpFrame.readBy_arrival now (by decide)
  have hto := hreq.dataSegment ⟨rfl, rfl⟩ (by decide) (by decide)
  have hfrom := hrsp.dataSegment ⟨rfl, rfl⟩ (by decide) (by decide)
  have hreqBytes : bytesOf [pageFrames[0].arrival now] = sampleTransaction.request := by
    rw [bytesOf_cons, hreq.payload]
    exact List.append_nil _
  have hrspBytes : bytesOf [pageFrames[1].arrival now] = sampleTransaction.response := by
    rw [bytesOf_cons, hrsp.payload]
    exact List.append_nil _
  have hclient : (1000 : UInt16) ≠ 80 := by decide
  refine ⟨rfl, hclient, List.cons_ne_nil _ _, ?_, ?_, ?_, ?_, ?_, ?_, ?_⟩
  · show [(bytesOf _, bytesOf _)] = [(_, _)]
    rw [hreqBytes, hrspBytes]
  · exact fun t ht => List.mem_singleton.mp ht ▸ sampleTransaction_valid
  · intro e he
    rw [List.mem_singleton.mp he]
    refine ⟨List.cons_ne_nil _ _, List.cons_ne_nil _ _, fun x hx => ?_, fun x hx => ?_, ?_, ?_⟩
    · rw [List.mem_singleton.mp hx]
      exact hto
    · rw [List.mem_singleton.mp hx]
      exact hfrom
    · show (bytesOf [pageFrames[0].arrival now]).length < _
      rw [hreqBytes]
      decide
    · show (bytesOf [pageFrames[1].arrival now]).length < _
      rw [hrspBytes]
      decide
  · exact .data _ hto.conn hto.opens hto.pos (.data _ (hfrom.conn.trans Sym2.eq_swap) hfrom.opens
      hfrom.pos (.nil _))
  · show ((pageFrames[2].arrival now).packet.tcphdr.fin || _) = true
    rw [hfin.fin]
    rfl
  · intro x hx
    rw [← Option.some.inj hx]
    have hnew : (0 : UInt32) ≠ 6 := by decide
    refine ⟨?_, ?_, trivial⟩
    · rw [hreq.seqNo]
      exact hnew
    · rw [hreq.seqNo, hrsp.seqNo]
      decide
  · intro x hx
    obtain ⟨f, -, rfl⟩ : ∃ f ∈ pageFrames, f.arrival now = x := List.mem_map.mp hx
    exact { Env.granted_granting 0 with }

theorem pageConversation_conn (now : Int) :
    ∀ x ∈ (pageConversation now).packets, x.packet.conn = (pageConversation now).conn := by
  have hall : ∀ f ∈ pageFrames, f.totLen < 2 ^ 15 ∧ s(f.src, f.dst) = s(⟨1, 1000⟩, ⟨2, 80⟩) := by
    decide
  intro x hx
  obtain ⟨f, hf, rfl⟩ : ∃ f ∈ pageFrames, f.arrival now = x := List.mem_map.mp hx
  obtain ⟨hsmall, hends⟩ := hall f hf
  have hread := TcpFrame.readBy_arrival now hsmall
  rw [CFormatPacket.conn, hread.src, hread.dst]
  exact hends

/-- Two files, the first with the request, the second with the response and the FIN. -/
def pagePasses : List Pass :=
  [⟨fun _ => (⟨0, 0⟩, Env.clock 0), fun _ => 255, [pageFrames[0].bytes]⟩,
    ⟨fun _ => (⟨0, 0⟩, Env.clock 0), fun _ => 0, [pageFrames[1].bytes, pageFrames[2].bytes]⟩]

theorem captures_report_page :
    disk (fun _ => []) ((handleMachine Boost.decimal).run (init blankSes 0)
        (pagePasses.flatMap Pass.calls)).2 (fileName 1000) = (pageConversation 0).report := by
  have honce : pagePasses.flatMap Pass.once = (pageConversation 0).packets := rfl
  refine (captures_report (pageConversation_proper 0) Boost.decimal_castsVersions
    Boost.decimal_castsDecimals ⟨blankSes, 0, [], rfl⟩ rfl (fun r hr => ?_) ?_
    (fun x hx _ => pageConversation_conn 0 x (honce ▸ hx)) (fun r hr i _ => ?_) _).1
  · rcases List.mem_pair.mp hr with rfl | rfl
    · refine ⟨List.cons_ne_nil _ _, fun fr hfr => ?_⟩
      rw [List.mem_singleton.mp hfr]
      exact TcpFrame.selfContained_bytes (by decide)
    · refine ⟨List.cons_ne_nil _ _, fun fr hfr => ?_⟩
      rcases List.mem_pair.mp hfr with rfl | rfl
      · exact TcpFrame.selfContained_bytes (by decide)
      · exact TcpFrame.selfContained_bytes (by decide)
  · rw [honce]
    exact List.filter_eq_self.mpr fun x hx => decide_eq_true (pageConversation_conn 0 x hx)
  · have hzero : (r.supply i).2.timeCheck = 0 := by
      rcases List.mem_pair.mp hr with rfl | rfl <;> rfl
    rw [hzero]
    show (0 : Int) - 0 < 120
    decide

end HttpDecoder
