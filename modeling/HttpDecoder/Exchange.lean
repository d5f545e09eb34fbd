import HttpDecoder.Trace

/-!
# Requests and responses are paired

The packets of a keep-alive connection are a sequence of exchanges, padded with
segments that carry nothing new.  This file follows them through the flow of the
connection.

* `Exchange`, `Padded` — the trace of the connection.
* `run_padded` — the padding changes nothing.
* `run_exchanges` — an exchange leaves the flow holding its bytes, and hands out
  the exchange before it.
* `exchange_pairing` — **every exchange is handed to `Parse` once**, and the close
  leaves no session.
-/

namespace HttpDecoder

open CLib CHandle

/-! ## The trace of a connection -/

/-- One request with its response, cut into segments. -/
structure Exchange where
  request : List Arrival
  response : List Arrival

/-- The segments of an exchange in order. -/
def Exchange.segments (e : Exchange) : List Arrival := e.request ++ e.response

/-- What `Parse` is to be given. -/
def Exchange.content (e : Exchange) : Bytes × Bytes := (bytesOf e.request, bytesOf e.response)

/-- An exchange between a client and a server. -/
structure Exchange.Between (client server : Endpoint) (e : Exchange) : Prop where
  request_ne : e.request ≠ []
  response_ne : e.response ≠ []
  request_to : ∀ x ∈ e.request, DataSegment client server x.packet
  response_to : ∀ x ∈ e.response, DataSegment server client x.packet
  request_fits : (bytesOf e.request).length < 2 ^ 32
  response_fits : (bytesOf e.response).length < 2 ^ 32

/-- `Padded c last core full`: on connection `c`, `full` is `core` with segments added
that carry no payload or immediately repeat the data segment before them, `last`
being the data segment that came before all of them. -/
inductive Padded (c : Conn) : Option Arrival → List Arrival → List Arrival → Prop
  | nil (last) : Padded c last [] []
  /-- A data segment. -/
  | data {last core full} (x : Arrival) : x.packet.conn = c → x.packet.closes = false →
      0 < x.packet.dataLen → Padded c (some x) core full → Padded c last (x :: core) (x :: full)
  /-- A segment without payload. -/
  | empty {last core full} (x : Arrival) : x.packet.conn = c → x.packet.closes = false →
      x.packet.dataLen = 0 → Padded c last core full → Padded c last core (x :: full)
  /-- The last data segment again. -/
  | again {x core full} (y : Arrival) : y.packet.src = x.packet.src → y.packet.dst = x.packet.dst →
      y.packet.closes = false → y.packet.seqNo = x.packet.seqNo →
      y.packet.payload = x.packet.payload → x.packet.conn = c →
      Padded c (some x) core full → Padded c (some x) core (y :: full)

/-- Consecutive segments have different sequence numbers, `n` being the number before
the first. -/
def Fresh (n : UInt32) : List Arrival → Prop
  | [] => True
  | x :: xs => n ≠ x.packet.seqNo ∧ Fresh x.packet.seqNo xs

theorem fresh_append {n : UInt32} {xs ys : List Arrival} :
    Fresh n (xs ++ ys) ↔ Fresh n xs ∧ Fresh (lastSeq n xs) ys := by
  induction xs generalizing n with
  | nil => simp [Fresh, lastSeq]
  | cons x xs ih => simp [Fresh, lastSeq, ih, and_assoc]

/-! ## The padding -/

/-- **The padding changes nothing.** -/
theorem run_padded {c : Conn} {last : Option Arrival} {core full : List Arrival}
    (h : Padded c last core full) : ∀ f : Flow, f.Fits →
      (∀ x ∈ last, f.seqNo = x.packet.seqNo) → Countable c (some f) core →
      runArrivals c (some f) full = runArrivals c (some f) core ∧ Countable c (some f) full := by
  -- a segment on which the flow stutters
  have hskip : ∀ {f : Flow} {x : Arrival} {core full : List Arrival}, f.Fits →
      arrive c (some f) x = (some f, []) →
      runArrivals c (some f) full = runArrivals c (some f) core ∧ Countable c (some f) full →
      runArrivals c (some f) (x :: full) = runArrivals c (some f) core ∧
        Countable c (some f) (x :: full) := by
    intro f x core full hf hstep ⟨hrun, hfull⟩
    rw [runArrivals_cons, countable_cons, hstep]
    exact ⟨hrun, fun g hg => Option.mem_some_iff.mp hg ▸ hf, hfull⟩
  induction h with
  | nil last => intro f _ _ _; exact ⟨rfl, trivial⟩
  | data x hc hopen hpos _ ih =>
    intro f _ _ hfits
    obtain ⟨hfits₁, hfits₂⟩ := countable_cons.mp hfits
    -- filed or dropped, the flow stands at the number of the segment afterwards
    obtain ⟨g, out, hstep, hseq⟩ : ∃ g out, arrive c (some f) x = (some g, out) ∧
        g.seqNo = x.packet.seqNo := by
      rw [arrive_some hc]
      by_cases hrep : f.seqNo = x.packet.seqNo
      · exact ⟨f, [], Flow.serve_repeated hopen hrep, hrep⟩
      · exact ⟨_, _, Flow.serve_data hopen hrep (by omega), f.file_seqNo ..⟩
    rw [hstep] at hfits₁ hfits₂
    obtain ⟨hrun, hfull⟩ := ih g (hfits₁ g rfl)
      (fun y hy => by rw [hseq, Option.mem_some_iff.mp hy]) hfits₂
    rw [runArrivals_cons, runArrivals_cons, countable_cons, hstep, hrun]
    exact ⟨rfl, hfits₁, hfull⟩
  | empty x hc hopen hzero _ ih =>
    intro f hf hlast hfits
    refine hskip hf ?_ (ih f hf hlast hfits)
    rw [arrive_some hc]
    exact Flow.serve_empty hopen hzero
  | again y hsrc hdst hopen hseq _ hc _ ih =>
    intro f hf hlast hfits
    refine hskip hf ?_ (ih f hf hlast hfits)
    rw [arrive_some (by rw [CFormatPacket.conn, hsrc, hdst]; exact hc)]
    exact Flow.serve_repeated hopen ((hlast _ rfl).trans hseq.symm)

/-! ## One exchange -/

section Exchanges

variable {client server : Endpoint}

/-- The rest of a request joins what is there while no response has begun. -/
theorem run_request (hport : server.port = 80) {xs : List Arrival} :
    ∀ f : Flow, (∀ x ∈ xs, DataSegment client server x.packet) → Fresh f.seqNo xs →
      f.rsp = [] → (f.req ++ bytesOf xs).length < 2 ^ 32 →
      ∃ g, runArrivals s(client, server) (some f) xs = (some g, []) ∧
        g.seqNo = lastSeq f.seqNo xs ∧ g.req = f.req ++ bytesOf xs ∧ g.rsp = [] ∧
        Countable s(client, server) (some f) xs := by
  induction xs with
  | nil =>
    intro f _ _ hrsp _
    exact ⟨f, rfl, rfl, (List.append_nil _).symm, hrsp, trivial⟩
  | cons x xs ih =>
    intro f hto hfresh hrsp hfit
    obtain ⟨hseq, hfresh⟩ := hfresh
    obtain ⟨g, out, hstep, hgseq, hgreq, hgrsp, hout⟩ :=
      arrive_request hport (hto x List.mem_cons_self) hseq
    have hfull : f.parseFull = (f, []) := by
      unfold Flow.parseFull
      rw [if_neg fun h => h.2 hrsp]
    have hnone : out = [] := by
      rw [Flow.pending, if_neg fun h => h.2 hrsp] at hout
      exact List.map_eq_nil_iff.mp hout
    rw [hfull] at hgreq hgrsp
    rw [bytesOf_cons, ← List.append_assoc, ← hgreq] at hfit
    obtain ⟨k, hrun, hkseq, hkreq, hkrsp, hcount⟩ := ih g
      (fun y hy => hto y (List.mem_cons_of_mem _ hy)) (hgseq ▸ hfresh) (hgrsp.trans hrsp) hfit
    have hgfits : g.Fits := by
      constructor
      · rw [List.length_append] at hfit
        omega
      · rw [hgrsp, hrsp]
        decide
    refine ⟨k, ?_, ?_, ?_, hkrsp, ?_⟩
    · rw [runArrivals_cons, hstep, hrun, hnone]
      rfl
    · rw [hkseq, hgseq]
      rfl
    · rw [hkreq, hgreq, bytesOf_cons, List.append_assoc]
    · rw [countable_cons, hstep]
      exact ⟨fun g' hg' => Option.mem_some_iff.mp hg' ▸ hgfits, hcount⟩

/-- A response joins what is there. -/
theorem run_response (hport : client.port ≠ 80) {xs : List Arrival} :
    ∀ f : Flow, (∀ x ∈ xs, DataSegment server client x.packet) → Fresh f.seqNo xs →
      f.req.length < 2 ^ 32 → (f.rsp ++ bytesOf xs).length < 2 ^ 32 →
      ∃ g, runArrivals s(client, server) (some f) xs = (some g, []) ∧
        g.seqNo = lastSeq f.seqNo xs ∧ g.req = f.req ∧ g.rsp = f.rsp ++ bytesOf xs ∧
        Countable s(client, server) (some f) xs := by
  induction xs with
  | nil =>
    intro f _ _ _ _
    exact ⟨f, rfl, rfl, rfl, (List.append_nil _).symm, trivial⟩
  | cons x xs ih =>
    intro f hto hfresh hreq hfit
    obtain ⟨hseq, hfresh⟩ := hfresh
    obtain ⟨g, hstep, hgseq, hgreq, hgrsp⟩ :=
      arrive_response hport (hto x List.mem_cons_self) hseq
    rw [bytesOf_cons, ← List.append_assoc, ← hgrsp] at hfit
    obtain ⟨k, hrun, hkseq, hkreq, hkrsp, hcount⟩ := ih g
      (fun y hy => hto y (List.mem_cons_of_mem _ hy)) (hgseq ▸ hfresh) (by rwa [hgreq]) hfit
    have hgfits : g.Fits := by
      constructor
      · rwa [hgreq]
      · rw [List.length_append] at hfit
        omega
    refine ⟨k, ?_, ?_, hkreq.trans hgreq, ?_, ?_⟩
    · rw [runArrivals_cons, hstep, hrun]
      rfl
    · rw [hkseq, hgseq]
      rfl
    · rw [hkrsp, hgrsp, bytesOf_cons, List.append_assoc]
    · rw [countable_cons, hstep]
      exact ⟨fun g' hg' => Option.mem_some_iff.mp hg' ▸ hgfits, hcount⟩

/-- The flow holds nothing, or a whole exchange. -/
def Settled (f : Flow) : Prop := (f.req = [] ∧ f.rsp = []) ∨ (f.req ≠ [] ∧ f.rsp ≠ [])

/-- A settled flow is empty after handing out what is pending. -/
theorem Settled.parseFull {f : Flow} (h : Settled f) :
    f.parseFull.1.req = [] ∧ f.parseFull.1.rsp = [] := by
  unfold Flow.parseFull
  rcases h with h | h
  · rw [if_neg fun hf => hf.1 h.1]
    exact h
  · rw [if_pos h]
    exact ⟨rfl, rfl⟩

/-- An exchange has bytes on both sides. -/
theorem Exchange.Between.content_ne {e : Exchange} (h : e.Between client server) :
    bytesOf e.request ≠ [] ∧ bytesOf e.response ≠ [] := by
  have hne : ∀ {a b : Endpoint} {xs : List Arrival}, xs ≠ [] →
      (∀ x ∈ xs, DataSegment a b x.packet) → bytesOf xs ≠ [] := by
    intro a b xs hxs hto
    cases xs with
    | nil => exact absurd rfl hxs
    | cons x xs =>
      rw [bytesOf_cons]
      exact List.append_ne_nil_of_left_ne_nil (hto x List.mem_cons_self).payload_ne _
  exact ⟨hne h.request_ne h.request_to, hne h.response_ne h.response_to⟩

/-- **One exchange.**  It leaves the flow holding its bytes, after the exchange that
was pending has been handed out. -/
theorem run_exchange (hport : server.port = 80) (hport' : client.port ≠ 80) {e : Exchange}
    (he : e.Between client server) {f : Flow} (hf : Settled f) (hfresh : Fresh f.seqNo e.segments) :
    ∃ g out, runArrivals s(client, server) (some f) e.segments = (some g, out) ∧
      g.seqNo = lastSeq f.seqNo e.segments ∧ (g.req, g.rsp) = e.content ∧
      out.map (fun k => (k.req, k.rsp)) = f.pending ∧
      Countable s(client, server) (some f) e.segments := by
  obtain ⟨hempty, hempty'⟩ := hf.parseFull
  obtain ⟨hfreq, hfrsp⟩ := fresh_append.mp hfresh
  have hto := he.request_to
  have hfits := he.request_fits
  unfold Exchange.segments Exchange.content
  rw [lastSeq_append]
  cases hreq : e.request with
  | nil => exact absurd hreq he.request_ne
  | cons x xs =>
    rw [hreq] at hfreq hfrsp hto hfits
    obtain ⟨hseq, hfreq⟩ := hfreq
    -- the first segment hands out what is pending
    obtain ⟨g₁, out, hstep, hseq₁, hreq₁, hrsp₁, hout⟩ :=
      arrive_request hport (hto x List.mem_cons_self) hseq
    rw [hempty, List.nil_append] at hreq₁
    rw [hempty'] at hrsp₁
    -- the rest of the request
    obtain ⟨g₂, hrun₂, hseq₂, hreq₂, hrsp₂, hcount₂⟩ := run_request hport g₁
      (fun y hy => hto y (List.mem_cons_of_mem _ hy)) (hseq₁ ▸ hfreq) hrsp₁
      (by rw [hreq₁, ← bytesOf_cons]; exact hfits)
    rw [hreq₁, ← bytesOf_cons] at hreq₂
    have hlast₂ : g₂.seqNo = lastSeq f.seqNo (x :: xs) := by
      rw [hseq₂, hseq₁]
      rfl
    -- the response
    obtain ⟨g₃, hrun₃, hseq₃, hreq₃, hrsp₃, hcount₃⟩ := run_response hport' g₂ he.response_to
      (hlast₂ ▸ hfrsp) (by rw [hreq₂]; exact hfits)
      (by rw [hrsp₂, List.nil_append]; exact he.response_fits)
    rw [hrsp₂, List.nil_append] at hrsp₃
    have hrun : runArrivals s(client, server) (some f) (x :: xs ++ e.response) = (some g₃, out) := by
      rw [runArrivals_append, runArrivals_cons, hstep, hrun₂]
      simp only [List.append_nil, hrun₃]
    refine ⟨g₃, out, hrun, by rw [hseq₃, hlast₂], by rw [hreq₃, hreq₂, hrsp₃], hout, ?_⟩
    rw [countable_append, countable_cons, runArrivals_cons, hstep, hrun₂]
    refine ⟨⟨fun g hg => Option.mem_some_iff.mp hg ▸ ⟨?_, ?_⟩, hcount₂⟩, hcount₃⟩
    · rw [bytesOf_cons, List.length_append] at hfits
      rw [hreq₁]
      omega
    · rw [hrsp₁]
      decide

/-- **The exchanges of a connection.**  What was pending comes out first, then every
exchange but the last, which is pending at the end. -/
theorem run_exchanges (hport : server.port = 80) (hport' : client.port ≠ 80)
    {es : List Exchange} : ∀ f : Flow, (∀ e ∈ es, e.Between client server) → Settled f →
      Fresh f.seqNo (es.flatMap Exchange.segments) →
      ∃ g out, runArrivals s(client, server) (some f) (es.flatMap Exchange.segments) =
          (some g, out) ∧
        out.map (fun k => (k.req, k.rsp)) ++ g.pending = f.pending ++ es.map Exchange.content ∧
        (es ≠ [] → g.req ≠ [] ∧ g.rsp ≠ []) ∧
        Countable s(client, server) (some f) (es.flatMap Exchange.segments) := by
  induction es with
  | nil =>
    intro f _ _ _
    exact ⟨f, [], rfl, by simp, fun h => absurd rfl h, trivial⟩
  | cons e es ih =>
    intro f hbetween hf hfresh
    have he := hbetween e List.mem_cons_self
    rw [List.flatMap_cons] at hfresh ⊢
    obtain ⟨hfresh₁, hfresh₂⟩ := fresh_append.mp hfresh
    obtain ⟨g, out, hrun, hseq, hcontent, hout, hcount⟩ := run_exchange hport hport' he hf hfresh₁
    obtain ⟨hreq, hrsp⟩ := Prod.mk.inj hcontent
    have hg : g.req ≠ [] ∧ g.rsp ≠ [] := by
      rw [hreq, hrsp]
      exact he.content_ne
    have hpending : g.pending = [e.content] := by
      rw [Flow.pending, if_pos hg, hcontent]
    obtain ⟨k, out', hrun', hall, hfull, hcount'⟩ := ih g
      (fun e' he' => hbetween e' (List.mem_cons_of_mem _ he')) (Or.inr hg) (hseq ▸ hfresh₂)
    refine ⟨k, out ++ out', ?_, ?_, fun _ => ?_, ?_⟩
    · rw [runArrivals_append, hrun, hrun']
    · rw [List.map_append, List.append_assoc, hall, hout, hpending, List.map_cons]
      rfl
    · by_cases hes : es = []
      · subst hes
        have hk : k = g := by
          have hsame : (some g, []) = (some k, out') := hrun'
          exact (Option.some.inj (Prod.mk.inj hsame).1).symm
        rwa [hk]
      · exact hfull hes
    · rw [countable_append, hrun]
      exact ⟨hcount, hcount'⟩

end Exchanges

/-! ## The whole connection -/

/-- A padded trace with something in it starts somewhere. -/
theorem Padded.exists_cons {c : Conn} {last : Option Arrival} {core full : List Arrival}
    (h : Padded c last core full) (hcore : core ≠ []) : ∃ x ys, full = x :: ys := by
  cases h with
  | nil => exact absurd rfl hcore
  | data x => exact ⟨x, _, rfl⟩
  | empty x => exact ⟨x, _, rfl⟩
  | again y => exact ⟨y, _, rfl⟩

/-- The whole trace of a connection, in its flow. -/
theorem run_trace {client server : Endpoint} (hport : server.port = 80)
    (hport' : client.port ≠ 80) {es : List Exchange} (hes : es ≠ [])
    (hbetween : ∀ e ∈ es, e.Between client server) {full : List Arrival} {fin : Arrival}
    {n : UInt32} (hpad : Padded s(client, server) none (es.flatMap Exchange.segments) full)
    (hconn : ∀ x ∈ full ++ [fin], x.packet.conn = s(client, server))
    (hclose : fin.packet.closes = true) (hinit : ∀ x ∈ full.head?, x.env.new.seqNo = n)
    (hfresh : Fresh n (es.flatMap Exchange.segments)) :
    (runArrivals s(client, server) none (full ++ [fin])).1 = none ∧
      ((runArrivals s(client, server) none (full ++ [fin])).2.map fun k => (k.req, k.rsp)) =
        es.map Exchange.content ∧
      Countable s(client, server) none (full ++ [fin]) := by
  have hcore : es.flatMap Exchange.segments ≠ [] := by
    obtain ⟨e, es, rfl⟩ := List.exists_cons_of_ne_nil hes
    rw [List.flatMap_cons]
    exact List.append_ne_nil_of_left_ne_nil
      (List.append_ne_nil_of_left_ne_nil (hbetween e List.mem_cons_self).request_ne _) _
  obtain ⟨x, ys, rfl⟩ := hpad.exists_cons hcore
  have hx : x.packet.conn = s(client, server) := hconn x (by simp)
  have hfin : fin.packet.conn = s(client, server) := hconn fin (by simp)
  -- the first packet opens an empty flow
  have hseq : (firstFlow x).seqNo = n := hinit x rfl
  have hsettled : Settled (firstFlow x) := Or.inl ⟨rfl, rfl⟩
  have hpending : (firstFlow x).pending = [] := if_neg fun h => h.1 rfl
  have hfits : (firstFlow x).Fits :=
    ⟨show (0 : Nat) < 2 ^ 32 by decide, show (0 : Nat) < 2 ^ 32 by decide⟩
  obtain ⟨g, out, hrun, hout, hfull, hcount⟩ :=
    run_exchanges hport hport' (firstFlow x) hbetween hsettled (hseq.symm ▸ hfresh)
  obtain ⟨hrun', hcount'⟩ := run_padded hpad (firstFlow x) hfits (by simp) hcount
  have hg := hfull hes
  rw [hpending, List.nil_append, Flow.pending, if_pos hg] at hout
  have hstart : runArrivals s(client, server) none (x :: ys) = (some g, out) := by
    rw [runArrivals_cons, arrive_none hx, ← runArrivals_cons, hrun', hrun]
  refine ⟨?_, ?_, ?_⟩
  · rw [runArrivals_append, hstart, runArrivals_cons, arrive_closes hfin hclose]
    rfl
  · rw [runArrivals_append, hstart, runArrivals_cons, arrive_closes hfin hclose,
      List.map_append, ← hout]
    rfl
  · rw [countable_append, hstart]
    constructor
    · rw [countable_cons, arrive_none hx, ← countable_cons]
      exact hcount'
    · rw [countable_cons, arrive_closes hfin hclose]
      exact ⟨fun f hf => absurd hf (by simp), trivial⟩

/-- **Exchange pairing on a keep-alive connection.**  From any reachable table without a
session for the connection, and whatever the other connections send in between: if
the packets of the connection are a padded sequence of exchanges followed by a FIN
or RST, `Parse` is called once for each exchange, in order, with the bytes of its
request and response, and no session is left. -/
theorem exchange_pairing (B : Boost) {h : CHandle} (hr : Reachable B h)
    {client server : Endpoint} (hport : server.port = 80) (hport' : client.port ≠ 80)
    (habsent : h.sesHash.session s(client, server) = none)
    {es : List Exchange} (hes : es ≠ []) (hbetween : ∀ e ∈ es, e.Between client server)
    {xs full : List Arrival} {fin : Arrival} {n : UInt32}
    (hpad : Padded s(client, server) none (es.flatMap Exchange.segments) full)
    (hclose : fin.packet.closes = true)
    (htrace : (xs.filter fun x => x.packet.conn = s(client, server)) = full ++ [fin])
    (hinit : ∀ x ∈ full.head?, x.env.new.seqNo = n)
    (hfresh : Fresh n (es.flatMap Exchange.segments))
    (hgrant : ∀ x ∈ full ++ [fin], x.env.Granted)
    (hquiet : ∀ x ∈ xs, x.env.timeCheck - h.lastTimeOutCheck < timeoutCheckDur) :
    let r := (handleMachine B).run h (xs.map Arrival.call)
    ((r.2.filterMap (obsConn s(client, server))).map fun k =>
        (k.1.reqBuf.contents, k.1.rspBuf.contents)) = es.map Exchange.content ∧
      r.1.sesHash.session s(client, server) = none := by
  intro r
  have hconn : ∀ x ∈ full ++ [fin], x.packet.conn = s(client, server) := by
    intro x hx
    rw [← htrace] at hx
    simpa using (List.mem_filter.mp hx).2
  obtain ⟨hstate, hcalls, hcount⟩ :=
    run_trace hport hport' hes hbetween hpad hconn hclose hinit hfresh
  have hrefines := run_arrivals B hr.wf htrace hquiet hgrant (by simp [habsent])
    (by rw [habsent]; exact hcount)
  rw [habsent] at hrefines
  constructor
  · rw [← hcalls, show (runArrivals s(client, server) none (full ++ [fin])).2 = _ from
      hrefines.calls.symm, List.map_map]
    rfl
  · exact Option.map_eq_none_iff.mp (hrefines.flow.trans hstate)

/-! ## A trace -/

/-- A request in two segments and a response in one. -/
def sampleExchange : Exchange where
  request := [arrival ⟨1, 1000⟩ ⟨2, 80⟩ 6 [71] false, arrival ⟨1, 1000⟩ ⟨2, 80⟩ 7 [69] false]
  response := [arrival ⟨2, 80⟩ ⟨1, 1000⟩ 9 [72] false]

/-- The exchange after an empty segment and with its second segment repeated. -/
def sampleFull : List Arrival :=
  [arrival ⟨2, 80⟩ ⟨1, 1000⟩ 4 [] false, arrival ⟨1, 1000⟩ ⟨2, 80⟩ 6 [71] false,
    arrival ⟨1, 1000⟩ ⟨2, 80⟩ 7 [69] false, arrival ⟨1, 1000⟩ ⟨2, 80⟩ 7 [69] false,
    arrival ⟨2, 80⟩ ⟨1, 1000⟩ 9 [72] false]

/-- The closing segment. -/
def sampleFin : Arrival := arrival ⟨1, 1000⟩ ⟨2, 80⟩ 8 [] true

theorem sampleExchange_between : sampleExchange.Between ⟨1, 1000⟩ ⟨2, 80⟩ where
  request_ne := by simp [sampleExchange]
  response_ne := by simp [sampleExchange]
  request_to := by
    intro x hx
    rcases List.mem_pair.mp hx with rfl | rfl
    · exact dataSegment_arrival _ _ _ (by decide) (by decide)
    · exact dataSegment_arrival _ _ _ (by decide) (by decide)
  response_to := by
    intro x hx
    rw [List.mem_singleton.mp hx]
    exact dataSegment_arrival _ _ _ (by decide) (by decide)
  request_fits := by
    simp [bytesOf, sampleExchange, payload_arrival]
  response_fits := by
    simp [bytesOf, sampleExchange, payload_arrival]

theorem sampleFull_padded :
    Padded s(⟨1, 1000⟩, ⟨2, 80⟩) none ([sampleExchange].flatMap Exchange.segments) sampleFull := by
  have hto : ∀ n data, (arrival ⟨1, 1000⟩ ⟨2, 80⟩ n data false).packet.conn =
      s(⟨1, 1000⟩, ⟨2, 80⟩) := fun _ _ => segment_conn ..
  have hfrom : ∀ n data, (arrival ⟨2, 80⟩ ⟨1, 1000⟩ n data false).packet.conn =
      s(⟨1, 1000⟩, ⟨2, 80⟩) := fun _ _ => (segment_conn ..).trans Sym2.eq_swap
  refine Padded.empty _ (hfrom ..) (segment_closes ..) rfl ?_
  refine Padded.data _ (hto ..) (segment_closes ..) (by decide) ?_
  refine Padded.data _ (hto ..) (segment_closes ..) (by decide) ?_
  refine Padded.again _ rfl rfl (segment_closes ..) rfl rfl (hto ..) ?_
  exact Padded.data _ (hfrom ..) (segment_closes ..) (by decide) (Padded.nil _)

theorem exchange_pairing_sample :
    ((((handleMachine Boost.decimal).run (init blankSes 0)
        ((sampleFull ++ [sampleFin]).map Arrival.call)).2.filterMap
          (obsConn s(⟨1, 1000⟩, ⟨2, 80⟩))).map fun k =>
        (k.1.reqBuf.contents, k.1.rspBuf.contents)) = [([71, 69], [72])] := by
  have hcontent : [sampleExchange].map Exchange.content = [([71, 69], [72])] := by
    simp [Exchange.content, bytesOf, sampleExchange, payload_arrival]
  have hconn : ∀ x ∈ sampleFull ++ [sampleFin], x.packet.conn = s(⟨1, 1000⟩, ⟨2, 80⟩) := by
    simp [sampleFull, sampleFin, arrival, Sym2.eq_swap]
  have hgrant : ∀ x ∈ sampleFull ++ [sampleFin], x.env.Granted := by
    simp [sampleFull, sampleFin, arrival, Env.granted_granting]
  have hquiet : ∀ x ∈ sampleFull ++ [sampleFin], x.env.timeCheck - 0 < timeoutCheckDur := by
    simp [sampleFull, sampleFin, arrival, Env.granting, timeoutCheckDur]
  rw [← hcontent]
  exact (exchange_pairing Boost.decimal ⟨blankSes, 0, [], rfl⟩
    (show (⟨2, 80⟩ : Endpoint).port = 80 from rfl) (show (⟨1, 1000⟩ : Endpoint).port ≠ 80 by decide)
    rfl (List.cons_ne_nil _ _) (by simpa using sampleExchange_between) sampleFull_padded
    (show sampleFin.packet.closes = true from segment_closes ..)
    (List.filter_eq_self.mpr fun x hx => decide_eq_true (hconn x hx))
    (show ∀ x ∈ sampleFull.head?, x.env.new.seqNo = 0 by simp [sampleFull, arrival, Env.granting])
    (by simp [Fresh, Exchange.segments, sampleExchange, arrival]) hgrant hquiet).1

end HttpDecoder
