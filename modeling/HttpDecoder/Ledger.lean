import HttpDecoder.Suppression

/-!
# The books of a connection

Every byte a session shows came with some packet.  To say which, the machine of a
connection is run with books: for each session the connection ever had, the packets it
accepted, the calls of `Parse` on it and the packets whose payload each of them got.

* `Ledger`, `Book` — the books of one session, and of one connection.
* `bookMachine_view`, `handed_run` — keeping books does not disturb the machine, and the
  calls in the books are the calls of `Parse`.
* `Ledger.Balanced` — what `Parse` gets, and what a session shows, is the payload of the
  packets in the books.
* `balanced_run` — **the books balance along every run.**
-/

namespace HttpDecoder

open CLib CHandle

/-! ## Packets by direction -/

/-- `HandleMessage` takes the packet for one from the client. -/
def CFormatPacket.toServer (p : CFormatPacket) : Bool := decide (p.dst.port = 80)

/-- The bytes some packets carry to the server. -/
def requestOf (ps : List CFormatPacket) : Bytes :=
  (ps.filter fun p => p.toServer).flatMap CFormatPacket.payload

/-- The bytes some packets carry to the client. -/
def responseOf (ps : List CFormatPacket) : Bytes :=
  (ps.filter fun p => !p.toServer).flatMap CFormatPacket.payload

section Directions

variable {p : CFormatPacket} (ps qs : List CFormatPacket)

@[simp] theorem requestOf_append : requestOf (ps ++ qs) = requestOf ps ++ requestOf qs := by
  rw [requestOf, List.filter_append, List.flatMap_append]
  rfl

@[simp] theorem responseOf_append : responseOf (ps ++ qs) = responseOf ps ++ responseOf qs := by
  rw [responseOf, List.filter_append, List.flatMap_append]
  rfl

theorem requestOf_single (p : CFormatPacket) :
    requestOf [p] = if p.toServer then p.payload else [] := by
  unfold requestOf
  cases hp : p.toServer <;> simp [hp]

theorem responseOf_single (p : CFormatPacket) :
    responseOf [p] = if p.toServer then [] else p.payload := by
  unfold responseOf
  cases hp : p.toServer <;> simp [hp]

end Directions

/-! ## Books -/

/-- A call of `Parse`, with the packets filed since the one before. -/
structure Handed where
  /-- The session it was handed. -/
  ses : CSession
  sent : Option Record
  /-- The packets, the oldest first. -/
  filed : List CFormatPacket

/-- A session with its books. -/
structure Ledger where
  ses : CSession
  parsed : List Handed
  /-- The packets filed since the last call of `Parse`. -/
  since : List CFormatPacket
  /-- The packets that passed the tests for FIN and RST, for repetition and for data. -/
  accepted : List CFormatPacket
  /-- The packets filed since the session was opened or swept. -/
  unswept : List CFormatPacket

namespace Ledger

/-- The books of a new session. -/
def new (s : CSession) : Ledger := ⟨s, [], [], [], []⟩

/-- A call of `Parse` by the sweep or for a closing packet enters the books. -/
def parse (l : Ledger) (B : Boost) (e : ParseEnv) : Ledger :=
  { l with
    ses := (HttpDecoder.parse B e l.ses).1
    parsed := l.parsed ++ [⟨l.ses, (HttpDecoder.parse B e l.ses).2, l.since⟩]
    since := []
    unswept := [] }

/-- The sweep looks at a session.  The second component is the session erased. -/
def sweep (B : Boost) (e : Env) (reach : Nat) : Option Ledger → Option Ledger × List Ledger
  | none => (none, [])
  | some l =>
    if (hashConn l.ses.conn).toNat < reach then
      let l₁ :=
        if sweepParses e.timeCheck l.ses then l.parse B (e.sweep l.ses.server l.ses.client) else l
      if sweepExpires e.timeCheck l.ses then (none, [l₁]) else (some l₁, [])
    else (some l, [])

/-- The session is opened. -/
def opened (x : Call) (info : CSharedBehaviorInfo) : Option Ledger → Ledger
  | some l => { l with ses := CHandle.opened x info (some l.ses) }
  | none => new (CHandle.opened x info none)

/-- A packet that passed the tests is filed, after a call of `Parse` if that is made. -/
def file (B : Boost) (x : Call) (info : CSharedBehaviorInfo) (l : Ledger) : Ledger :=
  let q := processData B x.env x.packet info.matchWay l.ses
  let filed := if q.done then [x.packet] else []
  { ses := q.ses
    parsed := l.parsed ++ q.calls.map fun k => ⟨k.1, k.2, l.since⟩
    since := (if q.calls.isEmpty then l.since else []) ++ filed
    accepted := l.accepted ++ [x.packet]
    unswept := l.unswept ++ filed }

/-- `Process` from the FIN/RST test on.  The second component is the session removed. -/
def serve (B : Boost) (x : Call) (info : CSharedBehaviorInfo) (l : Ledger) :
    Option Ledger × List Ledger :=
  if x.packet.closes then (none, [l.parse B x.env.parse])
  else if Traced.accepts x.packet l.ses then (some (l.file B x info), [])
  else (some l, [])

end Ledger

/-- The books of a connection: the sessions it had and the one it has. -/
structure Book where
  /-- The sessions that were removed from the table. -/
  closed : List Ledger
  current : Option Ledger

namespace Book

/-- The books of a connection without a session. -/
def empty : Book := ⟨[], none⟩

/-- The books of all its sessions. -/
def ledgers (b : Book) : List Ledger := b.closed ++ b.current.toList

/-- The calls of `Parse` in the books. -/
def handed (b : Book) : List Handed := b.ledgers.flatMap Ledger.parsed

/-- The books after the sweep. -/
def swept (B : Boost) (last : Int) (b : Book) (x : Call) : Book :=
  let q := Ledger.sweep B x.env (sweepReach last x.env) b.current
  ⟨b.closed ++ q.2, q.1⟩

/-- The session a packet meets. -/
def meets (B : Boost) (last : Int) (b : Book) (x : Call) (info : CSharedBehaviorInfo) : Ledger :=
  Ledger.opened x info (b.swept B last x).current

/-- One call of `Process` as connection `c` sees it, with its books. -/
def step (B : Boost) (last : Int) (c : Conn) (b : Book) (x : Call) : Book :=
  match x.info with
  | none => b.swept B last x
  | some info =>
    if x.packet.conn = c then
      let r := (b.meets B last x info).serve B x info
      ⟨(b.swept B last x).closed ++ r.2, r.1⟩
    else b.swept B last x

end Book

/-! ## The books and the machine -/

namespace Ledger

/-- What a ledger shows of a call of `Parse`. -/
def pair (k : Handed) : CSession × Option Record := (k.ses, k.sent)

/-- The calls in the books of some sessions. -/
def pairs (ls : List Ledger) : List (CSession × Option Record) :=
  (ls.flatMap parsed).map pair

@[simp] theorem pairs_append (ls ms : List Ledger) : pairs (ls ++ ms) = pairs ls ++ pairs ms := by
  simp [pairs]

theorem opened_ses (x : Call) (info : CSharedBehaviorInfo) (o : Option Ledger) :
    (opened x info o).ses = CHandle.opened x info (o.map ses) := by
  cases o <;> rfl

theorem opened_pairs (x : Call) (info : CSharedBehaviorInfo) (o : Option Ledger) :
    pairs [opened x info o] = pairs o.toList := by
  cases o <;> rfl

theorem sweep_ses (B : Boost) (e : Env) (reach : Nat) (o : Option Ledger) :
    (sweep B e reach o).1.map ses = (sweepConn B e reach (o.map ses)).1 := by
  cases o with
  | none => rfl
  | some l =>
    simp only [Option.map_some, sweep, sweepConn]
    by_cases hin : (hashConn l.ses.conn).toNat < reach
    · simp only [if_pos hin]
      cases hexpires : sweepExpires e.timeCheck l.ses with
      | true => rfl
      | false =>
        show some (Ledger.ses _) = some (sweptSes B e l.ses)
        unfold sweptSes
        split <;> rfl
    · simp only [if_neg hin]
      rfl

/-- The calls the sweep makes are the calls that enter the books. -/
theorem sweep_pairs (B : Boost) (e : Env) (reach : Nat) (o : Option Ledger) :
    pairs (sweep B e reach o).2 ++ pairs (sweep B e reach o).1.toList =
      pairs o.toList ++ (sweepConn B e reach (o.map ses)).2 := by
  cases o with
  | none => rfl
  | some l =>
    simp only [Option.map_some, sweep, sweepConn]
    by_cases hin : (hashConn l.ses.conn).toNat < reach
    · simp only [if_pos hin]
      cases sweepParses e.timeCheck l.ses <;> cases sweepExpires e.timeCheck l.ses <;>
        simp [pairs, parse, pair]
    · simp only [if_neg hin]
      simp [pairs]

theorem serve_ses (B : Boost) (x : Call) (info : CSharedBehaviorInfo) (l : Ledger) :
    (serve B x info l).1.map ses = (CHandle.serve B x info l.ses).1 := by
  unfold serve CHandle.serve Traced.accepts
  cases hclose : x.packet.closes with
  | true => rfl
  | false =>
    cases hrep : repeated x.packet l.ses with
    | true => simp
    | false =>
      by_cases hzero : x.packet.dataLen = 0
      · simp [hzero]
      · simp [hzero, file]

/-- So are the calls that serving a packet makes. -/
theorem serve_pairs (B : Boost) (x : Call) (info : CSharedBehaviorInfo) (l : Ledger) :
    pairs (serve B x info l).2 ++ pairs (serve B x info l).1.toList =
      pairs [l] ++ (CHandle.serve B x info l.ses).2 := by
  unfold serve CHandle.serve Traced.accepts
  cases hclose : x.packet.closes with
  | true => simp [pairs, parse, pair]
  | false =>
    cases hrep : repeated x.packet l.ses with
    | true => simp [pairs]
    | false =>
      by_cases hzero : x.packet.dataLen = 0
      · simp [hzero, pairs]
      · simp [hzero, file, pairs, pair, Function.comp_def]

end Ledger

/-- The machine of connection `c` with its books. -/
def bookMachine (B : Boost) (last : Int) (c : Conn) :
    Machine Book Call (CSession × Option Record) where
  step b x := (Book.step B last c b x, (connStep B last c (b.current.map Ledger.ses) x).2)

/-- One step, without the books and in the books. -/
theorem Book.step_view (B : Boost) (last : Int) (c : Conn) (b : Book) (x : Call) :
    (Book.step B last c b x).current.map Ledger.ses =
        (connStep B last c (b.current.map Ledger.ses) x).1 ∧
      Ledger.pairs (Book.step B last c b x).ledgers =
        Ledger.pairs b.ledgers ++ (connStep B last c (b.current.map Ledger.ses) x).2 := by
  have hsweep : (b.swept B last x).current.map Ledger.ses = _ :=
    Ledger.sweep_ses B x.env (sweepReach last x.env) b.current
  have hpairs : Ledger.pairs (b.swept B last x).ledgers = Ledger.pairs b.ledgers ++
      (sweepConn B x.env (sweepReach last x.env) (b.current.map Ledger.ses)).2 := by
    simp only [Book.ledgers, Book.swept, Ledger.pairs_append, List.append_assoc,
      Ledger.sweep_pairs]
  unfold Book.step connStep
  cases x.info with
  | none => exact ⟨hsweep, hpairs⟩
  | some info =>
    by_cases hc : x.packet.conn = c
    · simp only [if_pos hc]
      have hserve := Ledger.serve_ses B x info (b.meets B last x info)
      have hout := Ledger.serve_pairs B x info (b.meets B last x info)
      have hmeets : (b.meets B last x info).ses = CHandle.opened x info
          (sweepConn B x.env (sweepReach last x.env) (b.current.map Ledger.ses)).1 := by
        rw [← hsweep]
        exact Ledger.opened_ses ..
      have hopened : Ledger.pairs [b.meets B last x info] =
          Ledger.pairs (b.swept B last x).current.toList := Ledger.opened_pairs ..
      rw [hopened] at hout
      rw [hmeets] at hserve hout
      refine ⟨hserve, ?_⟩
      rw [← List.append_assoc, ← hpairs, Book.ledgers, Book.ledgers, List.append_assoc,
        Ledger.pairs_append, Ledger.pairs_append, hout, Ledger.pairs_append, List.append_assoc]
    · simp only [if_neg hc]
      exact ⟨hsweep, hpairs⟩

/-- **Keeping books does not disturb the machine.** -/
theorem bookMachine_view (B : Boost) (last : Int) (c : Conn) (xs : List Call) (b : Book) :
    ((bookMachine B last c).run b xs).1.current.map Ledger.ses =
        ((connMachine B last c).run (b.current.map Ledger.ses) xs).1 ∧
      ((bookMachine B last c).run b xs).2 =
        ((connMachine B last c).run (b.current.map Ledger.ses) xs).2 := by
  obtain ⟨hstate, hout⟩ := (bookMachine B last c).run_view (connMachine B last c)
    (fun b => b.current.map Ledger.ses) some (I := fun _ => True) (A := fun _ => True)
    (fun _ _ _ _ => trivial) (fun b x _ _ => (Book.step_view B last c b x).1)
    (fun _ _ _ _ => List.filterMap_some) xs b trivial fun _ _ => trivial
  exact ⟨hstate, by rw [← hout, List.filterMap_some]⟩

/-- **The calls of `Parse` in the books are the calls of `Parse`.** -/
theorem handed_run (B : Boost) (last : Int) (c : Conn) (xs : List Call) :
    ∀ b : Book, Ledger.pairs ((bookMachine B last c).run b xs).1.ledgers =
      Ledger.pairs b.ledgers ++ ((bookMachine B last c).run b xs).2 := by
  induction xs with
  | nil => intro b; exact (List.append_nil _).symm
  | cons x xs ih =>
    intro b
    rw [Machine.run_cons]
    refine (ih _).trans ?_
    rw [show ((bookMachine B last c).step b x).1 = Book.step B last c b x from rfl,
      (Book.step_view B last c b x).2, List.append_assoc]
    rfl

/-! ## What a session shows -/

/-- What a session shows is the payload of some packets. -/
structure CSession.Carries (s : CSession) (ps : List CFormatPacket) : Prop where
  /-- As the request, of those to the server. -/
  req : s.reqBuf.contents = requestOf ps
  /-- As the response, of those to the client. -/
  rsp : s.rspBuf.contents = responseOf ps

namespace CSession.Carries

variable {s s' : CSession} {ps : List CFormatPacket}

/-- Only the buffers count. -/
theorem congr (h : s.Carries ps) (hreq : s'.reqBuf = s.reqBuf) (hrsp : s'.rspBuf = s.rspBuf) :
    s'.Carries ps := ⟨by rw [hreq, h.req], by rw [hrsp, h.rsp]⟩

/-- A parsed session shows nothing. -/
theorem parse (B : Boost) (e : ParseEnv) (s : CSession) :
    (HttpDecoder.parse B e s).1.Carries [] :=
  ⟨(parse_contents B e s).1, (parse_contents B e s).2⟩

/-- Nor does a new one. -/
theorem new (x : Call) (info : CSharedBehaviorInfo) : (opened x info none).Carries [] :=
  ⟨(opened_none_contents x info).1, (opened_none_contents x info).2⟩

/-- A finished exchange that is parsed is not shown any more. -/
theorem parseFull (h : s.Carries ps) (B : Boost) (e : ParseEnv) :
    (parseFull B e s).1.Carries (if (CHandle.parseFull B e s).2.isEmpty then ps else []) ∧
      ∀ k ∈ (CHandle.parseFull B e s).2, k.1.Carries ps := by
  unfold CHandle.parseFull
  by_cases hfull : s.reqBuf.len > 0 ∧ s.rspBuf.len > 0
  · rw [if_pos hfull]
    refine ⟨CSession.Carries.parse B e s, fun k hk => ?_⟩
    rw [List.mem_singleton.mp hk]
    exact h
  · rw [if_neg hfull]
    exact ⟨h, fun k hk => absurd hk List.not_mem_nil⟩

/-- A packet to the server joins the request, if `Append` succeeds; it may fail, but not by
freeing the block. -/
theorem appendRequest (h : s.Carries ps) (hs : s.WF) {e : Env} {p : CFormatPacket}
    (hto : p.toServer = true)
    (hfit : (appendRequest e p s).1 = true → (requestOf (ps ++ [p])).length < 2 ^ 32)
    (hkeep : ¬ s.reqBuf.Frees p.dataSize) :
    (appendRequest e p s).2.WF ∧
      (appendRequest e p s).2.Carries (ps ++ if (CHandle.appendRequest e p s).1 then [p] else []) := by
  have hlen : (s.reqBuf.append e.append (some p.data) p.dataSize).1 = true →
      s.reqBuf.len + p.dataSize < 2 ^ 32 := by
    intro hdone
    have hcount := hfit hdone
    rw [requestOf_append, List.length_append, ← h.req, hs.req.contents_length, requestOf_single,
      if_pos hto] at hcount
    rwa [show p.payload.length = p.dataSize from Mem.length_read ..] at hcount
  obtain ⟨hwf, hcontents⟩ := hs.req.append_answer e.append p.data hlen hkeep
  refine ⟨⟨hwf, hs.rsp⟩, ?_, ?_⟩
  · rw [requestOf_append, ← h.req]
    refine hcontents.trans (congrArg (s.reqBuf.contents ++ ·) ?_)
    show _ = requestOf (if (s.reqBuf.append e.append (some p.data) p.dataSize).1 then [p] else [])
    split
    · rw [requestOf_single, if_pos hto]
      rfl
    · rfl
  · rw [responseOf_append, ← h.rsp]
    split
    · rw [responseOf_single, if_pos hto, List.append_nil]
      rfl
    · exact (List.append_nil _).symm

/-- A packet to the client joins the response in the same way. -/
theorem appendResponse (h : s.Carries ps) (hs : s.WF) {e : Env} {p : CFormatPacket}
    (hto : p.toServer = false)
    (hfit : (appendResponse e p s).1 = true → (responseOf (ps ++ [p])).length < 2 ^ 32)
    (hkeep : ¬ s.rspBuf.Frees p.dataSize) :
    (appendResponse e p s).2.WF ∧ (appendResponse e p s).2.Carries
      (ps ++ if (CHandle.appendResponse e p s).1 then [p] else []) := by
  have hne : ¬ p.toServer = true := by simp [hto]
  have hlen : (s.rspBuf.append e.append (some p.data) p.dataSize).1 = true →
      s.rspBuf.len + p.dataSize < 2 ^ 32 := by
    intro hdone
    have hcount := hfit hdone
    rw [responseOf_append, List.length_append, ← h.rsp, hs.rsp.contents_length, responseOf_single,
      if_neg hne] at hcount
    rwa [show p.payload.length = p.dataSize from Mem.length_read ..] at hcount
  obtain ⟨hwf, hcontents⟩ := hs.rsp.append_answer e.append p.data hlen hkeep
  refine ⟨⟨hs.req, hwf⟩, ?_, ?_⟩
  · rw [requestOf_append, ← h.req]
    split
    · rw [requestOf_single, if_neg hne, List.append_nil]
      rfl
    · exact (List.append_nil _).symm
  · rw [responseOf_append, ← h.rsp]
    refine hcontents.trans (congrArg (s.rspBuf.contents ++ ·) ?_)
    show _ = responseOf (if (s.rspBuf.append e.append (some p.data) p.dataSize).1 then [p] else [])
    split
    · rw [responseOf_single, if_neg hne]
      rfl
    · rfl

end CSession.Carries

/-! ## Filing a packet -/

/-- The buffer that `Append` gets for a packet: that of its direction, reset if the packet
goes to the server and finds both buffers filled. -/
def bufferAt (x : Arrival) (s : CSession) : CBuffer :=
  if x.packet.toServer then
    if s.reqBuf.len > 0 ∧ s.rspBuf.len > 0 then s.reqBuf.reset x.env.parse.reset.req else s.reqBuf
  else s.rspBuf

section Filing

variable (B : Boost) {x : Arrival} {s : CSession} {ps : List CFormatPacket}

/-- Filing a packet to the server. -/
theorem processData_toServer (hto : x.packet.toServer = true) (s : CSession) :
    let r := parseFull B x.env.parse (s.setSeq x.packet.seqNo x.packet.ackSeqNo)
    let q := appendRequest x.env x.packet (stampRequest x.packet r.1)
    processData B x.env x.packet (behavior x.packet).matchWay s = ⟨q.2, r.2, q.1⟩ :=
  processData_of_port B (of_decide_eq_true hto) s

/-- Filing a packet to the client. -/
theorem processData_toClient (hto : x.packet.toServer = false) (s : CSession) :
    let q := appendResponse x.env x.packet
      (stampResponse x.packet (s.setSeq x.packet.seqNo x.packet.ackSeqNo))
    processData B x.env x.packet (behavior x.packet).matchWay s = ⟨q.2, [], q.1⟩ :=
  processData_of_port_ne B (of_decide_eq_false hto) s

/-- What the call of `Parse` before a packet to the server makes of the two buffers. -/
theorem parseFull_buffers (s : CSession) (hto : x.packet.toServer = true) :
    (parseFull B x.env.parse s).1.reqBuf = bufferAt x s ∧
      (bufferAt x s).len =
        (if (parseFull B x.env.parse s).2.isEmpty then s.reqBuf.len else 0) ∧
      (parseFull B x.env.parse s).1.rspBuf.len =
        if (parseFull B x.env.parse s).2.isEmpty then s.rspBuf.len else 0 := by
  by_cases hfull : s.reqBuf.len > 0 ∧ s.rspBuf.len > 0
  · have hparse : parseFull B x.env.parse s =
        (s.reset x.env.parse.reset, [(s, (parse B x.env.parse s).2)]) := by
      unfold parseFull
      rw [if_pos hfull, parse_fst]
    have hbuf : bufferAt x s = s.reqBuf.reset x.env.parse.reset.req := by
      unfold bufferAt
      rw [if_pos hto, if_pos hfull]
    rw [hparse, hbuf]
    exact ⟨rfl, rfl, rfl⟩
  · have hparse : parseFull B x.env.parse s = (s, []) := by
      unfold parseFull
      rw [if_neg hfull]
    have hbuf : bufferAt x s = s.reqBuf := by
      unfold bufferAt
      rw [if_pos hto, if_neg hfull]
    rw [hparse, hbuf]
    exact ⟨rfl, rfl, rfl⟩

/-- `Append` on the request of a session, by what its buffer is. -/
theorem appendRequest_of_reqBuf {e : Env} {p : CFormatPacket} {t : CSession} {b : CBuffer}
    (h : t.reqBuf = b) : appendRequest e p t =
      ((b.append e.append (some p.data) p.dataSize).1,
        { t with reqBuf := (b.append e.append (some p.data) p.dataSize).2 }) := by
  rw [← h]
  rfl

theorem appendResponse_of_rspBuf {e : Env} {p : CFormatPacket} {t : CSession} {b : CBuffer}
    (h : t.rspBuf = b) : appendResponse e p t =
      ((b.append e.append (some p.data) p.dataSize).1,
        { t with rspBuf := (b.append e.append (some p.data) p.dataSize).2 }) := by
  rw [← h]
  rfl

/-- A packet to the server is appended to that buffer. -/
theorem reqBuf_filed (s : CSession) (hto : x.packet.toServer = true) :
    (stampRequest x.packet (parseFull B x.env.parse
        (s.setSeq x.packet.seqNo x.packet.ackSeqNo)).1).reqBuf = bufferAt x s ∧
      (bufferAt x s).len = (if (parseFull B x.env.parse
        (s.setSeq x.packet.seqNo x.packet.ackSeqNo)).2.isEmpty then s.reqBuf.len else 0) := by
  have hsame : bufferAt x (s.setSeq x.packet.seqNo x.packet.ackSeqNo) = bufferAt x s := by
    unfold bufferAt
    rw [CSession.setSeq_reqBuf, CSession.setSeq_rspBuf]
  obtain ⟨hbuf, hlen, -⟩ :=
    parseFull_buffers B (s.setSeq x.packet.seqNo x.packet.ackSeqNo) hto
  rw [CSession.setSeq_reqBuf, hsame] at hlen
  rw [hsame] at hbuf
  obtain ⟨-, -, -, hreq, -⟩ := stampRequest_fields x.packet
    (parseFull B x.env.parse (s.setSeq x.packet.seqNo x.packet.ackSeqNo)).1
  exact ⟨hreq.trans hbuf, hlen⟩

/-- A packet to the client, too. -/
theorem rspBuf_filed (s : CSession) (hto : x.packet.toServer = false) :
    (stampResponse x.packet (s.setSeq x.packet.seqNo x.packet.ackSeqNo)).rspBuf = bufferAt x s := by
  have hbuf : bufferAt x s = s.rspBuf := by
    unfold bufferAt
    rw [if_neg (by simp [hto])]
  obtain ⟨-, -, -, -, hrsp⟩ := stampResponse_fields x.packet
    (s.setSeq x.packet.seqNo x.packet.ackSeqNo)
  rw [hbuf, hrsp, CSession.setSeq_rspBuf]

/-- Filing it leaves the response as the call of `Parse` before it does. -/
theorem processData_rspBuf (s : CSession) (hto : x.packet.toServer = true) :
    (processData B x.env x.packet (behavior x.packet).matchWay s).ses.rspBuf =
      (parseFull B x.env.parse (s.setSeq x.packet.seqNo x.packet.ackSeqNo)).1.rspBuf := by
  obtain ⟨-, -, -, -, hrsp⟩ := stampRequest_fields x.packet
    (parseFull B x.env.parse (s.setSeq x.packet.seqNo x.packet.ackSeqNo)).1
  rw [processData_toServer B hto]
  exact hrsp

/-- What filing a packet to the server makes of the two buffers. -/
theorem processData_request (s : CSession) (hto : x.packet.toServer = true) :
    let q := processData B x.env x.packet (behavior x.packet).matchWay s
    let a := (bufferAt x s).append x.env.append (some x.packet.data) x.packet.dataSize
    q.done = a.1 ∧ q.ses.reqBuf = a.2 ∧
      (bufferAt x s).len = (if q.calls.isEmpty then s.reqBuf.len else 0) ∧
      q.ses.rspBuf.len = if q.calls.isEmpty then s.rspBuf.len else 0 := by
  obtain ⟨hbuf, hlen⟩ := reqBuf_filed B s hto
  obtain ⟨-, -, hother⟩ :=
    parseFull_buffers B (s.setSeq x.packet.seqNo x.packet.ackSeqNo) hto
  rw [CSession.setSeq_rspBuf] at hother
  have hrsp := processData_rspBuf B s hto
  rw [processData_toServer B hto, appendRequest_of_reqBuf hbuf] at hrsp ⊢
  exact ⟨rfl, rfl, hlen, (congrArg CBuffer.len hrsp).trans hother⟩

/-- What filing a packet to the client makes of them. -/
theorem processData_response (s : CSession) (hto : x.packet.toServer = false) :
    let q := processData B x.env x.packet (behavior x.packet).matchWay s
    let a := (bufferAt x s).append x.env.append (some x.packet.data) x.packet.dataSize
    q.done = a.1 ∧ q.ses.rspBuf = a.2 ∧ q.ses.reqBuf = s.reqBuf ∧ q.calls = [] ∧
      bufferAt x s = s.rspBuf := by
  have hbuf : bufferAt x s = s.rspBuf := by
    unfold bufferAt
    rw [if_neg (by simp [hto])]
  obtain ⟨-, -, -, hreq, hrsp⟩ := stampResponse_fields x.packet
    (s.setSeq x.packet.seqNo x.packet.ackSeqNo)
  rw [CSession.setSeq_reqBuf] at hreq
  rw [CSession.setSeq_rspBuf, ← hbuf] at hrsp
  rw [processData_toClient B hto, appendResponse_of_rspBuf hrsp]
  exact ⟨rfl, rfl, hreq, rfl, hbuf⟩

/-- The packets in a session after one was filed: those before, unless `Parse` was called,
and the packet, if `Append` succeeded. -/
def joined (q : Filed) (ps : List CFormatPacket) (p : CFormatPacket) : List CFormatPacket :=
  (if q.calls.isEmpty then ps else []) ++ if q.done then [p] else []

/-- **A filed packet is shown behind what was shown before.** -/
theorem processData_carries (hs : s.WF) (hc : s.Carries ps) (he : x.env.Resets)
    (hreq : (requestOf (joined (processData B x.env x.packet (behavior x.packet).matchWay s) ps
      x.packet)).length < 2 ^ 32)
    (hrsp : (responseOf (joined (processData B x.env x.packet (behavior x.packet).matchWay s) ps
      x.packet)).length < 2 ^ 32)
    (hkeep : ¬ (bufferAt x s).Frees x.packet.dataSize) :
    let q := processData B x.env x.packet (behavior x.packet).matchWay s
    q.ses.WF ∧ q.ses.Carries (joined q ps x.packet) ∧ ∀ k ∈ q.calls, k.1.Carries ps := by
  have hs₀ := hs.setSeq x.packet.seqNo x.packet.ackSeqNo
  have hc₀ : (s.setSeq x.packet.seqNo x.packet.ackSeqNo).Carries ps :=
    hc.congr (s.setSeq_reqBuf _ _) (s.setSeq_rspBuf _ _)
  cases hto : x.packet.toServer with
  | true =>
    rw [processData_toServer B hto] at hreq ⊢
    obtain ⟨hfull, hcalls⟩ := hc₀.parseFull B x.env.parse
    have hwf := parseFull_wf B hs₀ he.parse
    obtain ⟨-, -, -, hstamp, hstamp'⟩ := stampRequest_fields x.packet
      (parseFull B x.env.parse (s.setSeq x.packet.seqNo x.packet.ackSeqNo)).1
    have happ := (hfull.congr hstamp hstamp').appendRequest (stampRequest_wf x.packet hwf)
      (e := x.env) hto (fun hdone => by
        unfold joined at hreq
        rwa [if_pos hdone] at hreq) (by rwa [(reqBuf_filed B s hto).1])
    exact ⟨happ.1, happ.2, hcalls⟩
  | false =>
    rw [processData_toClient B hto] at hrsp ⊢
    obtain ⟨-, -, -, hstamp, hstamp'⟩ := stampResponse_fields x.packet
      (s.setSeq x.packet.seqNo x.packet.ackSeqNo)
    have happ := (hc₀.congr hstamp hstamp').appendResponse (stampResponse_wf x.packet hs₀)
      (e := x.env) hto (fun hdone => by
        unfold joined at hrsp
        rwa [if_pos hdone] at hrsp) (by rwa [rspBuf_filed s hto])
    exact ⟨happ.1, happ.2, fun k hk => absurd hk List.not_mem_nil⟩

/-- If the allocator answers, `Append` succeeds, unless it frees the block. -/
theorem processData_done (he : x.env.append.isSome) (s : CSession)
    (hkeep : ¬ (bufferAt x s).Frees x.packet.dataSize) :
    (processData B x.env x.packet (behavior x.packet).matchWay s).done = true := by
  cases hto : x.packet.toServer with
  | true => exact (processData_request B s hto).1.trans (CBuffer.append_fst he _ hkeep)
  | false => exact (processData_response B s hto).1.trans (CBuffer.append_fst he _ hkeep)

end Filing

/-! ## What holds of all books -/

section Keeping

variable {B : Boost} {last : Int} {c : Conn} {b : Book} {x : Arrival} {P F : Ledger → Prop}

/-- What keeps a property of ledgers during a call, if `F` holds where the packet is
filed. -/
structure Ledger.Keeps (B : Boost) (x : Arrival) (F P : Ledger → Prop) : Prop where
  /-- The sweep parses the session. -/
  sweep : ∀ l a b, P l → P (l.parse B (x.env.sweep a b))
  /-- The packet closes it. -/
  close : ∀ l, P l → P (l.parse B x.env.parse)
  /-- The packet opens it. -/
  opened : ∀ o, (∀ l ∈ o, P l) → P (Ledger.opened x.call (behavior x.packet) o)
  /-- The packet is filed. -/
  file : ∀ l, P l → F l → P (l.file B x.call (behavior x.packet))

/-- The sweep keeps what a call of `Parse` keeps. -/
theorem Book.keeps_swept (last : Int) (hk : Ledger.Keeps B x F P) (h : ∀ l ∈ b.ledgers, P l) :
    ∀ l ∈ (b.swept B last x.call).ledgers, P l := by
  intro l hl
  unfold Book.swept Book.ledgers at hl
  rw [List.append_assoc] at hl
  rcases List.mem_append.mp hl with hl | hl
  · exact h l (List.mem_append_left _ hl)
  cases ho : b.current with
  | none =>
    rw [ho] at hl
    exact absurd hl (by simp [Ledger.sweep])
  | some l₀ =>
    have hl₀ : P l₀ := h l₀ (List.mem_append_right _ (Option.mem_toList.mpr ho))
    have hparsed : P (if sweepParses x.call.env.timeCheck l₀.ses then
        l₀.parse B (x.call.env.sweep l₀.ses.server l₀.ses.client) else l₀) := by
      split
      · exact hk.sweep l₀ _ _ hl₀
      · exact hl₀
    rw [ho] at hl
    simp only [Ledger.sweep] at hl
    by_cases hin : (hashConn l₀.ses.conn).toNat < sweepReach last x.call.env
    · simp only [if_pos hin] at hl
      cases hexpires : sweepExpires x.call.env.timeCheck l₀.ses with
      | true =>
        rw [hexpires] at hl
        rw [List.mem_singleton.mp hl]
        exact hparsed
      | false =>
        rw [hexpires] at hl
        rw [List.mem_singleton.mp hl]
        exact hparsed
    · simp only [if_neg hin] at hl
      rw [List.mem_singleton.mp hl]
      exact hl₀

/-- The session a packet meets has the property too. -/
theorem Book.keeps_meets (last : Int) (hk : Ledger.Keeps B x F P) (h : ∀ l ∈ b.ledgers, P l) :
    P (b.meets B last x.call (behavior x.packet)) :=
  hk.opened _ fun l hl => Book.keeps_swept last hk h l
    (List.mem_append_right _ (Option.mem_toList.mpr hl))

/-- **One call keeps a property of all ledgers.** -/
theorem Book.keeps_step (hk : Ledger.Keeps B x F P) (h : ∀ l ∈ b.ledgers, P l)
    (hfile : x.packet.conn = c →
      Traced.accepts x.packet (b.meets B last x.call (behavior x.packet)).ses = true →
        F (b.meets B last x.call (behavior x.packet))) :
    ∀ l ∈ (Book.step B last c b x.call).ledgers, P l := by
  have hswept := Book.keeps_swept last hk h
  have hmeets := Book.keeps_meets last hk h
  intro l hl
  unfold Book.step at hl
  by_cases hc : x.packet.conn = c
  · simp only [Arrival.call_info, if_pos (show x.call.packet.conn = c from hc), Book.ledgers] at hl
    rw [List.append_assoc] at hl
    rcases List.mem_append.mp hl with hl | hl
    · exact hswept l (List.mem_append_left _ hl)
    unfold Ledger.serve at hl
    rw [Arrival.call_packet] at hl
    by_cases hclose : x.packet.closes
    · rw [if_pos hclose] at hl
      rw [List.mem_singleton.mp hl]
      exact hk.close _ hmeets
    rw [if_neg hclose] at hl
    by_cases hacc : Traced.accepts x.packet (b.meets B last x.call (behavior x.packet)).ses
    · rw [if_pos hacc] at hl
      rw [List.mem_singleton.mp hl]
      exact hk.file _ hmeets (hfile hc hacc)
    · rw [if_neg hacc] at hl
      rw [List.mem_singleton.mp hl]
      exact hmeets
  · simp only [Arrival.call_info, if_neg (show ¬ x.call.packet.conn = c from hc)] at hl
    exact hswept l hl

/-- Wherever a packet of the run is filed, `F` holds of it and the session it meets. -/
def Book.FilesAlong (B : Boost) (last : Int) (c : Conn) (F : Arrival → Ledger → Prop) :
    Book → List Arrival → Prop
  | _, [] => True
  | b, x :: xs =>
    (x.packet.conn = c →
      Traced.accepts x.packet (b.meets B last x.call (behavior x.packet)).ses = true →
        F x (b.meets B last x.call (behavior x.packet))) ∧
      Book.FilesAlong B last c F (Book.step B last c b x.call) xs

instance Book.decidableFilesAlong (F : Arrival → Ledger → Prop) [∀ x l, Decidable (F x l)] :
    ∀ b xs, Decidable (Book.FilesAlong B last c F b xs)
  | _, [] => isTrue trivial
  | b, x :: xs =>
    have := Book.decidableFilesAlong F (Book.step B last c b x.call) xs
    inferInstanceAs (Decidable (_ ∧ _))

/-- What holds wherever a packet is filed may be shown part by part. -/
theorem Book.filesAlong_and {F G : Arrival → Ledger → Prop} {xs : List Arrival} :
    ∀ b : Book, Book.FilesAlong B last c F b xs → Book.FilesAlong B last c G b xs →
      Book.FilesAlong B last c (fun x l => F x l ∧ G x l) b xs := by
  induction xs with
  | nil => intro _ _ _; trivial
  | cons x xs ih =>
    intro b hF hG
    exact ⟨fun hc hacc => ⟨hF.1 hc hacc, hG.1 hc hacc⟩, ih _ hF.2 hG.2⟩

/-- **A run keeps a property of all ledgers.** -/
theorem Book.keeps_run {F : Arrival → Ledger → Prop} {xs : List Arrival}
    (hk : ∀ x ∈ xs, Ledger.Keeps B x (F x) P) (h : ∀ l ∈ b.ledgers, P l)
    (hfile : Book.FilesAlong B last c F b xs) :
    ∀ l ∈ ((bookMachine B last c).run b (xs.map Arrival.call)).1.ledgers, P l := by
  induction xs generalizing b with
  | nil => exact h
  | cons x xs ih =>
    obtain ⟨hfirst, hrest⟩ := hfile
    exact ih (fun y hy => hk y (List.mem_cons_of_mem _ hy))
      (Book.keeps_step (hk x List.mem_cons_self) h hfirst) hrest

end Keeping

/-! ## The books balance -/

namespace Ledger

/-- What the session shows is the payload of the packets filed since the last call of
`Parse`, and what `Parse` got is the payload of the packets filed before it. -/
structure Balanced (l : Ledger) : Prop where
  wf : l.ses.WF
  since : l.ses.Carries l.since
  parsed : ∀ k ∈ l.parsed, k.ses.Carries k.filed

/-- Fewer than `2 ^ 32` bytes are buffered in either direction. -/
structure Counted (l : Ledger) : Prop where
  req : (requestOf l.since).length < 2 ^ 32
  rsp : (responseOf l.since).length < 2 ^ 32

/-- The bytes buffered with the packet can be counted, and its length does not make `Append` free
the block. -/
structure Countable (B : Boost) (x : Arrival) (l : Ledger) : Prop
    extends Counted (l.file B x.call (behavior x.packet)) where
  kept : ¬ (bufferAt x l.ses).Frees x.packet.dataSize

variable {B : Boost} {l : Ledger}

theorem Balanced.parse (h : l.Balanced) {e : ParseEnv} (he : e.reset.Granted) :
    (l.parse B e).Balanced := by
  refine ⟨parse_wf B h.wf he, CSession.Carries.parse B e l.ses, fun k hk => ?_⟩
  rcases List.mem_append.mp hk with hk | hk
  · exact h.parsed k hk
  · rw [List.mem_singleton.mp hk]
    exact h.since

/-- A call in which no constructor or `Reset` is refused its memory keeps the balance. -/
theorem Balanced.keeps (B : Boost) {x : Arrival} (he : x.env.Resets) :
    Keeps B x (Countable B x) Balanced where
  sweep l a b h := h.parse (he.sweep a b)
  close l h := h.parse he.parse
  opened o h := by
    cases o with
    | none =>
      exact ⟨CSessionHashTable.newSession_wf _ _ _ he.bufs he.reset, CSession.Carries.new ..,
        fun k hk => absurd hk List.not_mem_nil⟩
    | some l =>
      have hl : l.Balanced := h l rfl
      exact ⟨⟨hl.wf.req, hl.wf.rsp⟩, ⟨hl.since.req, hl.since.rsp⟩, hl.parsed⟩
  file l h hcount := by
    obtain ⟨hwf, hsince, hcalls⟩ := processData_carries B h.wf h.since he hcount.req hcount.rsp
      hcount.kept
    refine ⟨hwf, hsince, fun k hk => ?_⟩
    rcases List.mem_append.mp hk with hk | hk
    · exact h.parsed k hk
    · obtain ⟨q, hq, rfl⟩ := List.mem_map.mp hk
      exact hcalls q hq

end Ledger

/-- **The books balance along every run** in which no constructor or `Reset` is refused its
memory and the bytes buffered can be counted. -/
theorem balanced_run (B : Boost) (last : Int) (c : Conn) {xs : List Arrival}
    (he : ∀ x ∈ xs, x.env.Resets)
    (hcount : Book.FilesAlong B last c (Ledger.Countable B) Book.empty xs) :
    ∀ l ∈ ((bookMachine B last c).run Book.empty (xs.map Arrival.call)).1.ledgers, l.Balanced :=
  Book.keeps_run (fun x hx => Ledger.Balanced.keeps B (he x hx))
    (fun l hl => absurd hl (by simp [Book.ledgers, Book.empty])) hcount

/-! ## What is removed -/

namespace Ledger

/-- Both buffers are empty. -/
structure Cleared (l : Ledger) : Prop where
  req : l.ses.reqBuf.len = 0
  rsp : l.ses.rspBuf.len = 0

theorem cleared_parse (l : Ledger) (B : Boost) (e : ParseEnv) : (l.parse B e).Cleared := by
  have hlen : (HttpDecoder.parse B e l.ses).1.reqBuf.len = 0 ∧
      (HttpDecoder.parse B e l.ses).1.rspBuf.len = 0 := by
    rw [parse_fst]
    exact ⟨rfl, rfl⟩
  exact ⟨hlen.1, hlen.2⟩

/-- The sweep erases no session that holds data. -/
theorem cleared_sweep (B : Boost) (e : Env) (reach : Nat) (o : Option Ledger) :
    ∀ l ∈ (sweep B e reach o).2, l.Cleared := by
  cases o with
  | none => exact fun l hl => absurd hl (by simp [sweep])
  | some l =>
    intro l' hl'
    simp only [sweep] at hl'
    by_cases hin : (hashConn l.ses.conn).toNat < reach
    · simp only [if_pos hin] at hl'
      cases hexpires : sweepExpires e.timeCheck l.ses with
      | false =>
        rw [hexpires] at hl'
        exact absurd hl' (by simp)
      | true =>
        rw [hexpires] at hl'
        rw [List.mem_singleton.mp hl']
        cases hparses : sweepParses e.timeCheck l.ses with
        | true => exact cleared_parse ..
        | false =>
          obtain ⟨hreq, hrsp⟩ := len_of_not_sweepParses (idle_of_sweepExpires hexpires) hparses
          exact ⟨hreq, hrsp⟩
    · simp only [if_neg hin] at hl'
      exact absurd hl' (by simp)

/-- A closing packet removes the session after `Parse` cleared it. -/
theorem cleared_serve (B : Boost) (x : Call) (info : CSharedBehaviorInfo) (l : Ledger) :
    ∀ l' ∈ (serve B x info l).2, l'.Cleared := by
  intro l' hl'
  unfold serve at hl'
  by_cases hclose : x.packet.closes
  · rw [if_pos hclose] at hl'
    rw [List.mem_singleton.mp hl']
    exact cleared_parse ..
  · rw [if_neg hclose] at hl'
    exact absurd hl' (by split <;> simp)

end Ledger

/-- **A session is only removed with both buffers empty.** -/
theorem cleared_run (B : Boost) (last : Int) (c : Conn) (xs : List Call) :
    ∀ l ∈ ((bookMachine B last c).run Book.empty xs).1.closed, l.Cleared := by
  refine (bookMachine B last c).run_invariant (I := fun b => ∀ l ∈ b.closed, l.Cleared)
    (A := fun _ => True) (fun b x hb _ => ?_) xs Book.empty
    (fun l hl => absurd hl (by simp [Book.empty])) fun _ _ => trivial
  have hswept : ∀ l ∈ (b.swept B last x).closed, l.Cleared := by
    intro l hl
    rcases List.mem_append.mp hl with hl | hl
    · exact hb l hl
    · exact Ledger.cleared_sweep B x.env (sweepReach last x.env) b.current l hl
  show ∀ l ∈ (Book.step B last c b x).closed, l.Cleared
  unfold Book.step
  cases x.info with
  | none => exact hswept
  | some info =>
    by_cases hc : x.packet.conn = c
    · simp only [if_pos hc]
      intro l hl
      rcases List.mem_append.mp hl with hl | hl
      · exact hswept l hl
      · exact Ledger.cleared_serve B x info _ l hl
    · simp only [if_neg hc]
      exact hswept

end HttpDecoder
