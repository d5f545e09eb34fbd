import HttpDecoder.Conservation
import HttpDecoder.Discard
import HttpDecoder.Interleaving
import HttpDecoder.Language
import HttpDecoder.Roles
import HttpDecoder.Teardown

/-!
# Where the bytes of a report come from

A report can show too little, and the theorems on lost data say when.  It never shows what was
not sent, and it never shows a packet twice, even when `Append` is refused its memory; and all it
ever shows are exchanges with a server on port 80.

* `Book.filed` — the packets in the books of a connection; `filed_run` — packets of the run, in
  their order, each at most once.
* `reported_once` — **so the records of a connection are made of separate packets of it**.
* `SessionRule` — what one call has to keep of a session; `connMachine_rule` — then a run keeps it.
* `reported_server` — **every record has port 80 for its server**.
-/

namespace HttpDecoder

open CLib CHandle

/-! ## The packets in the books -/

/-- The packets in the books of a session, the oldest first. -/
def Ledger.filed (l : Ledger) : List CFormatPacket := l.parsed.flatMap Handed.filed ++ l.since

/-- Those in the books of a connection. -/
def Book.filed (b : Book) : List CFormatPacket := b.ledgers.flatMap Ledger.filed

namespace Ledger

variable {B : Boost} {l : Ledger}

/-- `Parse` hands packets over. -/
theorem filed_parse (l : Ledger) (e : ParseEnv) : (l.parse B e).filed = l.filed := by
  show (l.parsed ++ [(⟨l.ses, (HttpDecoder.parse B e l.ses).2, l.since⟩ : Handed)]).flatMap
    Handed.filed ++ [] = _
  rw [List.append_nil, List.flatMap_append, List.flatMap_singleton]
  rfl

/-- A packet is filed behind the others if `Append` succeeds. -/
theorem filed_file (l : Ledger) (x : Arrival) : (l.file B x.call (behavior x.packet)).filed =
    l.filed ++ if (processData B x.env x.packet (behavior x.packet).matchWay l.ses).done
      then [x.packet] else [] := by
  show (l.parsed ++ (processData B x.env x.packet (behavior x.packet).matchWay l.ses).calls.map
    _).flatMap Handed.filed ++
      joined (processData B x.env x.packet (behavior x.packet).matchWay l.ses) l.since x.packet = _
  rw [joined, filed, List.flatMap_append]
  rcases processData_calls B x l.ses with hnone | ⟨k, hone⟩
  · rw [hnone]
    simp
  · rw [hone]
    simp

/-- The sweep loses no packet from the books. -/
theorem filed_sweep (e : Env) (reach : Nat) (o : Option Ledger) :
    (sweep B e reach o).2.flatMap filed ++ (sweep B e reach o).1.toList.flatMap filed =
      o.toList.flatMap filed := by
  cases o with
  | none => rfl
  | some l =>
    simp only [sweep]
    split_ifs <;> simp [filed_parse]

/-- Nor does a packet that opens a session. -/
theorem filed_opened (x : Call) (info : CSharedBehaviorInfo) (o : Option Ledger) :
    (opened x info o).filed = o.toList.flatMap filed := by
  cases o with
  | none => rfl
  | some l => exact (List.append_nil _).symm

end Ledger

namespace Book

variable {B : Boost} {last : Int} {c : Conn} {b : Book} {x : Arrival}

theorem filed_mk (closed : List Ledger) (o : Option Ledger) :
    (⟨closed, o⟩ : Book).filed = closed.flatMap Ledger.filed ++ o.toList.flatMap Ledger.filed :=
  List.flatMap_append

theorem filed_swept (b : Book) (x : Call) : (b.swept B last x).filed = b.filed := by
  rw [swept, filed_mk, List.flatMap_append, List.append_assoc, Ledger.filed_sweep]
  exact (filed_mk b.closed b.current).symm

/-- **One call files its packet or nothing.** -/
theorem filed_step (b : Book) (x : Arrival) :
    (step B last c b x.call).filed = b.filed ∨
      x.packet.conn = c ∧ (step B last c b x.call).filed = b.filed ++ [x.packet] := by
  have hmeets : (b.swept B last x.call).closed.flatMap Ledger.filed ++
      (b.meets B last x.call (behavior x.packet)).filed = b.filed := by
    rw [meets, Ledger.filed_opened, ← filed_mk]
    exact filed_swept b x.call
  unfold step
  simp only [Arrival.call_info]
  rw [Arrival.call_packet]
  by_cases hc : x.packet.conn = c
  · rw [if_pos hc]
    simp only [filed_mk, List.flatMap_append, List.append_assoc]
    rw [← hmeets]
    generalize b.meets B last x.call (behavior x.packet) = l
    unfold Ledger.serve
    rw [Arrival.call_packet]
    split_ifs
    · -- a closing packet
      refine Or.inl ?_
      simp [Ledger.filed_parse]
    · -- a packet that passes the tests
      have hfile := l.filed_file (B := B) x
      by_cases hdone : (processData B x.env x.packet (behavior x.packet).matchWay l.ses).done
      · refine Or.inr ⟨hc, ?_⟩
        rw [if_pos hdone] at hfile
        simp [hfile]
      · refine Or.inl ?_
        rw [if_neg hdone] at hfile
        simp [hfile]
    · exact Or.inl (by simp)
  · rw [if_neg hc]
    exact Or.inl (filed_swept b x.call)

/-- **The packets in the books are packets of the run**, in their order, each at most once. -/
theorem filed_run (B : Boost) (last : Int) (c : Conn) (xs : List Arrival) :
    ((bookMachine B last c).run empty (xs.map Arrival.call)).1.filed.Sublist
      ((arrivalsOf c xs).map Arrival.packet) := by
  induction xs using List.reverseRecOn with
  | nil => exact List.Sublist.refl _
  | append_singleton xs x ih =>
    have hsplit : (arrivalsOf c (xs ++ [x])).map Arrival.packet =
        (arrivalsOf c xs).map Arrival.packet ++ (arrivalsOf c [x]).map Arrival.packet := by
      unfold arrivalsOf
      rw [List.filter_append, List.map_append]
    rw [List.map_append, List.map_singleton, Machine.run_concat, hsplit]
    rcases filed_step (B := B) (c := c)
      ((bookMachine B last c).run empty (xs.map Arrival.call)).1 x with hsame | ⟨hc, hmore⟩
    · exact hsame ▸ ih.trans (List.sublist_append_left _ _)
    · have hx : (arrivalsOf c [x]).map Arrival.packet = [x.packet] := by
        rw [arrivalsOf, List.filter_singleton, decide_eq_true hc]
        rfl
      rw [hx]
      exact hmore ▸ ih.append (List.Sublist.refl _)

/-- The packets that were handed over are among them. -/
theorem handed_filed (b : Book) : (b.handed.flatMap Handed.filed).Sublist b.filed := by
  unfold handed filed
  rw [List.flatMap_assoc]
  induction b.ledgers with
  | nil => exact List.Sublist.refl _
  | cons l ls ih =>
    rw [List.flatMap_cons, List.flatMap_cons]
    exact (List.sublist_append_left _ _).append ih

end Book

/-! ## The records of a connection -/

/-- The records that some calls of `Parse` send on a connection. -/
def recordsOf (c : Conn) (ks : List ParseCall) : List Record :=
  (sentBy ks).filter fun r => s(r.server, r.client) = c

/-- They are those of its sessions. -/
theorem recordsOf_obs {B : Boost} {ks : List ParseCall} (h : ∀ k ∈ ks, CleanCall B k.seen)
    (c : Conn) : recordsOf c ks = (ks.filterMap (obsConn c)).filterMap Prod.snd := by
  unfold recordsOf sentBy
  induction ks with
  | nil => rfl
  | cons k ks ih =>
    obtain ⟨hk, hks⟩ := List.forall_mem_cons.mp h
    have hrest := ih hks
    have hseen : k.seen.2 = k.sent := rfl
    have hother : k.ses.conn ≠ c → obsConn c k = none := fun hc => if_neg hc
    have hown : k.ses.conn = c → obsConn c k = some k.seen := fun hc => if_pos hc
    cases hsent : k.sent with
    | none =>
      rw [List.filterMap_cons_none hsent, hrest]
      by_cases hc : k.ses.conn = c
      · rw [List.filterMap_cons_some (hown hc), List.filterMap_cons_none (hseen.trans hsent)]
      · rw [List.filterMap_cons_none (hother hc)]
    | some r =>
      obtain ⟨-, e, hparse⟩ := hk
      obtain ⟨hclient, hserver⟩ := ends_of_sent (hparse.symm.trans hsent)
      have hconn : s(r.server, r.client) = k.ses.conn := by
        rw [CSession.conn, hclient, hserver]
        rfl
      rw [List.filterMap_cons_some hsent, List.filter_cons, hconn, hrest]
      by_cases hc : k.ses.conn = c
      · rw [if_pos (decide_eq_true hc), List.filterMap_cons_some (hown hc),
          List.filterMap_cons_some (hseen.trans hsent)]
      · rw [if_neg (by simpa using hc), List.filterMap_cons_none (hother hc)]

/-- The contexts of a record are the payloads of some packets. -/
def Record.MadeOf (r : Record) (ps : List CFormatPacket) : Prop :=
  r.requestContext = requestOf ps ∧ r.responseContext = responseOf ps

/-- When the books balance, every record is made of the packets that were handed over for it. -/
theorem madeOf_handed {B : Boost} {ks : List Handed} (hks : ∀ k ∈ ks, k.ses.Carries k.filed)
    (hsent : ∀ k ∈ ks, ∃ e, k.sent = (parse B e k.ses).2) :
    ∃ pss : List (List CFormatPacket), pss.flatten.Sublist (ks.flatMap Handed.filed) ∧
      List.Forall₂ Record.MadeOf (ks.filterMap Handed.sent) pss := by
  induction ks with
  | nil => exact ⟨[], List.Sublist.refl _, List.Forall₂.nil⟩
  | cons k ks ih =>
    obtain ⟨hcarries, hks⟩ := List.forall_mem_cons.mp hks
    obtain ⟨⟨e, hparse⟩, hsent⟩ := List.forall_mem_cons.mp hsent
    obtain ⟨pss, hsub, hmade⟩ := ih hks hsent
    rw [List.flatMap_cons]
    cases hr : k.sent with
    | none =>
      refine ⟨pss, hsub.trans (List.sublist_append_right _ _), ?_⟩
      rwa [List.filterMap_cons_none hr]
    | some r =>
      obtain ⟨hreq, hrsp⟩ := contexts_of_sent (hparse.symm.trans hr)
      refine ⟨k.filed :: pss, (List.Sublist.refl _).append hsub, ?_⟩
      rw [List.filterMap_cons_some hr]
      exact hmade.cons ⟨hreq.trans hcarries.req, hrsp.trans hcarries.rsp⟩

/-- **Every packet is reported once at most, and nothing else is.**  In every run from `Init`, with
sweeps at any times and whether `Append` is granted its memory or not, as long as the constructors
and `Reset` are and the payload of every connection can be counted: each record of a connection is
made of packets of this connection, the request context of their bytes to the server and the
response context of their bytes to the client; and the packets of one record after the other are,
in their order of arrival, different packets. -/
theorem reported_once (B : Boost) (ses : Nat → CSession) (now : Int) {c : Conn}
    {xs : List Arrival} (he : ∀ x ∈ xs, x.env.Resets)
    (hsmall : ∀ c', payloadBytes (ofConn c' (xs.map Arrival.call)) < 2 ^ 32) :
    ∃ pss : List (List CFormatPacket),
      pss.flatten.Sublist ((arrivalsOf c xs).map Arrival.packet) ∧
      List.Forall₂ Record.MadeOf
        (recordsOf c ((handleMachine B).run (init ses now) (xs.map Arrival.call)).2) pss := by
  have hcall : ∀ k ∈ ((handleMachine B).run (init ses now) (xs.map Arrival.call)).2,
      CleanCall B k.seen := fun k hk => cleanCall_run B ses now _ hk
  have hheld : Book.empty.held + payloadBytes (ofConn c (xs.map Arrival.call)) < 2 ^ 32 :=
    (Nat.zero_add _).trans_lt (hsmall c)
  have hbalanced := balanced_run B now c he (countable_of_own B now Book.typed_empty hheld)
  have hhanded := (booksOf_run B ses now c xs).2
  have hcarries : ∀ k ∈ (booksOf B now c xs).handed, k.ses.Carries k.filed := by
    intro k hk
    obtain ⟨l, hl, hk⟩ := List.mem_flatMap.mp hk
    exact (hbalanced l hl).parsed k hk
  have hsent : ∀ k ∈ (booksOf B now c xs).handed, ∃ e, k.sent = (parse B e k.ses).2 := by
    intro k hk
    obtain ⟨k', hk', hobs⟩ := List.mem_filterMap.mp (hhanded ▸ List.mem_map_of_mem hk)
    obtain ⟨hconn, hpair⟩ : k'.ses.conn = c ∧ k'.seen = Ledger.pair k := by
      unfold obsConn at hobs
      split_ifs at hobs with hconn
      exact ⟨hconn, Option.some.inj hobs⟩
    obtain ⟨-, e, he⟩ := hpair ▸ hcall k' hk'
    exact ⟨e, he⟩
  obtain ⟨pss, hsub, hmade⟩ := madeOf_handed hcarries hsent
  refine ⟨pss, hsub.trans ((Book.handed_filed _).trans (Book.filed_run B now c xs)), ?_⟩
  rw [recordsOf_obs hcall, ← hhanded, List.filterMap_map]
  exact hmade

/-- The exchange of one request and one response, with an empty segment and a repetition. -/
theorem reported_once_sample : ∃ pss : List (List CFormatPacket),
    pss.flatten.Sublist ((arrivalsOf s(⟨1, 1000⟩, ⟨2, 80⟩) (sampleFull ++ [sampleFin])).map
      Arrival.packet) ∧
    List.Forall₂ Record.MadeOf (recordsOf s(⟨1, 1000⟩, ⟨2, 80⟩)
      ((handleMachine Boost.decimal).run (init blankSes 0)
        ((sampleFull ++ [sampleFin]).map Arrival.call)).2) pss := by
  have hgrant : ∀ x ∈ sampleFull ++ [sampleFin], x.env.Granted := by
    simp [sampleFull, sampleFin, arrival, Env.granted_granting]
  have hcount : payloadBytes ((sampleFull ++ [sampleFin]).map Arrival.call) < 2 ^ 32 := by
    simp [payloadBytes, sampleFull, sampleFin, payload_arrival]
  exact reported_once Boost.decimal blankSes 0 (fun x hx => (hgrant x hx).toResets)
    fun _ => (payloadBytes_le List.filter_sublist).trans_lt hcount

/-! ## A rule for sessions -/

/-- What one call has to keep of the sessions of its connection. -/
structure SessionRule (B : Boost) (x : Arrival) (P : CSession → Prop) : Prop where
  /-- `Parse` leaves it. -/
  parse : ∀ s e, P s → P (parse B e s).1
  /-- `Find` refreshes it. -/
  refresh : ∀ s t, P s → P { s with refreshTime := t }
  /-- `Create` makes it. -/
  create : P (CSessionHashTable.newSession x.env.timeCreate x.env.new x.packet (behavior x.packet))
  /-- The sequence numbers of the packet are noted. -/
  setSeq : ∀ s n m, P s → P (s.setSeq n m)
  /-- The packet is filed. -/
  file : ∀ s, s.conn = x.packet.conn → P s →
    P (processData B x.env x.packet (behavior x.packet).matchWay s).ses

/-- What holds of the session left, and of those handed to `Parse`. -/
structure RuleStep (P : CSession → Prop) (c : Conn)
    (r : Option CSession × List (CSession × Option Record)) : Prop where
  ses : ∀ s ∈ r.1, s.conn = c ∧ P s
  calls : ∀ k ∈ r.2, P k.1

section Rule

variable {B : Boost} {last : Int} {c : Conn} {x : Arrival} {P : CSession → Prop}
  {o : Option CSession}

theorem SessionRule.sweepConn (h : SessionRule B x P) (e : Env) (reach : Nat)
    (ho : ∀ s ∈ o, s.conn = c ∧ P s) : RuleStep P c (CHandle.sweepConn B e reach o) := by
  refine ⟨fun s' hs' => ?_, fun k hk => (ho _ (mem_sweepConn hk)).2⟩
  cases o with
  | none => exact absurd hs' (Option.not_mem_none s')
  | some s =>
    obtain ⟨hconn, hs⟩ := ho s rfl
    have hparsed : ∀ e, (HttpDecoder.parse B e s).1.conn = c := by
      intro e
      rw [parse_fst]
      exact hconn
    rcases sweepConn_cases B e reach s s' hs' with rfl | rfl
    · unfold sweptSes
      split
      · exact ⟨hparsed _, h.parse _ _ hs⟩
      · exact ⟨hconn, hs⟩
    · exact ⟨hconn, hs⟩

theorem SessionRule.opened (h : SessionRule B x P) (ho : ∀ s ∈ o, P s) :
    P (CHandle.opened x.call (behavior x.packet) o) := by
  cases o with
  | none => exact h.create
  | some s => exact h.refresh s _ (ho s rfl)

theorem SessionRule.serve (h : SessionRule B x P) {s : CSession} (hconn : s.conn = x.packet.conn)
    (hs : P s) : RuleStep P x.packet.conn (CHandle.serve B x.call (behavior x.packet) s) := by
  constructor
  · intro s' hs'
    refine ⟨(serve_conn.1 s' hs').trans hconn, ?_⟩
    rcases serve_cases B x.call (behavior x.packet) s s' hs' with rfl | rfl
    · exact hs
    · exact h.file s hconn hs
  · intro k hk
    rcases served_cases x.call.packet s with hclose | ⟨hopen, hdrop⟩ | ⟨hopen, hdata, hnew⟩
    · rw [serve_closing hclose] at hk
      exact List.mem_singleton.mp hk ▸ hs
    · rw [serve_left hopen hdrop] at hk
      exact absurd hk List.not_mem_nil
    · rw [serve_filed hopen hdata hnew] at hk
      simp only [processData] at hk
      split_ifs at hk
      · exact absurd hk List.not_mem_nil
      · rw [(parseFull_conn B _ _).2 k hk]
        exact h.setSeq s _ _ hs
      · exact absurd hk List.not_mem_nil
      · exact absurd hk List.not_mem_nil

/-- **One step of a connection keeps what the rule keeps.** -/
theorem SessionRule.connStep (h : SessionRule B x P) (ho : ∀ s ∈ o, s.conn = c ∧ P s) :
    RuleStep P c (connStep B last c o x.call) := by
  have hsweep := h.sweepConn x.env (sweepReach last x.env) ho
  unfold HttpDecoder.connStep
  simp only [Arrival.call_info]
  rw [show x.call.env = x.env from rfl]
  generalize CHandle.sweepConn B x.env (sweepReach last x.env) o = q at hsweep
  by_cases hc : x.packet.conn = c
  · rw [Arrival.call_packet, if_pos hc]
    have hconn : (CHandle.opened x.call (behavior x.packet) q.1).conn = x.packet.conn :=
      opened_conn x.call (behavior x.packet) fun s hs => (hsweep.ses s hs).1.trans hc.symm
    have hserve := h.serve hconn (h.opened fun s hs => (hsweep.ses s hs).2)
    rw [hc] at hserve
    exact ⟨hserve.ses, List.forall_mem_append.mpr ⟨hsweep.calls, hserve.calls⟩⟩
  · rw [Arrival.call_packet, if_neg hc]
    exact hsweep

/-- **So does a run.** -/
theorem connMachine_rule {xs : List Arrival} (h : ∀ x ∈ xs, SessionRule B x P)
    (ho : ∀ s ∈ o, s.conn = c ∧ P s) :
    RuleStep P c ((connMachine B last c).run o (xs.map Arrival.call)) := by
  induction xs generalizing o with
  | nil => exact ⟨ho, fun k hk => absurd hk List.not_mem_nil⟩
  | cons x xs ih =>
    obtain ⟨hx, hxs⟩ := List.forall_mem_cons.mp h
    have hstep : RuleStep P c (connStep B last c o x.call) := hx.connStep ho
    obtain ⟨hses, hcalls⟩ := ih hxs hstep.ses
    exact ⟨hses, List.forall_mem_append.mpr ⟨hstep.calls, hcalls⟩⟩

end Rule

/-- **Every session that a run hands to `Parse` is one that the rule keeps.** -/
theorem calls_rule {B : Boost} {P : CSession → Prop} (ses : Nat → CSession) (now : Int)
    {xs : List Arrival} (h : ∀ x ∈ xs, SessionRule B x P) :
    ∀ k ∈ ((handleMachine B).run (init ses now) (xs.map Arrival.call)).2, P k.ses := by
  intro k hk
  have hobs := List.mem_filterMap.mpr ⟨k, hk, show obsConn k.ses.conn k = _ from if_pos rfl⟩
  rw [(run_conn B (CSessionHashTable.wf_init ses) k.ses.conn _).2,
    show (init ses now).sesHash.session k.ses.conn = none from
      CSessionHashTable.session_init ses _] at hobs
  exact (connMachine_rule h fun s hs => absurd hs (Option.not_mem_none s)).calls _ hobs

/-! ## The server of a record -/

/-- A session with something in its request is one with a server on port 80. -/
structure WebSession (s : CSession) : Prop where
  /-- An end on port 80 is the server. -/
  server : OnPort 80 s.conn → s.server.port = 80
  /-- A session without such an end has no request. -/
  request : s.reqBuf.len = 0 ∨ OnPort 80 s.conn

/-- Only the ends and the length of the request count. -/
theorem WebSession.congr {s s' : CSession} (h : WebSession s) (hserver : s'.server = s.server)
    (hclient : s'.client = s.client) (hreq : s'.reqBuf = s.reqBuf) : WebSession s' := by
  have hconn : s'.conn = s.conn := CSession.conn_congr hserver hclient
  exact ⟨by rw [hconn, hserver]; exact h.server, by rw [hconn, hreq]; exact h.request⟩

theorem WebSession.parse {s : CSession} (h : WebSession s) (B : Boost) (e : ParseEnv) :
    WebSession (parse B e s).1 := by
  rw [parse_fst]
  exact ⟨h.server, Or.inl rfl⟩

theorem webSession_new (now : Int) (e : NewSession) (p : CFormatPacket) :
    WebSession (CSessionHashTable.newSession now e p (behavior p)) := by
  obtain ⟨hserver, hclient⟩ := newSession_behavior now e p
  constructor
  · rw [CSession.conn, hserver, hclient]
    by_cases hport : p.dst.port = 80
    · rw [if_pos hport]
      exact fun _ => hport
    · rw [if_neg hport, if_neg hport, onPort_mk]
      exact fun hon => hon.resolve_right hport
  · left
    unfold CSessionHashTable.newSession
    split <;> rfl

theorem WebSession.parseFull {s : CSession} (h : WebSession s) (B : Boost) (e : ParseEnv) :
    WebSession (CHandle.parseFull B e s).1 := by
  unfold CHandle.parseFull
  split
  · exact h.parse B e
  · exact h

theorem WebSession.stampRequest {s : CSession} (h : WebSession s) (p : CFormatPacket) :
    WebSession (CHandle.stampRequest p s) := by
  obtain ⟨hserver, hclient, -, hreq, -⟩ := stampRequest_fields p s
  exact h.congr hserver hclient hreq

theorem WebSession.stampResponse {s : CSession} (h : WebSession s) (p : CFormatPacket) :
    WebSession (CHandle.stampResponse p s) := by
  obtain ⟨hserver, hclient, -, hreq, -⟩ := stampResponse_fields p s
  exact h.congr hserver hclient hreq

/-- A request may get longer where there is an end on port 80. -/
theorem WebSession.appendRequest {s : CSession} (h : WebSession s) (hon : OnPort 80 s.conn)
    (e : Env) (p : CFormatPacket) : WebSession (CHandle.appendRequest e p s).2 :=
  ⟨h.server, Or.inr hon⟩

theorem WebSession.appendResponse {s : CSession} (h : WebSession s) (e : Env)
    (p : CFormatPacket) : WebSession (CHandle.appendResponse e p s).2 :=
  ⟨h.server, h.request⟩

/-- Filing a packet leaves such a session. -/
theorem WebSession.processData {s : CSession} (h : WebSession s) (B : Boost) {x : Arrival}
    (hconn : s.conn = x.packet.conn) :
    WebSession (CHandle.processData B x.env x.packet (behavior x.packet).matchWay s).ses := by
  have h₀ : WebSession (s.setSeq x.packet.seqNo x.packet.ackSeqNo) :=
    h.congr (s.setSeq_server _ _) (s.setSeq_client _ _) (s.setSeq_reqBuf _ _)
  have hconn₀ := (s.setSeq_conn x.packet.seqNo x.packet.ackSeqNo).trans hconn
  cases hto : x.packet.toServer with
  | true =>
    rw [processData_toServer B hto]
    generalize s.setSeq x.packet.seqNo x.packet.ackSeqNo = s₀ at h₀ hconn₀ ⊢
    refine ((h₀.parseFull B x.env.parse).stampRequest x.packet).appendRequest ?_ x.env x.packet
    -- the packet itself shows that there is an end on port 80
    rw [stampRequest_conn, (parseFull_conn B x.env.parse s₀).1, hconn₀, CFormatPacket.conn,
      onPort_mk]
    exact Or.inr (of_decide_eq_true hto)
  | false =>
    rw [processData_toClient B hto]
    generalize s.setSeq x.packet.seqNo x.packet.ackSeqNo = s₀ at h₀ hconn₀ ⊢
    exact (h₀.stampResponse x.packet).appendResponse x.env x.packet

theorem webSession_rule (B : Boost) (x : Arrival) : SessionRule B x WebSession where
  parse _ e h := h.parse B e
  refresh _ _ h := h.congr rfl rfl rfl
  create := webSession_new ..
  setSeq s n m h := h.congr (s.setSeq_server n m) (s.setSeq_client n m) (s.setSeq_reqBuf n m)
  file _ hconn h := h.processData B hconn

/-- **Every record has port 80 for its server.**  In every run from `Init`, whatever packets come
with whatever ports, whatever is swept and whether memory is granted or not: what is not between a
client and a server on port 80 is never reported. -/
theorem reported_server (B : Boost) (ses : Nat → CSession) (now : Int) (xs : List Arrival) :
    ∀ r ∈ sentBy ((handleMachine B).run (init ses now) (xs.map Arrival.call)).2,
      r.server.port = 80 := by
  intro r hr
  obtain ⟨k, hk, hsent⟩ := List.mem_filterMap.mp hr
  obtain ⟨-, e, hparse⟩ := cleanCall_run B ses now _ hk
  have hparsed : (parse B e k.ses).2 = some r := hparse.symm.trans hsent
  have hweb := calls_rule ses now (fun x _ => webSession_rule B x) k hk
  have hlen := (len_of_sent (hparsed ▸ Option.some_ne_none r)).1
  rw [(ends_of_sent hparsed).2]
  exact hweb.server (hweb.request.resolve_left hlen)

theorem reported_server_sample : ∃ r ∈ sentBy ((handleMachine Boost.decimal).run
    (init blankSes 0) ((sampleFull ++ [sampleFin]).map Arrival.call)).2, r.server.port = 80 := by
  have hsends : (sentBy ((handleMachine Boost.decimal).run (init blankSes 0)
      ((sampleFull ++ [sampleFin]).map Arrival.call)).2).isEmpty = false := by
    decide +kernel
  obtain ⟨r, hr⟩ := List.exists_mem_of_ne_nil _ (List.isEmpty_eq_false_iff.mp hsends)
  exact ⟨r, hr, reported_server Boost.decimal blankSes 0 _ r hr⟩

end HttpDecoder
