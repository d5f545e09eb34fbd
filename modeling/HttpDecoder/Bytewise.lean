import HttpDecoder.Conversations
import HttpDecoder.Language
import HttpDecoder.Lib.Lines
import HttpDecoder.MethodCode
import HttpDecoder.Teardown

/-!
# Where the segments are cut

TCP may cut what a side sends into segments in any way.  A connection as the bytes that are spoken
on it, and the exchanges as what a machine makes of them that reads one byte at a time.

* `Spoken`, `listener` — what is spoken on a connection: what gets past the test for repeated
  packets, byte by byte, and the closes.
* `pairing` — the exchanges of a stream; `ClientFirst` — in which the client speaks first.
* `runArrivals_bytewise` — **refinement**: the flow of the connection pairs its stream.
* `parsed_bytewise` — hence `Parse` is called on the exchanges of the stream, and the rest of it is
  what the session holds.
* `recut_reports` — **where the segments are cut does not change the report**.
-/

namespace HttpDecoder

open CLib CHandle

/-! ## Streams -/

/-- One thing that is spoken on a connection. -/
inductive Spoken where
  /-- A byte, to the server or to the client. -/
  | byte (toServer : Bool) (b : UInt8)
  /-- FIN or RST. -/
  | close
  deriving DecidableEq

/-- What gets past the tests of `Process`, on a connection of which the number of the packet filed
last is known, if there is one. -/
def listener : Machine (Option UInt32) Arrival Spoken where
  step o x :=
    if x.packet.closes then (none, [.close])
    else if o.getD x.env.new.seqNo = x.packet.seqNo ∨ x.packet.dataLen = 0 then
      (some (o.getD x.env.new.seqNo), [])
    else (some x.packet.seqNo, x.packet.payload.map (.byte x.packet.toServer))

theorem mem_arrivalsOf {c : Conn} {xs : List Arrival} {x : Arrival} :
    x ∈ arrivalsOf c xs ↔ x ∈ xs ∧ x.packet.conn = c := by
  rw [arrivalsOf, List.mem_filter, decide_eq_true_iff]

/-- What is spoken on a connection that begins. -/
def spoken (c : Conn) (xs : List Arrival) : List Spoken := (listener.run none (arrivalsOf c xs)).2

/-- The exchanges of a stream.  The state is the request and the response so far. -/
def pairing : Machine (Bytes × Bytes) Spoken (Bytes × Bytes) where
  step
    | (req, rsp), .byte true b =>
      if req ≠ [] ∧ rsp ≠ [] then (([b], []), [(req, rsp)]) else ((req ++ [b], rsp), [])
    | (req, rsp), .byte false b => ((req, rsp ++ [b]), [])
    | t, .close => (([], []), [t])

/-- The client speaks first, and first again after each close; `begun` if it has spoken. -/
def ClientFirst : Bool → List Spoken → Prop
  | _, [] => True
  | _, .byte true _ :: l => ClientFirst true l
  | begun, .byte false _ :: l => begun = true ∧ ClientFirst true l
  | _, .close :: l => ClientFirst false l

/-- The client has spoken, or nobody has. -/
def Begun (begun : Bool) (t : Bytes × Bytes) : Prop :=
  if begun then t.1 ≠ [] else t = ([], [])

section Pairing

variable {req rsp bs : Bytes} {l : List Spoken} {begun : Bool}

theorem pairing_response (req rsp bs : Bytes) :
    pairing.run (req, rsp) (bs.map (.byte false)) = ((req, rsp ++ bs), []) := by
  induction bs generalizing rsp with
  | nil => simp
  | cons b bs ih =>
    rw [List.map_cons, Machine.run_cons,
      show pairing.step (req, rsp) (.byte false b) = ((req, rsp ++ [b]), []) from rfl, ih]
    simp

/-- A request grows while there is no response. -/
theorem pairing_request (req bs : Bytes) :
    pairing.run (req, []) (bs.map (.byte true)) = ((req ++ bs, []), []) := by
  induction bs generalizing req with
  | nil => simp
  | cons b bs ih =>
    have hstep : pairing.step (req, []) (.byte true b) = ((req ++ [b], []), []) :=
      if_neg fun h => h.2 rfl
    rw [List.map_cons, Machine.run_cons, hstep, ih]
    simp

/-- With a response it is handed out, and the next one begins. -/
theorem pairing_next (hreq : req ≠ []) (hrsp : rsp ≠ []) (hbs : bs ≠ []) :
    pairing.run (req, rsp) (bs.map (.byte true)) = ((bs, []), [(req, rsp)]) := by
  obtain ⟨b, bs, rfl⟩ := List.exists_cons_of_ne_nil hbs
  have hstep : pairing.step (req, rsp) (.byte true b) = (([b], []), [(req, rsp)]) :=
    if_pos ⟨hreq, hrsp⟩
  rw [List.map_cons, Machine.run_cons, hstep, pairing_request]
  rfl

theorem clientFirst_request (hbs : bs ≠ []) :
    ClientFirst begun (bs.map (.byte true) ++ l) ↔ ClientFirst true l := by
  induction bs generalizing begun with
  | nil => exact absurd rfl hbs
  | cons b bs ih =>
    show ClientFirst true (bs.map (.byte true) ++ l) ↔ _
    cases bs with
    | nil => exact Iff.rfl
    | cons => exact ih (List.cons_ne_nil _ _)

theorem clientFirst_response (hbs : bs ≠ []) :
    ClientFirst begun (bs.map (.byte false) ++ l) ↔ begun = true ∧ ClientFirst true l := by
  induction bs generalizing begun with
  | nil => exact absurd rfl hbs
  | cons b bs ih =>
    show begun = true ∧ ClientFirst true (bs.map (.byte false) ++ l) ↔ _
    cases bs with
    | nil => exact Iff.rfl
    | cons => rw [ih (List.cons_ne_nil _ _)]; simp

end Pairing

/-! ## Flows and streams -/

/-- The two texts of a flow. -/
def Flow.texts (f : Flow) : Bytes × Bytes := (f.req, f.rsp)

/-- The texts held for a connection. -/
def heldTexts (o : Option Flow) : Bytes × Bytes := (o.map Flow.texts).getD ([], [])

/-- The two texts of a session. -/
def CSession.texts (s : CSession) : Bytes × Bytes := (s.reqBuf.contents, s.rspBuf.contents)

/-- The length of a payload is what an `int16_t` can be. -/
def Arrival.Short (x : Arrival) : Prop := -2 ^ 15 ≤ x.packet.dataLen ∧ x.packet.dataLen < 2 ^ 15

section Refinement

variable {c : Conn} {x : Arrival} {o : Option Flow} {begun : Bool} {l : List Spoken}

theorem opened_seqNo (x : Arrival) (o : Option Flow) :
    (Flow.opened x.call (behavior x.packet) o).seqNo =
      (o.map Flow.seqNo).getD x.env.new.seqNo := by
  cases o <;> rfl

theorem opened_texts (x : Arrival) (o : Option Flow) :
    (Flow.opened x.call (behavior x.packet) o).texts = heldTexts o := by
  cases o <;> rfl

/-- **A packet does to the flow what its bytes do to the stream**, if the client has begun. -/
theorem arrive_bytewise (hc : x.packet.conn = c) (hshort : x.Short)
    (hbegun : Begun begun (heldTexts o))
    (hfirst : ClientFirst begun ((listener.step (o.map Flow.seqNo) x).2 ++ l)) :
    (listener.step (o.map Flow.seqNo) x).1 = (arrive c o x).1.map Flow.seqNo ∧
      pairing.run (heldTexts o) (listener.step (o.map Flow.seqNo) x).2 =
        (heldTexts (arrive c o x).1, (arrive c o x).2.map Flow.texts) ∧
      ∃ begun', Begun begun' (heldTexts (arrive c o x).1) ∧ ClientFirst begun' l := by
  have hseq := opened_seqNo x o
  have htexts := opened_texts x o
  rw [arrive_eq hc]
  generalize Flow.opened x.call (behavior x.packet) o = f at hseq htexts ⊢
  rw [← htexts] at hbegun ⊢
  unfold listener at hfirst ⊢
  simp only [← hseq] at hfirst ⊢
  cases hclose : x.packet.closes with
  | true =>
    rw [Flow.serve_closes hclose]
    simp only [hclose, if_true] at hfirst ⊢
    exact ⟨rfl, rfl, false, rfl, hfirst⟩
  | false =>
    simp only [hclose, Bool.false_eq_true, if_false] at hfirst ⊢
    by_cases hdrop : f.seqNo = x.packet.seqNo ∨ x.packet.dataLen = 0
    · have hserve : f.serve x.packet (behavior x.packet) = (some f, []) := by
        rcases hdrop with hrep | hzero
        · exact Flow.serve_repeated hclose hrep
        · exact Flow.serve_empty hclose hzero
      rw [hserve]
      simp only [if_pos hdrop] at hfirst ⊢
      exact ⟨rfl, rfl, begun, hbegun, hfirst⟩
    · obtain ⟨hnew, hdata⟩ := not_or.mp hdrop
      have hpayload := payload_ne_of_int16 hshort.1 hshort.2 hdata
      rw [Flow.serve_data hclose hnew hdata]
      simp only [if_neg hdrop] at hfirst ⊢
      refine ⟨congrArg some (f.file_seqNo ..).symm, ?_⟩
      cases hto : x.packet.toServer with
      | true =>
        have hway := behavior_matchWay_of_eq (p := x.packet) (of_decide_eq_true hto)
        obtain ⟨hreq, hrsp, hout⟩ := f.file_request x.packet
        rw [hto, clientFirst_request hpayload] at hfirst
        rw [hway]
        have hheld : heldTexts (some (f.file x.packet c2sMatch).1) =
            (f.parseFull.1.req ++ x.packet.payload, f.parseFull.1.rsp) := Prod.ext hreq hrsp
        rw [hheld]
        refine ⟨?_, true, ?_, hfirst⟩
        · rw [show (f.file x.packet c2sMatch).2.map Flow.texts = f.pending from hout]
          -- before a request, a response would be handed out with the first byte of this segment
          by_cases hrsp₀ : f.rsp = []
          · have hfull : ¬ (f.req ≠ [] ∧ f.rsp ≠ []) := fun h => h.2 hrsp₀
            unfold Flow.parseFull Flow.pending Flow.texts
            rw [if_neg hfull, if_neg hfull, hrsp₀]
            exact pairing_request ..
          · have hreq₀ : f.req ≠ [] := by
              unfold Begun at hbegun
              split at hbegun
              · exact hbegun
              · exact absurd (congrArg Prod.snd hbegun) hrsp₀
            unfold Flow.parseFull Flow.pending Flow.texts
            rw [if_pos ⟨hreq₀, hrsp₀⟩, if_pos ⟨hreq₀, hrsp₀⟩]
            exact pairing_next hreq₀ hrsp₀ hpayload
        · exact List.append_ne_nil_of_right_ne_nil _ hpayload
      | false =>
        have hway := behavior_matchWay_of_ne (p := x.packet) (of_decide_eq_false hto)
        obtain ⟨hreq, hrsp, hout⟩ := f.file_response x.packet
        rw [hto, clientFirst_response hpayload] at hfirst
        rw [hway]
        have hheld : heldTexts (some (f.file x.packet s2cMatch).1) =
            (f.req, f.rsp ++ x.packet.payload) := Prod.ext hreq hrsp
        rw [hheld, hout]
        obtain ⟨rfl, hrest⟩ := hfirst
        exact ⟨pairing_response .., true, hbegun, hrest⟩

/-- **The flow of a connection pairs its stream.** -/
theorem runArrivals_bytewise {xs : List Arrival} : ∀ {o : Option Flow} {begun : Bool},
    (∀ x ∈ xs, x.packet.conn = c) → (∀ x ∈ xs, x.Short) → Begun begun (heldTexts o) →
    ClientFirst begun (listener.run (o.map Flow.seqNo) xs).2 →
    pairing.run (heldTexts o) (listener.run (o.map Flow.seqNo) xs).2 =
      (heldTexts (runArrivals c o xs).1, (runArrivals c o xs).2.map Flow.texts) := by
  induction xs with
  | nil => exact fun _ _ _ _ => rfl
  | cons x xs ih =>
    intro o begun hown hshort hbegun hfirst
    rw [Machine.run_cons] at hfirst ⊢
    obtain ⟨hseq, hpair, begun', hbegun', hfirst'⟩ := arrive_bytewise (hown x List.mem_cons_self)
      (hshort x List.mem_cons_self) hbegun hfirst
    rw [hseq] at hfirst' ⊢
    have hrest := ih (fun y hy => hown y (List.mem_cons_of_mem _ hy))
      (fun y hy => hshort y (List.mem_cons_of_mem _ hy)) hbegun' hfirst'
    rw [runArrivals_cons, Machine.run_append, hpair, hrest, List.map_append]

end Refinement

/-! ## Runs of the handle -/

/-- From the handle `g` on, `xs` bring the whole of connection `c`, with memory for all of it and
without a sweep, and its client speaks first. -/
structure Tap (B : Boost) (c : Conn) (g : CHandle) (xs : List Arrival) : Prop where
  reachable : Reachable B g
  absent : g.sesHash.session c = none
  /-- No sweep is due. -/
  quiet : ∀ x ∈ xs, x.env.timeCheck - g.lastTimeOutCheck < timeoutCheckDur
  /-- The allocator answers. -/
  granted : ∀ x ∈ xs, x.packet.conn = c → x.env.Granted
  /-- `m_DataLen` is an `int16_t`. -/
  short : ∀ x ∈ xs, x.packet.conn = c → x.Short
  /-- The bytes can be counted. -/
  small : payloadBytes (ofConn c (xs.map Arrival.call)) < 2 ^ 32
  clientFirst : ClientFirst false (spoken c xs)

section Runs

variable {B : Boost} {c : Conn} {g : CHandle} {xs : List Arrival}

theorem Tap.countable (h : Tap B c g xs) : Countable c none (arrivalsOf c xs) := by
  have hsmall := h.small
  rw [ofConn, List.filter_map] at hsmall
  exact fitsAlong_of_payload c ((Nat.zero_add _).trans_lt hsmall)

/-- The machine of the connection does what its flow does. -/
theorem Tap.refines (h : Tap B c g xs) :
    Refines (((handleMachine B).run g (xs.map Arrival.call)).1.sesHash.session c,
        ((handleMachine B).run g (xs.map Arrival.call)).2.filterMap (obsConn c))
      (runArrivals c none (arrivalsOf c xs)) := by
  have htrace : (xs.filter fun x => x.packet.conn = c) = arrivalsOf c xs := rfl
  have hrun := run_arrivals B h.reachable.wf htrace h.quiet
    (fun x hx => h.granted x (mem_arrivalsOf.mp hx).1 (mem_arrivalsOf.mp hx).2)
    (fun s hs => by rw [h.absent] at hs; cases hs) (by rw [h.absent]; exact h.countable)
  rw [h.absent] at hrun
  exact hrun

/-- The flow of the connection pairs its stream. -/
theorem Tap.pairs (h : Tap B c g xs) : pairing.run ([], []) (spoken c xs) =
    (heldTexts (runArrivals c none (arrivalsOf c xs)).1,
      (runArrivals c none (arrivalsOf c xs)).2.map Flow.texts) := by
  have hbegun : Begun false (heldTexts none) := rfl
  exact runArrivals_bytewise (fun x hx => (mem_arrivalsOf.mp hx).2)
    (fun x hx => h.short x (mem_arrivalsOf.mp hx).1 (mem_arrivalsOf.mp hx).2) hbegun h.clientFirst

/-- The calls of `Parse` for the connection work on well-formed buffers. -/
theorem Tap.calls_wf (h : Tap B c g xs) : ∀ k ∈
    ((handleMachine B).run g (xs.map Arrival.call)).2.filterMap (obsConn c), k.1.WF := by
  intro k hk
  have hquiet : ∀ y ∈ xs.map Arrival.call, y.env.timeCheck - g.lastTimeOutCheck <
      timeoutCheckDur := by
    intro y hy
    obtain ⟨x, hx, rfl⟩ := List.mem_map.mp hy
    exact h.quiet x hx
  have hown : ofConn c (xs.map Arrival.call) = (arrivalsOf c xs).map Arrival.call := by
    rw [ofConn, List.filter_map]
    rfl
  rw [(run_conn B h.reachable.wf c (xs.map Arrival.call)).2, h.absent,
    connMachine_ofConn B c hquiet, hown] at hk
  obtain ⟨pre, y, post, hsplit, hk⟩ := Machine.mem_run _ hk
  obtain ⟨pre, rest, hpre, rfl, hrest⟩ := List.map_eq_append_iff.mp hsplit
  obtain ⟨x, post, rfl, rfl, rfl⟩ := List.map_eq_cons_iff.mp hrest
  -- the packets before the call leave a well-formed session
  have hmem : ∀ z ∈ pre ++ x :: post, z ∈ xs ∧ z.packet.conn = c :=
    fun z hz => mem_arrivalsOf.mp (hpre ▸ hz)
  have hleft : ∀ z ∈ pre, z ∈ xs ∧ z.packet.conn = c :=
    fun z hz => hmem z (List.mem_append_left _ hz)
  have hfit := (countable_append.mp (hpre ▸ h.countable)).1
  have htrace : (pre.filter fun z => z.packet.conn = c) = pre :=
    List.filter_eq_self.mpr fun z hz => decide_eq_true (hleft z hz).2
  have hwf := (connMachine_arrivals B htrace (fun z hz => h.quiet z (hleft z hz).1)
    (fun z hz => h.granted z (hleft z hz).1 (hleft z hz).2)
    (fun s hs => absurd hs (Option.not_mem_none s)) hfit).wf
  obtain ⟨hx, hc⟩ := hmem x (by simp)
  exact connStep_calls_wf (h.granted x hx hc) hwf k hk

/-- The texts that `Parse` is called on. -/
theorem Tap.texts (h : Tap B c g xs) :
    ((((handleMachine B).run g (xs.map Arrival.call)).2.filterMap (obsConn c)).map
      fun k => k.1.texts) = (pairing.run ([], []) (spoken c xs)).2 := by
  rw [h.pairs, ← h.refines.calls, List.map_map]
  rfl

/-- **`Parse` is called on the exchanges of the stream.**  While no sweep is due and the client
speaks first, the texts that `Parse` is called on for a connection are the exchanges that its
stream makes byte by byte, and what its session holds is the rest of the stream. -/
theorem parsed_bytewise (h : Tap B c g xs) :
    let r := (handleMachine B).run g (xs.map Arrival.call)
    ((r.2.filterMap (obsConn c)).map fun k => k.1.texts) =
        (pairing.run ([], []) (spoken c xs)).2 ∧
      ((r.1.sesHash.session c).map CSession.texts).getD ([], []) =
        (pairing.run ([], []) (spoken c xs)).1 := by
  intro r
  refine ⟨h.texts, ?_⟩
  rw [h.pairs, ← h.refines.flow, heldTexts, Option.map_map]
  rfl

end Runs

/-! ## The same stream in other segments -/

/-- An exchange that is reported for what it says: it is not cut off where the byte behind the
buffer decides, and its method is one of the eight. -/
structure Legible (B : Boost) (t : Bytes × Bytes) : Prop where
  /-- It is not cut off. -/
  whole : ¬ Exposed B verUnknown t.1 t.2
  /-- What stands before the first space is the name of a method. -/
  method : ∀ token rest, t.1 = token ++ sp :: rest → sp ∉ token → IsMethod token

section Recut

variable {B : Boost}

/-- The value that `GetMethod` leaves undefined is not asked for. -/
theorem RequestText.of_isMethod {und method ver : UInt32} {bs url : Bytes} {header : HeaderMap}
    (h : RequestText B und bs method url ver header)
    (hmethod : ∀ token rest, bs = token ++ sp :: rest → sp ∉ token → IsMethod token)
    (und' : UInt32) : RequestText B und' bs method url ver header := by
  cases h with
  | short hshort => exact .short hshort
  | long hlong hsmall hline hlines hblank =>
    obtain ⟨version, hbytes, -⟩ := hline.text
    have hname := hmethod _ _ hbytes hline.method
    have hcode : ∀ u, getMethod u _ = methodCode _ :=
      fun u => (getMethod_eq u _).trans (if_pos hname)
    rw [hcode und, ← hcode und']
    exact .long hlong hsmall hline hlines hblank

/-- What is sent for a legible exchange is told by its texts and its ends. -/
theorem sent_of_texts {e e' : ParseEnv} {s s' : CSession} {r : Record} (hs : s.WF)
    (hclean : s.Clean) (hs' : s'.WF) (hclean' : s'.Clean)
    (hends : s'.client = s.client ∧ s'.server = s.server) (htexts : s'.texts = s.texts)
    (hlegible : Legible B s.texts) (h : (parse B e s).2 = some r) :
    (parse B e' s').2 = some r := by
  have hder := derives_of_sent hs hclean hlegible.whole h
  obtain ⟨hclient, hserver⟩ := hder.ends
  obtain ⟨hreq, hrsp⟩ := hder.contexts
  have hsame : s'.reqBuf.contents = s.reqBuf.contents ∧ s'.rspBuf.contents = s.rspBuf.contents :=
    ⟨congrArg Prod.fst htexts, congrArg Prod.snd htexts⟩
  have hmethod : ∀ token rest, r.requestContext = token ++ sp :: rest → sp ∉ token →
      IsMethod token := by
    rw [hreq]
    exact hlegible.method
  refine Derives.sent ?_ hs' hclean'
  exact ⟨⟨hclient.trans hends.1.symm, hserver.trans hends.2.symm⟩,
    ⟨hreq.trans hsame.1.symm, hrsp.trans hsame.2.symm⟩, hder.both,
    hder.request.of_isMethod hmethod e'.method, hder.response⟩

/-- Lists that agree in one respect, by which another is told, agree in it too. -/
theorem map_eq_of_map_eq {α β γ : Type*} {f : α → β} {g : α → γ} {l l' : List α}
    (h : l.map f = l'.map f) (hsame : ∀ a ∈ l, ∀ b ∈ l', f a = f b → g a = g b) :
    l.map g = l'.map g := by
  induction l generalizing l' with
  | nil => rw [List.map_eq_nil_iff.mp h.symm]
  | cons a l ih =>
    obtain ⟨b, l', rfl, hb, hl⟩ := List.map_eq_cons_iff.mp h.symm
    rw [List.map_cons, List.map_cons, hsame a List.mem_cons_self b List.mem_cons_self hb.symm,
      ih hl.symm fun a ha b hb => hsame a (List.mem_cons_of_mem _ ha) b (List.mem_cons_of_mem _ hb)]

variable {client server : Endpoint} {g g' : CHandle} {xs ys : List Arrival}

/-- The sessions handed to `Parse` have the ends of the connection. -/
theorem Tap.ends (h : Tap B s(client, server) g xs) (hport : server.port = 80)
    (hport' : client.port ≠ 80) : ∀ k ∈ ((handleMachine B).run g (xs.map Arrival.call)).2.filterMap
      (obsConn s(client, server)), k.1.client = client ∧ k.1.server = server := by
  intro k hk
  have hends : k.1.flow.ends = (server, client) := by
    have hconn : ∀ x ∈ arrivalsOf s(client, server) xs, x.packet.conn = s(client, server) :=
      fun x hx => (mem_arrivalsOf.mp hx).2
    refine runArrivals_ends hport hport' hconn (fun f hf => absurd hf (Option.not_mem_none f)) _ ?_
    exact h.refines.calls ▸ List.mem_map_of_mem hk
  exact ⟨congrArg Prod.snd hends, congrArg Prod.fst hends⟩

/-- The calls of `Parse` for the connection are clean. -/
theorem Tap.clean {c : Conn} (h : Tap B c g xs) :
    ∀ k ∈ ((handleMachine B).run g (xs.map Arrival.call)).2.filterMap (obsConn c),
      CleanCall B k := by
  intro k hk
  obtain ⟨k', hk', hobs⟩ := List.mem_filterMap.mp hk
  have hseen : k'.seen = k := by
    unfold obsConn at hobs
    split at hobs
    · exact Option.some.inj hobs
    · cases hobs
  exact hseen ▸ h.reachable.cleanCall _ k' hk'

/-- The same stream is sent in the same records. -/
theorem Tap.sent_eq (h : Tap B s(client, server) g xs) (h' : Tap B s(client, server) g' ys)
    (hport : server.port = 80) (hport' : client.port ≠ 80)
    (hspoken : spoken s(client, server) xs = spoken s(client, server) ys)
    (hlegible : ∀ t ∈ (pairing.run ([], []) (spoken s(client, server) xs)).2, Legible B t) :
    (((handleMachine B).run g (xs.map Arrival.call)).2.filterMap
        (obsConn s(client, server))).map Prod.snd =
      (((handleMachine B).run g' (ys.map Arrival.call)).2.filterMap
        (obsConn s(client, server))).map Prod.snd := by
  refine map_eq_of_map_eq (f := fun k => k.1.texts) ?_ fun k hk k' hk' heq => ?_
  · rw [h.texts, h'.texts, hspoken]
  · obtain ⟨hclean, e, he⟩ := h.clean k hk
    obtain ⟨hclean', e', he'⟩ := h'.clean k' hk'
    obtain ⟨hclient, hserver⟩ := h.ends hport hport' k hk
    obtain ⟨hclient', hserver'⟩ := h'.ends hport hport' k' hk'
    have hread : Legible B k.1.texts := hlegible _ (h.texts ▸ List.mem_map_of_mem hk)
    rw [he, he']
    refine Option.ext fun r => ⟨fun hr => ?_, fun hr => ?_⟩
    · exact sent_of_texts (h.calls_wf k hk) hclean (h'.calls_wf k' hk') hclean'
        ⟨hclient'.trans hclient.symm, hserver'.trans hserver.symm⟩ heq.symm hread hr
    · exact sent_of_texts (h'.calls_wf k' hk') hclean' (h.calls_wf k hk) hclean
        ⟨hclient.trans hclient'.symm, hserver.trans hserver'.symm⟩ heq (heq ▸ hread) hr

/-- **Where the segments are cut does not change the report.**  Two runs, from reachable handles
without a session of a connection to port 80, bring the same stream of this connection in any
segments, with any repetitions of the last segment and empty segments, among any packets of
connections that do not use the client's port.  Then the file of this port gets the same bytes,
if the client speaks first and the exchanges are legible. -/
theorem recut_reports (h : Tap B s(client, server) g xs) (h' : Tap B s(client, server) g' ys)
    (hport : server.port = 80) (hport' : client.port ≠ 80)
    (hown : ∀ x ∈ xs ++ ys, OnPort client.port x.packet.conn → x.packet.conn = s(client, server))
    (hspoken : spoken s(client, server) xs = spoken s(client, server) ys)
    (hlegible : ∀ t ∈ (pairing.run ([], []) (spoken s(client, server) xs)).2, Legible B t)
    (d : Files) :
    disk d ((handleMachine B).run g (xs.map Arrival.call)).2 (fileName client.port) =
      disk d ((handleMachine B).run g' (ys.map Arrival.call)).2 (fileName client.port) := by
  have hsent := h.sent_eq h' hport hport' hspoken hlegible
  have hrecords : ∀ {l l' : List (CSession × Option Record)}, l.map Prod.snd = l'.map Prod.snd →
      recordsTo client.port l = recordsTo client.port l' := by
    intro l l' hl
    have hid : ∀ l : List (CSession × Option Record),
        l.filterMap Prod.snd = (l.map Prod.snd).filterMap id := by
      intro l
      rw [List.filterMap_map]
      rfl
    rw [recordsTo, recordsTo, hid, hid, hl]
  rw [disk_of_conn h.reachable (onPort_calls h.reachable
      (fun x hx => hown x (List.mem_append_left _ hx)) h.quiet),
    disk_of_conn h'.reachable (onPort_calls h'.reachable
      (fun x hx => hown x (List.mem_append_right _ hx)) h'.quiet),
    hrecords hsent]

end Recut

/-! ## One page in two ways -/

/-- The request and the response in one segment each. -/
def onePiece : List Arrival :=
  [arrival ⟨1, 1000⟩ ⟨2, 80⟩ 6 wholeRequest false, arrival ⟨2, 80⟩ ⟨1, 1000⟩ 9 wholeResponse false,
    arrival ⟨1, 1000⟩ ⟨2, 80⟩ 7 [] true]

/-- In two each, the first one twice. -/
def twoPieces : List Arrival :=
  [arrival ⟨1, 1000⟩ ⟨2, 80⟩ 6 (wholeRequest.take 5) false,
    arrival ⟨1, 1000⟩ ⟨2, 80⟩ 6 (wholeRequest.take 5) false,
    arrival ⟨1, 1000⟩ ⟨2, 80⟩ 11 (wholeRequest.drop 5) false,
    arrival ⟨2, 80⟩ ⟨1, 1000⟩ 9 (wholeResponse.take 16) false,
    arrival ⟨2, 80⟩ ⟨1, 1000⟩ 25 (wholeResponse.drop 16) false,
    arrival ⟨1, 1000⟩ ⟨2, 80⟩ 7 [] true]

/-- What is spoken in both. -/
def pageSpoken : List Spoken :=
  wholeRequest.map (.byte true) ++ (wholeResponse.map (.byte false) ++ [.close])

theorem spoken_pieces : spoken s(⟨1, 1000⟩, ⟨2, 80⟩) onePiece = pageSpoken ∧
    spoken s(⟨1, 1000⟩, ⟨2, 80⟩) twoPieces = pageSpoken := by
  decide +kernel

theorem clientFirst_page : ClientFirst false pageSpoken := by
  unfold pageSpoken
  rw [clientFirst_request (by decide), clientFirst_response (by decide)]
  exact ⟨rfl, trivial⟩

theorem pairing_page :
    pairing.run ([], []) pageSpoken = (([], []), [(wholeRequest, wholeResponse)]) := by
  unfold pageSpoken
  rw [Machine.run_append, Machine.run_append, pairing_request, pairing_response]
  rfl

theorem legible_page : Legible Boost.decimal (wholeRequest, wholeResponse) where
  whole := by
    have hsends : (parse Boost.decimal ⟨0, SesAlloc.granting⟩ (freshSession.withBufs
        (bufBehind wholeRequest 0) (bufBehind wholeResponse 0))).2.isSome = true := by
      decide +kernel
    exact not_exposed_of_sent hsends
  method token rest h hsp := by
    have hget : wholeRequest = ascii ['G', 'E', 'T'] ++ sp :: wholeRequest.drop 4 := by decide
    have hcut : Lines.FirstCut sp wholeRequest (ascii ['G', 'E', 'T']) (wholeRequest.drop 4) :=
      ⟨hget, by decide⟩
    obtain ⟨rfl, -⟩ := Lines.FirstCut.unique ⟨h, hsp⟩ hcut
    decide

/-- Two connections that carry the page. -/
theorem tap_pieces : Tap Boost.decimal s(⟨1, 1000⟩, ⟨2, 80⟩) (init blankSes 0) onePiece ∧
    Tap Boost.decimal s(⟨1, 1000⟩, ⟨2, 80⟩) (init blankSes 0) twoPieces := by
  have htap : ∀ xs : List Arrival, (∀ x ∈ xs, x.env = Env.granting 0 ∧ x.Short) →
      payloadBytes (xs.map Arrival.call) < 2 ^ 32 →
      spoken s(⟨1, 1000⟩, ⟨2, 80⟩) xs = pageSpoken →
      Tap Boost.decimal s(⟨1, 1000⟩, ⟨2, 80⟩) (init blankSes 0) xs := by
    intro xs hxs hcount hspoken
    refine ⟨⟨blankSes, 0, [], rfl⟩, CSessionHashTable.session_init .., fun x hx => ?_,
      fun x hx _ => ?_, fun x hx _ => (hxs x hx).2,
      (payloadBytes_le List.filter_sublist).trans_lt hcount, hspoken ▸ clientFirst_page⟩
    · rw [(hxs x hx).1]
      exact (by decide : (0 : Int) - 0 < timeoutCheckDur)
    · rw [(hxs x hx).1]
      exact Env.granted_granting 0
  have hshort : ∀ x ∈ onePiece ++ twoPieces, x.Short := by
    unfold Arrival.Short
    decide +kernel
  refine ⟨htap _ (fun x hx => ⟨?_, hshort x (List.mem_append_left _ hx)⟩) (by decide +kernel)
    spoken_pieces.1, htap _ (fun x hx => ⟨?_, hshort x (List.mem_append_right _ hx)⟩)
    (by decide +kernel) spoken_pieces.2⟩
  · simp only [onePiece, List.mem_cons, List.not_mem_nil, or_false] at hx
    rcases hx with rfl | rfl | rfl <;> rfl
  · simp only [twoPieces, List.mem_cons, List.not_mem_nil, or_false] at hx
    rcases hx with rfl | rfl | rfl | rfl | rfl | rfl <;> rfl

theorem parsed_bytewise_pieces :
    let r := (handleMachine Boost.decimal).run (init blankSes 0) (twoPieces.map Arrival.call)
    ((r.2.filterMap (obsConn s(⟨1, 1000⟩, ⟨2, 80⟩))).map fun k => k.1.texts) =
        [(wholeRequest, wholeResponse)] ∧
      ((r.1.sesHash.session s(⟨1, 1000⟩, ⟨2, 80⟩)).map CSession.texts).getD ([], []) =
        ([], []) := by
  have hrun := parsed_bytewise tap_pieces.2
  rwa [spoken_pieces.2, pairing_page] at hrun

theorem recut_reports_pieces :
    disk (fun _ => []) ((handleMachine Boost.decimal).run (init blankSes 0)
        (onePiece.map Arrival.call)).2 (fileName 1000) =
      disk (fun _ => []) ((handleMachine Boost.decimal).run (init blankSes 0)
        (twoPieces.map Arrival.call)).2 (fileName 1000) := by
  have hconn : ∀ x ∈ onePiece ++ twoPieces, x.packet.conn = s(⟨1, 1000⟩, ⟨2, 80⟩) := by
    decide +kernel
  refine recut_reports tap_pieces.1 tap_pieces.2 rfl (by decide) (fun x hx _ => hconn x hx)
    (spoken_pieces.1.trans spoken_pieces.2.symm) (fun t ht => ?_) _
  rw [spoken_pieces.1, pairing_page] at ht
  exact List.mem_singleton.mp ht ▸ legible_page

end HttpDecoder
