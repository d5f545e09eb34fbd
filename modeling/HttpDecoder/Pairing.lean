import HttpDecoder.Conservation

/-!
# Which request a response is reported with

`Parse` reports whatever the two buffers hold.  When a connection is captured from the
middle, or the request part of an exchange was thrown away, the bytes of a response wait in
`RspBuf` and are reported with the request that comes after them.

* `RequestFirst` — before the bytes to the client there were bytes to the server.
* `Ledger.Ordered` — so there were in everything a record was sent for.
* `paired_run` — **a response is reported with the request before it as long as no request
  joins the rest of a response**.
* `not_paired_midway` — a connection captured from the middle.
-/

namespace HttpDecoder

open CLib CHandle

/-! ## Requests before responses -/

/-- All bytes to the client come after the first byte to the server. -/
def RequestFirst (ps : List CFormatPacket) : Prop :=
  ∀ l p r, ps = l ++ p :: r → p.toServer = false → p.payload ≠ [] → requestOf l ≠ []

/-- Where nothing came to the client, nothing came too early. -/
theorem requestFirst_of_responseOf {ps : List CFormatPacket} (h : responseOf ps = []) :
    RequestFirst ps := by
  rintro l p r rfl hto hdata
  rw [← List.singleton_append, responseOf_append, responseOf_append, responseOf_single,
    if_neg (by simp [hto])] at h
  obtain ⟨-, hrest⟩ := List.append_eq_nil_iff.mp h
  exact absurd (List.append_eq_nil_iff.mp hrest).1 hdata

/-- A packet to the server may always follow, one to the client after bytes to the
server. -/
theorem RequestFirst.concat {ps : List CFormatPacket} {p : CFormatPacket} (h : RequestFirst ps)
    (hp : p.toServer = false → requestOf ps ≠ []) : RequestFirst (ps ++ [p]) := by
  intro l q r hsplit hq hdata
  rcases List.eq_nil_or_concat r with rfl | ⟨r, q', rfl⟩
  · obtain ⟨rfl, hlast⟩ := List.append_inj' hsplit rfl
    obtain rfl : p = q := by simpa using hlast
    exact hp hq
  · rw [List.concat_eq_append, ← List.cons_append, ← List.append_assoc] at hsplit
    obtain ⟨hps, -⟩ := List.append_inj' hsplit rfl
    exact h l q r hps hq hdata

/-- In what waits, requests come first, or there is no request. -/
def Tidy (ps : List CFormatPacket) : Prop := requestOf ps ≠ [] → RequestFirst ps

theorem tidy_nil : Tidy [] := fun h => absurd rfl h

/-- A packet keeps what waits tidy, unless it is the first one to the server after bytes to
the client. -/
theorem Tidy.concat {ps : List CFormatPacket} {p : CFormatPacket} (h : Tidy ps)
    (hp : p.toServer = true → requestOf ps = [] → responseOf ps = []) : Tidy (ps ++ [p]) := by
  intro hreq
  by_cases hps : requestOf ps = []
  · cases hto : p.toServer with
    | true =>
      refine (requestFirst_of_responseOf (hp hto hps)).concat fun hto' => ?_
      rw [hto] at hto'
      exact absurd hto' (by simp)
    | false =>
      rw [requestOf_append, hps, requestOf_single, if_neg (by simp [hto])] at hreq
      exact absurd rfl hreq
  · exact (h hps).concat fun _ => hps

/-! ## Every run -/

namespace Ledger

/-- What waits is tidy, and where a record was sent requests came first. -/
structure Ordered (l : Ledger) : Prop where
  since : Tidy l.since
  parsed : ∀ k ∈ l.parsed, k.sent ≠ none → RequestFirst k.filed

/-- If the packet goes to the server, it does not find the bytes of a response alone. -/
def Joins (x : Arrival) (l : Ledger) : Prop :=
  x.packet.toServer = true → ¬ (l.ses.reqBuf.len = 0 ∧ l.ses.rspBuf.len > 0)

variable {B : Boost}

theorem Ordered.parse {l : Ledger} (h : l.Ordered) (hb : l.Balanced) (e : ParseEnv) :
    (l.parse B e).Ordered := by
  refine ⟨tidy_nil, fun k hk hsent => ?_⟩
  rcases List.mem_append.mp hk with hk | hk
  · exact h.parsed k hk hsent
  · rw [List.mem_singleton.mp hk] at hsent ⊢
    refine h.since ?_
    rw [← hb.since.req]
    exact hb.wf.req.len_eq_zero_iff.not.mp (len_of_sent hsent).1

/-- A call of `Parse` for a finished exchange gets a request. -/
theorem processData_call_req (B : Boost) {x : Arrival} {s : CSession} (hs : s.WF) :
    ∀ k ∈ (processData B x.env x.packet (behavior x.packet).matchWay s).calls,
      k.1.reqBuf.contents ≠ [] := by
  have hs₀ := hs.setSeq x.packet.seqNo x.packet.ackSeqNo
  intro k hk
  cases hto : x.packet.toServer with
  | true =>
    rw [processData_toServer B hto] at hk
    unfold parseFull at hk
    by_cases hfull : (s.setSeq x.packet.seqNo x.packet.ackSeqNo).reqBuf.len > 0 ∧
        (s.setSeq x.packet.seqNo x.packet.ackSeqNo).rspBuf.len > 0
    · rw [if_pos hfull] at hk
      rw [List.mem_singleton.mp hk]
      exact hs₀.reqLen_pos_iff.mp hfull.1
    · rw [if_neg hfull] at hk
      exact absurd hk List.not_mem_nil
  | false =>
    rw [processData_toClient B hto] at hk
    exact absurd hk List.not_mem_nil

/-- Filing a packet keeps the order. -/
theorem Ordered.file {x : Arrival} {l : Ledger} (h : l.Ordered) (hb : l.Balanced)
    (he : x.env.Resets) (hcount : l.Countable B x) (hj : Joins x l) :
    (l.file B x.call (behavior x.packet)).Ordered := by
  obtain ⟨-, -, hcalls⟩ := processData_carries B hb.wf hb.since he hcount.req hcount.rsp
    hcount.kept
  have hempty : x.packet.toServer = true → requestOf l.since = [] → responseOf l.since = [] := by
    intro hto hreq
    rw [← hb.since.req, ← hb.wf.req.len_eq_zero_iff] at hreq
    rw [← hb.since.rsp, ← hb.wf.rsp.len_eq_zero_iff]
    have hnone := hj hto
    omega
  have hjoin : ∀ ps, Tidy ps → (x.packet.toServer = true → requestOf ps = [] →
      responseOf ps = []) → ∀ d : Bool, Tidy (ps ++ if d then [x.packet] else []) := by
    intro ps hps hp d
    cases d with
    | true => exact hps.concat hp
    | false =>
      rw [if_neg (by simp), List.append_nil]
      exact hps
  constructor
  · refine hjoin _ ?_ ?_ _
    · split
      · exact h.since
      · exact tidy_nil
    · split
      · exact hempty
      · exact fun _ _ => rfl
  · intro k hk hsent
    rcases List.mem_append.mp hk with hk | hk
    · exact h.parsed k hk hsent
    · obtain ⟨q, hq, rfl⟩ := List.mem_map.mp hk
      refine h.since ?_
      rw [← (hcalls q hq).req]
      exact processData_call_req B hb.wf q hq

/-- A call in which no request joins the rest of a response keeps the order. -/
theorem Ordered.keeps (B : Boost) {x : Arrival} (he : x.env.Resets) :
    Keeps B x (fun l => Countable B x l ∧ Joins x l) fun l => l.Balanced ∧ l.Ordered where
  sweep l a b h := ⟨(Balanced.keeps B he).sweep l a b h.1, h.2.parse h.1 (x.env.sweep a b)⟩
  close l h := ⟨(Balanced.keeps B he).close l h.1, h.2.parse h.1 x.env.parse⟩
  opened o h := by
    refine ⟨(Balanced.keeps B he).opened o fun l hl => (h l hl).1, ?_⟩
    cases o with
    | none => exact ⟨tidy_nil, fun k hk => absurd hk List.not_mem_nil⟩
    | some l => exact ⟨(h l rfl).2.since, (h l rfl).2.parsed⟩
  file l h hf := ⟨(Balanced.keeps B he).file l h.1 hf.1, h.2.file h.1 he hf.1 hf.2⟩

end Ledger

/-- A call of `Parse` got the payload of some packets, and every byte of the response came
after the first byte of the request. -/
structure Handed.Paired (k : Handed) : Prop where
  /-- What the buffers showed. -/
  carries : k.ses.Carries k.filed
  /-- In which order it came. -/
  first : RequestFirst k.filed

/-- **A response is reported with the request before it**, along every run from `Init` in
which no packet that is filed for the server finds the bytes of a response alone: so for
every record sent, by `Process` or by the sweep. -/
theorem paired_run (B : Boost) (ses : Nat → CSession) (now : Int) (c : Conn)
    {xs : List Arrival} (he : ∀ x ∈ xs, x.env.Resets)
    (hfiles : Book.FilesAlong B now c (fun x l => l.Countable B x ∧ l.Joins x) Book.empty xs) :
    let r := (handleMachine B).run (CHandle.init ses now) (xs.map Arrival.call)
    (booksOf B now c xs).handed.map Ledger.pair = r.2.filterMap (obsConn c) ∧
      ∀ k ∈ (booksOf B now c xs).handed, k.sent ≠ none → k.Paired := by
  intro r
  refine ⟨(booksOf_run B ses now c xs).2, fun k hk hsent => ?_⟩
  obtain ⟨l, hl, hkl⟩ := List.mem_flatMap.mp hk
  obtain ⟨hbal, hord⟩ := Book.keeps_run (fun x hx => Ledger.Ordered.keeps B (he x hx))
    (fun l hl => absurd hl (by simp [Book.ledgers, Book.empty])) hfiles l hl
  exact ⟨hbal.parsed k hkl, hord.parsed k hkl hsent⟩

/-! ## Two captures -/

instance decidableJoins (x : Arrival) (l : Ledger) : Decidable (l.Joins x) :=
  inferInstanceAs (Decidable (_ → _))

/-- One exchange, captured from its start. -/
theorem paired_run_sample :
    (booksOf Boost.decimal 0 s(⟨1, 1000⟩, ⟨2, 80⟩) (sampleFull ++ [sampleFin])).handed.map
        Ledger.pair = ((handleMachine Boost.decimal).run (CHandle.init blankSes 0)
          ((sampleFull ++ [sampleFin]).map Arrival.call)).2.filterMap
            (obsConn s(⟨1, 1000⟩, ⟨2, 80⟩)) ∧
      ∀ k ∈ (booksOf Boost.decimal 0 s(⟨1, 1000⟩, ⟨2, 80⟩) (sampleFull ++ [sampleFin])).handed,
        k.sent ≠ none → k.Paired := by
  have he : ∀ x ∈ sampleFull ++ [sampleFin], x.env.Resets := by
    intro x hx
    have hgrant : x.env.Granted := by
      revert x
      simp [sampleFull, sampleFin, arrival, Env.granted_granting]
    exact hgrant.toResets
  have hcount : payloadBytes ((sampleFull ++ [sampleFin]).map Arrival.call) < 2 ^ 32 := by
    simp [payloadBytes, sampleFull, sampleFin, payload_arrival]
  exact paired_run Boost.decimal blankSes 0 _ he (Book.filesAlong_and _
    (countable_of_payload Boost.decimal 0 _ Book.typed_empty (by simpa [Book.held, Book.empty] using hcount))
    (by decide +kernel))

/-- The capture starts with the rest of a response; a request and its close follow. -/
def midway : List Arrival :=
  [arrival ⟨2, 80⟩ ⟨1, 1000⟩ 5 [66] false, arrival ⟨1, 1000⟩ ⟨2, 80⟩ 6 [65] false,
    arrival ⟨1, 1000⟩ ⟨2, 80⟩ 7 [] true]

/-- The rest of the response is reported with the request after it. -/
theorem not_paired_midway : ∃ k ∈ (booksOf Boost.decimal 0 s(⟨1, 1000⟩, ⟨2, 80⟩) midway).handed,
    k.sent ≠ none ∧ ¬ k.Paired := by
  have hrun : (booksOf Boost.decimal 0 s(⟨1, 1000⟩, ⟨2, 80⟩) midway).handed.map (fun k =>
      (k.sent.isSome, k.filed.map fun p => (p.toServer, p.payload))) =
        [(true, [(false, [66]), (true, [65])])] := by
    decide +kernel
  obtain ⟨k, hk, hshape⟩ : ∃ k ∈ (booksOf Boost.decimal 0 s(⟨1, 1000⟩, ⟨2, 80⟩) midway).handed,
      (k.sent.isSome, k.filed.map fun p => (p.toServer, p.payload)) =
        (true, [(false, [66]), (true, [65])]) := by
    rw [← List.mem_map, hrun]
    exact List.mem_singleton.mpr rfl
  obtain ⟨hsent, hfiled⟩ := Prod.mk.inj hshape
  refine ⟨k, hk, Option.isSome_iff_ne_none.mp hsent, fun hpaired => ?_⟩
  obtain ⟨p, ps, hps, hp, -⟩ := List.map_eq_cons_iff.mp hfiled
  obtain ⟨hto, hdata⟩ := Prod.mk.inj hp
  exact hpaired.first [] p ps hps hto (by rw [hdata]; simp) rfl

end HttpDecoder
