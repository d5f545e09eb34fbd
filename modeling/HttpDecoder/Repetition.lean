import HttpDecoder.Interleaving
import HttpDecoder.Isolation
import HttpDecoder.Suppression

/-!
# Packets that come again

Captures are full of packets that come twice: retransmissions, segments seen on two ports of a
switch, files that overlap.  As long as no other packet of the connection comes in between, the
second one can be left out.

* `ComesAgain`, `serve_again` — the session a packet leaves refuses the packet.
* `Near`, `mapStep_near` — sessions that differ in their times only send the same.
* `Repeats` — a run with packets that come again; `run_repeats` — **it sends the same**.
* `repeated_reports` — **the files are the same**, and the sessions but for their times.
-/

namespace HttpDecoder

open CLib CHandle

/-! ## One packet -/

/-- A packet with the ends, the number, the flags and the length of one that came before. -/
structure ComesAgain (p q : CFormatPacket) : Prop where
  conn : q.conn = p.conn
  seqNo : q.seqNo = p.seqNo
  closes : q.closes = p.closes
  dataLen : q.dataLen = p.dataLen

/-- Nothing is sent for a session that was just created. -/
theorem sent_opened_none (B : Boost) (e : ParseEnv) (x : Call) (info : CSharedBehaviorInfo) :
    (parse B e (opened x info none)).2 = none := by
  have hlen : (opened x info none).reqBuf.len = 0 := by
    show (CSessionHashTable.newSession ..).reqBuf.len = 0
    unfold CSessionHashTable.newSession
    split <;> rfl
  by_contra hsent
  exact (len_of_sent hsent).1 hlen

theorem SameButTimes.refl (o : Option CSession) : SameButTimes o o := by
  cases o with
  | none => exact .none
  | some s => exact .some ⟨s.createdTime, s.refreshTime, rfl⟩

/-- What the packet leaves of its session, the packet finds when it comes again: it does nothing
to it, and sends nothing. -/
theorem serve_again (B : Boost) {x y : Call} (h : ComesAgain x.packet y.packet)
    (info info' : CSharedBehaviorInfo) (s : CSession) :
    let o := (serve B x info s).1
    let r := serve B y info' (opened y info' o)
    SameButTimes o r.1 ∧ ∀ k ∈ r.2, k.2 = none := by
  intro o r
  -- where the session stays, it refuses the packet
  have hkept : ∀ s', o = some s' → y.packet.closes = false →
      (y.packet.dataLen = 0 ∨ s'.seqNo = y.packet.seqNo) →
      SameButTimes o r.1 ∧ ∀ k ∈ r.2, k.2 = none := by
    intro s' ho hopen hdrop
    have hserve : r = (some (opened y info' (some s')), []) := by
      show serve B y info' (opened y info' o) = _
      rw [ho]
      exact serve_left hopen (hdrop.imp id fun hseq => decide_eq_true hseq)
    rw [hserve, ho]
    exact ⟨.some ⟨s'.createdTime, y.env.timeFind % 2 ^ 32, rfl⟩,
      fun k hk => absurd hk List.not_mem_nil⟩
  rcases served_cases x.packet s with hclose | ⟨hopen, hdrop⟩ | ⟨hopen, hdata, hnew⟩
  · have ho : o = none := congrArg Prod.fst (serve_closing hclose)
    have hserve : r = (none, [(opened y info' none,
        (parse B y.env.parse (opened y info' none)).2)]) := by
      show serve B y info' (opened y info' o) = _
      rw [ho]
      exact serve_closing (h.closes.trans hclose)
    rw [hserve, ho]
    refine ⟨.none, fun k hk => ?_⟩
    rw [List.mem_singleton.mp hk]
    exact sent_opened_none B y.env.parse y info'
  · refine hkept s (congrArg Prod.fst (serve_left hopen hdrop)) (h.closes.trans hopen) ?_
    rw [h.dataLen, h.seqNo]
    exact hdrop.imp id of_decide_eq_true
  · refine hkept _ (congrArg Prod.fst (serve_filed hopen hdata hnew)) (h.closes.trans hopen)
      (Or.inr ?_)
    rw [h.seqNo]
    exact Traced.processData_seqNo ..

/-! ## Times -/

section Times

variable (B : Boost) (i j : Int)

/-- A record does not tell the times. -/
theorem parse_setTimes_snd (e : ParseEnv) (s : CSession) :
    (parse B e (s.setTimes i j)).2 = (parse B e s).2 := by
  have hreq : (s.setTimes i j).reqBuf = s.reqBuf := rfl
  have hrsp : (s.setTimes i j).rspBuf = s.rspBuf := rfl
  have hresult : (s.setTimes i j).result = s.result := rfl
  unfold parse
  rw [hreq, hrsp, hresult]
  split
  · simp only
    split_ifs <;> rfl
  · rfl

theorem parseFull_setTimes_snd (e : ParseEnv) (s : CSession) :
    (parseFull B e (s.setTimes i j)).2.filterMap Prod.snd =
      (parseFull B e s).2.filterMap Prod.snd := by
  have hcond : ((s.setTimes i j).reqBuf.len > 0 ∧ (s.setTimes i j).rspBuf.len > 0) ↔
      (s.reqBuf.len > 0 ∧ s.rspBuf.len > 0) := Iff.rfl
  unfold parseFull
  by_cases hf : s.reqBuf.len > 0 ∧ s.rspBuf.len > 0
  · rw [if_pos (hcond.mpr hf), if_pos hf, List.filterMap_cons, List.filterMap_cons,
      parse_setTimes_snd]
  · rw [if_neg (hcond.not.mpr hf), if_neg hf]

theorem processData_setTimes_snd (e : Env) (p : CFormatPacket) (way : UInt32) (s : CSession) :
    (processData B e p way (s.setTimes i j)).calls.filterMap Prod.snd =
      (processData B e p way s).calls.filterMap Prod.snd := by
  have h₀ : ∀ n m, (s.setTimes i j).setSeq n m = (s.setSeq n m).setTimes i j := fun _ _ => rfl
  unfold processData
  rw [h₀]
  generalize s.setSeq p.seqNo p.ackSeqNo = s₀
  have hfull := parseFull_setTimes_snd B i j e.parse s₀
  split_ifs
  · rfl
  · exact hfull
  · rfl
  · rfl

/-- Serving a packet sends the same whatever the times. -/
theorem serve_setTimes_snd (x : Call) (info : CSharedBehaviorInfo) (s : CSession) :
    (serve B x info (s.setTimes i j)).2.filterMap Prod.snd =
      (serve B x info s).2.filterMap Prod.snd := by
  have hrep : repeated x.packet (s.setTimes i j) = repeated x.packet s := rfl
  rcases served_cases x.packet s with hclose | ⟨hopen, hdrop⟩ | ⟨hopen, hdata, hnew⟩
  · rw [serve_closing hclose, serve_closing hclose, List.filterMap_cons, List.filterMap_cons,
      parse_setTimes_snd]
  · rw [serve_left hopen hdrop, serve_left hopen (hrep ▸ hdrop)]
  · rw [serve_filed hopen hdata hnew, serve_filed hopen hdata (hrep ▸ hnew)]
    exact processData_setTimes_snd B i j x.env x.packet info.matchWay s

end Times

/-! ## Runs of the map -/

theorem SameButTimes.trans {o o' o'' : Option CSession} (h : SameButTimes o o')
    (h' : SameButTimes o' o'') : SameButTimes o o'' := by
  cases h with
  | none => exact h'
  | some h =>
    obtain ⟨i, j, rfl⟩ := h
    cases h' with
    | some h' =>
      obtain ⟨k, l, rfl⟩ := h'
      exact .some ⟨k, l, rfl⟩

/-- The sessions differ in their times only. -/
def Sessions.Near (m m' : Sessions) : Prop := ∀ c, SameButTimes (m c) (m' c)

theorem Sessions.Near.refl (m : Sessions) : m.Near m := fun _ => .refl _

theorem Sessions.Near.trans {m m' m'' : Sessions} (h : m.Near m') (h' : m'.Near m'') :
    m.Near m'' := fun c => (h c).trans (h' c)

/-- **One call keeps them so**, and sends the same. -/
theorem mapStep_near (B : Boost) {m m' : Sessions} (h : m.Near m') (x : Call) :
    (mapStep B m x).1.Near (mapStep B m' x).1 ∧
      (mapStep B m x).2.filterMap Prod.snd = (mapStep B m' x).2.filterMap Prod.snd := by
  cases hinfo : x.info with
  | none =>
    rw [mapStep_none _ hinfo, mapStep_none _ hinfo]
    exact ⟨h, rfl⟩
  | some info =>
    obtain ⟨hses, hout⟩ := mapStep_some (B := B) m hinfo
    obtain ⟨hses', hout'⟩ := mapStep_some (B := B) m' hinfo
    obtain ⟨i, j, hopened⟩ := opened_setTimes (.refl x) (.refl x) info (h x.packet.conn)
    rw [hses, hses', hout, hout', hopened, serve_setTimes_snd]
    refine ⟨fun c => ?_, rfl⟩
    by_cases hc : c = x.packet.conn
    · subst hc
      rw [Function.update_self, Function.update_self]
      exact (serve_setTimes B (.refl x) (.refl x) info _ i j).1
    · rw [Function.update_of_ne hc, Function.update_of_ne hc]
      exact h c

/-- Packets of other connections leave a session alone. -/
theorem mapMachine_other (B : Boost) {c : Conn} {xs : List Call}
    (hxs : ∀ x ∈ xs, x.packet.conn ≠ c) (m : Sessions) : ((mapMachine B).run m xs).1 c = m c :=
  (mapMachine B).run_invariant (I := fun m' => m' c = m c) (A := fun x => x.packet.conn ≠ c)
    (fun m' x hm hx => ((mapStep_apply B m' x).1 c (Ne.symm hx)).trans hm) xs m rfl hxs

/-- The second packet finds what the first one left, if the packets in between are of other
connections. -/
theorem mapStep_again (B : Boost) {x y : Arrival} (h : ComesAgain x.packet y.packet)
    {zs : List Call} (hzs : ∀ z ∈ zs, z.packet.conn ≠ x.packet.conn) (m : Sessions) :
    let m' := ((mapMachine B).run m (x.call :: zs)).1
    m'.Near (mapStep B m' y.call).1 ∧ (mapStep B m' y.call).2.filterMap Prod.snd = [] := by
  intro m'
  obtain ⟨hses, -⟩ := mapStep_some (B := B) m (Arrival.call_info x)
  obtain ⟨hses', hout'⟩ := mapStep_some (B := B) m' (Arrival.call_info y)
  have hself : m' y.packet.conn =
      (serve B x.call (behavior x.packet) (opened x.call (behavior x.packet)
        (m x.packet.conn))).1 := by
    rw [h.conn]
    refine (mapMachine_other B hzs _).trans ?_
    rw [show ((mapMachine B).step m x.call).1 = _ from hses]
    exact Function.update_self ..
  obtain ⟨hagain, hnone⟩ := serve_again B (x := x.call) (y := y.call) h (behavior x.packet)
    (behavior y.packet) (opened x.call (behavior x.packet) (m x.packet.conn))
  rw [hses', hout', Arrival.call_packet, hself]
  refine ⟨fun c => ?_, List.filterMap_eq_nil_iff.mpr hnone⟩
  by_cases hc : c = y.packet.conn
  · subst hc
    rw [Function.update_self, hself]
    exact hagain
  · rw [Function.update_of_ne hc]
    exact .refl _

/-! ## Whole runs -/

/-- The second run is the first one with packets that come again before any other packet of
their connection. -/
inductive Repeats (xs : List Arrival) : List Arrival → Prop
  | refl : Repeats xs xs
  /-- The packet `x` comes again, as `y`. -/
  | again {pre zs ys} {x y : Arrival} : Repeats xs (pre ++ x :: (zs ++ ys)) →
      ComesAgain x.packet y.packet → (∀ z ∈ zs, z.packet.conn ≠ x.packet.conn) →
      Repeats xs (pre ++ x :: (zs ++ y :: ys))

/-- Nothing gets lost. -/
theorem Repeats.subset {xs ys : List Arrival} (h : Repeats xs ys) : xs ⊆ ys := by
  induction h with
  | refl => exact fun _ hx => hx
  | again _ _ _ ih =>
    intro x hx
    have hmem := ih hx
    simp only [List.mem_append, List.mem_cons] at hmem ⊢
    tauto

namespace Repeats

variable {xs ys us vs : List Arrival}

theorem append_left (h : Repeats xs ys) (us : List Arrival) : Repeats (us ++ xs) (us ++ ys) := by
  induction h with
  | refl => exact .refl
  | again _ hagain hzs ih =>
    rw [← List.append_assoc] at ih ⊢
    exact .again ih hagain hzs

theorem append_right (h : Repeats xs ys) (us : List Arrival) : Repeats (xs ++ us) (ys ++ us) := by
  induction h with
  | refl => exact .refl
  | @again pre zs ys x y _ hagain hzs ih =>
    have hsplit : ∀ ys : List Arrival, pre ++ x :: (zs ++ ys) ++ us =
        pre ++ x :: (zs ++ (ys ++ us)) := by
      intro ys
      simp
    rw [hsplit] at ih ⊢
    exact .again ih hagain hzs

theorem trans (h : Repeats xs ys) (h' : Repeats ys us) : Repeats xs us := by
  induction h' with
  | refl => exact h
  | again _ hagain hzs ih => exact .again ih hagain hzs

/-- One run after the other. -/
theorem append (h : Repeats xs ys) (h' : Repeats us vs) : Repeats (xs ++ us) (ys ++ vs) :=
  (h.append_right us).trans (h'.append_left ys)

end Repeats

/-- **Packets that come again send nothing**, and leave every session as it was but for its
times. -/
theorem run_repeats (B : Boost) {xs ys : List Arrival} (h : Repeats xs ys) (m : Sessions) :
    ((mapMachine B).run m (xs.map Arrival.call)).1.Near
        ((mapMachine B).run m (ys.map Arrival.call)).1 ∧
      ((mapMachine B).run m (xs.map Arrival.call)).2.filterMap Prod.snd =
        ((mapMachine B).run m (ys.map Arrival.call)).2.filterMap Prod.snd := by
  induction h with
  | refl => exact ⟨.refl _, rfl⟩
  | @again pre zs ys x y _ hagain hzs ih =>
    obtain ⟨hnear, hsent⟩ := ih
    have hsplit : ∀ us : List Arrival, (pre ++ x :: (zs ++ us)).map Arrival.call =
        (pre.map Arrival.call ++ x.call :: zs.map Arrival.call) ++ us.map Arrival.call := by
      intro us
      simp
    rw [hsplit] at hnear hsent
    rw [hsplit, List.map_cons]
    have hzs' : ∀ z ∈ zs.map Arrival.call, z.packet.conn ≠ x.packet.conn := by
      intro z hz
      obtain ⟨z', hz', rfl⟩ := List.mem_map.mp hz
      exact hzs z' hz'
    have habsorb := mapStep_again B hagain hzs' ((mapMachine B).run m (pre.map Arrival.call)).1
    have hpass : ((mapMachine B).run m (pre.map Arrival.call ++ x.call ::
        zs.map Arrival.call)).1 = _ := congrArg Prod.fst ((mapMachine B).run_append ..)
    rw [← hpass] at habsorb
    obtain ⟨hnear', hsent'⟩ := (mapMachine B).run_absorb Prod.snd (R := Sessions.Near)
      (fun m m' z hm => mapStep_near B hm z) habsorb.1 habsorb.2 (ys.map Arrival.call)
    exact ⟨hnear.trans hnear', hsent.trans hsent'⟩

/-- What some calls send, as those of the map. -/
theorem sentBy_seen (ks : List ParseCall) :
    sentBy ks = (ks.map ParseCall.seen).filterMap Prod.snd := by
  rw [sentBy, List.filterMap_map]
  rfl

/-- So it is with the handle, while no sweep is due. -/
theorem handle_repeats (B : Boost) {g : CHandle} (hw : g.sesHash.WF) {xs ys : List Arrival}
    (h : Repeats xs ys)
    (hquiet : ∀ y ∈ ys, y.env.timeCheck - g.lastTimeOutCheck < timeoutCheckDur) :
    Sessions.Near ((handleMachine B).run g (xs.map Arrival.call)).1.sesHash.session
        ((handleMachine B).run g (ys.map Arrival.call)).1.sesHash.session ∧
      sentBy ((handleMachine B).run g (xs.map Arrival.call)).2 =
        sentBy ((handleMachine B).run g (ys.map Arrival.call)).2 := by
  have hmap : ∀ us : List Arrival, us ⊆ ys → ∀ z ∈ us.map Arrival.call,
      z.env.timeCheck - g.lastTimeOutCheck < timeoutCheckDur := by
    intro us hus z hz
    obtain ⟨u, hu, rfl⟩ := List.mem_map.mp hz
    exact hquiet u (hus hu)
  obtain ⟨hses, hcalls⟩ := run_map B hw _ (hmap xs h.subset)
  obtain ⟨hses', hcalls'⟩ := run_map B hw _ (hmap ys (List.Subset.refl ys))
  obtain ⟨hnear, hsent⟩ := run_repeats B h g.sesHash.session
  rw [hses, hses', sentBy_seen, sentBy_seen, hcalls, hcalls']
  exact ⟨hnear, hsent⟩

/-- **Packets that come again do not matter.**  Put repetitions of any packets, of those that
open and those that close a connection too, into a run of a reachable handle, anywhere before the
next packet of the connection, while no sweep is due: every file holds the same bytes in the end,
and the sessions are the same but for their times. -/
theorem repeated_reports (B : Boost) {g : CHandle} (hr : Reachable B g) {xs ys : List Arrival}
    (h : Repeats xs ys)
    (hquiet : ∀ y ∈ ys, y.env.timeCheck - g.lastTimeOutCheck < timeoutCheckDur) :
    let r := (handleMachine B).run g (xs.map Arrival.call)
    let r' := (handleMachine B).run g (ys.map Arrival.call)
    (∀ d, disk d r.2 = disk d r'.2) ∧
      ∀ c, SameButTimes (r.1.sesHash.session c) (r'.1.sesHash.session c) := by
  intro r r'
  obtain ⟨hnear, hsent⟩ := handle_repeats B hr.wf h hquiet
  refine ⟨fun d => ?_, hnear⟩
  unfold disk
  rw [show sentBy r.2 = sentBy r'.2 from hsent]

/-- A packet of another connection. -/
def otherClient : Arrival := arrival ⟨3, 1001⟩ ⟨2, 80⟩ 6 [71] false

/-- A segment comes again behind a packet of another connection, and so does the FIN. -/
theorem repeats_otherClient : Repeats [clientSegment, otherClient, sampleFin]
    [clientSegment, otherClient, clientSegment, sampleFin, sampleFin] := by
  have hagain : ∀ x : Arrival, ComesAgain x.packet x.packet := fun _ => ⟨rfl, rfl, rfl, rfl⟩
  have honce : Repeats [clientSegment, otherClient, sampleFin]
      [clientSegment, otherClient, clientSegment, sampleFin] := by
    show Repeats _ ([] ++ clientSegment :: ([otherClient] ++ clientSegment :: [sampleFin]))
    refine .again .refl (hagain clientSegment) fun z hz => ?_
    rw [List.mem_singleton.mp hz]
    show (segment ..).conn ≠ (segment ..).conn
    rw [segment_conn, segment_conn]
    decide
  show Repeats _ ([clientSegment, otherClient, clientSegment] ++ sampleFin ::
    ([] ++ sampleFin :: []))
  exact .again honce (hagain sampleFin) fun z hz => absurd hz List.not_mem_nil

theorem repeated_reports_otherClient :
    disk (fun _ => []) ((handleMachine Boost.decimal).run (init blankSes 0)
        ([clientSegment, otherClient, sampleFin].map Arrival.call)).2 =
      disk (fun _ => []) ((handleMachine Boost.decimal).run (init blankSes 0)
        ([clientSegment, otherClient, clientSegment, sampleFin, sampleFin].map
          Arrival.call)).2 ∧
    SameButTimes
      (((handleMachine Boost.decimal).run (init blankSes 0)
        ([clientSegment, otherClient, sampleFin].map Arrival.call)).1.sesHash.session
          otherClient.packet.conn)
      (((handleMachine Boost.decimal).run (init blankSes 0)
        ([clientSegment, otherClient, clientSegment, sampleFin, sampleFin].map
          Arrival.call)).1.sesHash.session otherClient.packet.conn) := by
  obtain ⟨hdisk, hses⟩ := repeated_reports Boost.decimal ⟨blankSes, 0, [], rfl⟩
    repeats_otherClient (by decide)
  exact ⟨hdisk _, hses _⟩

end HttpDecoder
