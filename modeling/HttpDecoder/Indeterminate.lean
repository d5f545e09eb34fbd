import HttpDecoder.Unreported
import HttpDecoder.Expiry

/-!
# What the memory of a new session held

No constructor sets `SeqNo` and `AckSeqNo`.  Two runs are compared that differ in nothing
but what that memory held when the sessions were created.

* `CSession.SameButSeq`, `CSessionHashTable.SameButSeq` — what the two runs have in common.
* `process_sameButSeq` — one packet keeps it, if the test for repeated packets says the
  same in both runs.
* `SameBehavior` — both runs show the same contents after each packet and call `Parse` in
  the same order with the same contents.
* `FirstAppended` — the first data segment of every session is appended.
* `sameBehavior_iff` — **when they do, and it is**.
-/

namespace HttpDecoder

open CLib CHandle

/-! ## Sessions that differ in their sequence numbers -/

/-- The sessions agree in everything but `SeqNo` and `AckSeqNo`. -/
def CSession.SameButSeq (s s' : CSession) : Prop := ∃ n m, s' = s.setSeq n m

namespace CSession.SameButSeq

variable {s s' : CSession}

theorem refl (s : CSession) : s.SameButSeq s := ⟨s.seqNo, s.ackSeqNo, rfl⟩

theorem conn (h : s.SameButSeq s') : s'.conn = s.conn := by
  obtain ⟨n, m, rfl⟩ := h
  rfl

theorem refreshTime (h : s.SameButSeq s') : s'.refreshTime = s.refreshTime := by
  obtain ⟨n, m, rfl⟩ := h
  rfl

theorem reqBuf (h : s.SameButSeq s') : s'.reqBuf = s.reqBuf := by
  obtain ⟨n, m, rfl⟩ := h
  rfl

theorem rspBuf (h : s.SameButSeq s') : s'.rspBuf = s.rspBuf := by
  obtain ⟨n, m, rfl⟩ := h
  rfl

theorem roles (h : s.SameButSeq s') : s'.server = s.server ∧ s'.client = s.client := by
  obtain ⟨n, m, rfl⟩ := h
  exact ⟨rfl, rfl⟩

/-- Refreshing keeps it. -/
theorem refresh (h : s.SameButSeq s') (time : Int) :
    ({ s with refreshTime := time } : CSession).SameButSeq { s' with refreshTime := time } := by
  obtain ⟨n, m, rfl⟩ := h
  exact ⟨n, m, rfl⟩

/-- So does `Parse`. -/
theorem parse (h : s.SameButSeq s') (B : Boost) (e : ParseEnv) :
    (HttpDecoder.parse B e s).1.SameButSeq (HttpDecoder.parse B e s').1 := by
  obtain ⟨n, m, rfl⟩ := h
  rw [parse_fst, parse_fst]
  exact ⟨n, m, rfl⟩

theorem sweepParses (h : s.SameButSeq s') (tsNow : Int) :
    CHandle.sweepParses tsNow s' = CHandle.sweepParses tsNow s := by
  unfold CHandle.sweepParses
  rw [h.reqBuf, h.rspBuf, h.refreshTime]

theorem sweepExpires (h : s.SameButSeq s') (tsNow : Int) :
    CHandle.sweepExpires tsNow s' = CHandle.sweepExpires tsNow s :=
  sweepExpires_congr h.refreshTime

theorem sweptSes (h : s.SameButSeq s') (B : Boost) {e e' : Env}
    (htime : e'.timeCheck = e.timeCheck) (hsweep : e'.sweep = e.sweep) :
    (CHandle.sweptSes B e s).SameButSeq (CHandle.sweptSes B e' s') := by
  unfold CHandle.sweptSes
  rw [htime, hsweep, h.sweepParses, h.roles.1, h.roles.2]
  split
  · exact h.parse B _
  · exact h

/-- Filing a packet overwrites what differs. -/
theorem processData (h : s.SameButSeq s') (B : Boost) (e : Env) (p : CFormatPacket)
    (way : UInt32) : CHandle.processData B e p way s' = CHandle.processData B e p way s := by
  obtain ⟨n, m, rfl⟩ := h
  have hsame : (s.setSeq n m).setSeq p.seqNo p.ackSeqNo = s.setSeq p.seqNo p.ackSeqNo := rfl
  unfold CHandle.processData
  rw [hsame]

end CSession.SameButSeq

/-- What a call of `Parse` gets: the connection of the session, the bytes of `ReqBuf` and
the bytes of `RspBuf`. -/
def ParseCall.shown (k : ParseCall) : Conn × Bytes × Bytes :=
  (k.ses.conn, k.ses.reqBuf.contents, k.ses.rspBuf.contents)

theorem CSession.SameButSeq.shown {s s' : CSession} (h : s.SameButSeq s') (a : Nat)
    (r r' : Option Record) : (⟨a, s', r'⟩ : ParseCall).shown = (⟨a, s, r⟩ : ParseCall).shown := by
  show (s'.conn, s'.reqBuf.contents, s'.rspBuf.contents) =
    (s.conn, s.reqBuf.contents, s.rspBuf.contents)
  rw [h.conn, h.reqBuf, h.rspBuf]

/-! ## Tables -/

/-- The tables hold the same pointers to sessions that differ in their sequence numbers
only. -/
structure CSessionHashTable.SameButSeq (t t' : CSessionHashTable) : Prop where
  next : t'.next = t.next
  cseshash : t'.cseshash = t.cseshash
  ses : ∀ a, (t.ses a).SameButSeq (t'.ses a)

namespace CSessionHashTable.SameButSeq

variable {t t' : CSessionHashTable}

theorem key (h : t.SameButSeq t') : t'.key = t.key := by
  funext a
  exact (h.ses a).conn

theorem lookup (h : t.SameButSeq t') (c : Conn) : t'.lookup c = t.lookup c := by
  unfold CSessionHashTable.lookup
  rw [h.key, h.cseshash]

theorem wf (h : t.SameButSeq t') (hw : t.WF) : t'.WF where
  lt_next := by
    rw [h.next, h.cseshash]
    exact hw.lt_next
  placed := by
    rw [h.key, h.cseshash]
    exact hw.placed
  unique := by
    rw [h.key, h.cseshash]
    exact hw.unique

/-- The connections have sessions in the one where they have in the other. -/
theorem session (h : t.SameButSeq t') (c : Conn) :
    Option.Rel CSession.SameButSeq (t.session c) (t'.session c) := by
  unfold CSessionHashTable.session
  rw [h.lookup]
  cases t.lookup c with
  | none => exact Option.Rel.none
  | some a => exact Option.Rel.some (h.ses a)

/-- Storing such sessions through the same pointer keeps it. -/
theorem set (h : t.SameButSeq t') (a : Nat) {s s' : CSession} (hs : s.SameButSeq s') :
    (t.set a s).SameButSeq (t'.set a s') where
  next := h.next
  cseshash := h.cseshash
  ses b := by
    by_cases hb : b = a
    · rw [hb, set_ses_self, set_ses_self]
      exact hs
    · rw [set_ses_of_ne hb, set_ses_of_ne hb]
      exact h.ses b

/-- So does creating such sessions. -/
theorem create (h : t.SameButSeq t') (now : Int) {e e' : NewSession} (p : CFormatPacket)
    (info : CSharedBehaviorInfo)
    (hnew : (newSession now e p info).SameButSeq (newSession now e' p info)) :
    (t.create now e p info).1.SameButSeq (t'.create now e' p info).1 ∧
      (t'.create now e' p info).2 = (t.create now e p info).2 := by
  refine ⟨⟨?_, ?_, fun a => ?_⟩, ?_⟩
  · exact congrArg (· + 1) h.next
  · funext i
    rw [create_cseshash, create_cseshash, h.cseshash, h.next]
  · by_cases ha : a = t.next
    · rw [ha, create_ses_self, ← h.next, create_ses_self]
      exact hnew
    · rw [create_ses_of_ne _ _ _ _ ha, create_ses_of_ne _ _ _ _ (h.next.symm ▸ ha)]
      exact h.ses a
  · exact h.next

/-- So does removing a connection. -/
theorem remove (h : t.SameButSeq t') (srcIp dstIp : UInt32) (srcPort dstPort : UInt16) :
    (t.remove srcIp dstIp srcPort dstPort).SameButSeq (t'.remove srcIp dstIp srcPort dstPort) where
  next := h.next
  cseshash := by
    have hsame : (fun a => isSameSes srcIp dstIp srcPort dstPort (t'.ses a)) =
        fun a => isSameSes srcIp dstIp srcPort dstPort (t.ses a) := by
      funext a
      rw [isSameSes_eq_decide, isSameSes_eq_decide, (h.ses a).conn]
    unfold CSessionHashTable.remove
    simp only [hsame, h.cseshash]
  ses := h.ses

/-- So does sweeping. -/
theorem swept (h : t.SameButSeq t') {B : Boost} {e e' : Env} (htime : e'.timeCheck = e.timeCheck)
    (hsweep : e'.sweep = e.sweep) {u u' : CSessionHashTable} {calls calls' : List ParseCall}
    {lo n : Nat} (hs : Swept B e t u calls lo n) (hs' : Swept B e' t' u' calls' lo n) :
    u.SameButSeq u' ∧ calls'.map ParseCall.shown = calls.map ParseCall.shown := by
  refine ⟨⟨?_, ?_, fun a => ?_⟩, ?_⟩
  · rw [hs'.next, hs.next, h.next]
  · funext i
    by_cases hi : lo ≤ i.toNat ∧ i.toNat < lo + n
    · rw [hs'.bucket_in i hi.1 hi.2, hs.bucket_in i hi.1 hi.2, h.cseshash]
      exact List.filter_congr fun a _ => by rw [htime, (h.ses a).sweepExpires]
    · rw [hs'.bucket_out i hi, hs.bucket_out i hi, h.cseshash]
  · by_cases ha : ∃ i : UInt16, lo ≤ i.toNat ∧ i.toNat < lo + n ∧ a ∈ t.cseshash i
    · obtain ⟨i, hlo, hhi, ha⟩ := ha
      rw [hs.ses_in i hlo hhi a ha, hs'.ses_in i hlo hhi a (by rwa [h.cseshash])]
      exact (h.ses a).sweptSes B htime hsweep
    · have hout : ∀ i : UInt16, lo ≤ i.toNat → i.toNat < lo + n → a ∉ t.cseshash i :=
        fun i hlo hhi hai => ha ⟨i, hlo, hhi, hai⟩
      rw [hs.ses_out a hout, hs'.ses_out a (by rwa [h.cseshash])]
      exact h.ses a
  · have hone : ∀ a, (sweptCalls B e' a (t'.ses a)).map ParseCall.shown =
        (sweptCalls B e a (t.ses a)).map ParseCall.shown := by
      intro a
      unfold sweptCalls
      rw [htime, (h.ses a).sweepParses]
      split
      · exact congrArg (fun k => [k]) ((h.ses a).shown a _ _)
      · rfl
    rw [hs.calls_eq, hs'.calls_eq, h.cseshash, List.map_flatMap, List.map_flatMap]
    refine List.flatMap_congr fun i _ => ?_
    rw [List.map_flatMap, List.map_flatMap]
    exact List.flatMap_congr fun a _ => hone a

end CSessionHashTable.SameButSeq

/-! ## One packet -/

/-- The packet arrives with other values in the memory of a new session. -/
def Arrival.withMemory (x : Arrival) (seqNo ackSeqNo : UInt32) : Arrival where
  packet := x.packet
  env := { x.env with new := { x.env.new with seqNo := seqNo, ackSeqNo := ackSeqNo } }

@[simp] theorem Arrival.withMemory_packet (x : Arrival) (n m : UInt32) :
    (x.withMemory n m).packet = x.packet := rfl

@[simp] theorem Arrival.withMemory_parse (x : Arrival) (n m : UInt32) :
    (x.withMemory n m).env.parse = x.env.parse := rfl

/-- Filing a packet does not look at that memory. -/
theorem processData_withMemory (B : Boost) (x : Arrival) (n m : UInt32) (way : UInt32)
    (s : CSession) : processData B (x.withMemory n m).env x.packet way s =
      processData B x.env x.packet way s := rfl

/-- The arrivals differ in nothing else. -/
def SameButMemory (x y : Arrival) : Prop := ∃ n m, y = x.withMemory n m

namespace SameButMemory

variable {x y : Arrival}

theorem packet (h : SameButMemory x y) : y.packet = x.packet := by
  obtain ⟨n, m, rfl⟩ := h
  rfl

theorem reach (h : SameButMemory x y) {last : Int} :
    sweepReach last y.env = sweepReach last x.env := by
  obtain ⟨n, m, rfl⟩ := h
  rfl

end SameButMemory

/-- The session `Process` works on. -/
theorem opened_sameButSeq {x y : Arrival} (hxy : SameButMemory x y) (info : CSharedBehaviorInfo)
    {o o' : Option CSession} (h : Option.Rel CSession.SameButSeq o o') :
    (opened x.call info o).SameButSeq (opened y.call info o') := by
  obtain ⟨n, m, rfl⟩ := hxy
  cases h with
  | none =>
    refine ⟨n, m, ?_⟩
    show CSessionHashTable.newSession x.env.timeCreate (x.withMemory n m).env.new x.packet info =
      (CSessionHashTable.newSession x.env.timeCreate x.env.new x.packet info).setSeq n m
    unfold CSessionHashTable.newSession
    split <;> rfl
  | some h => exact h.refresh _

theorem findOrCreate_sameButSeq {x y : Arrival} (hxy : SameButMemory x y)
    (info : CSharedBehaviorInfo) {t t' : CSessionHashTable} (h : t.SameButSeq t') :
    (findOrCreate t x.call info).1.SameButSeq (findOrCreate t' y.call info).1 ∧
      (findOrCreate t' y.call info).2 = (findOrCreate t x.call info).2 := by
  have hfind : t.find x.env.timeFind x.packet.srcIp x.packet.dstIp x.packet.srcPort
      x.packet.dstPort = _ :=
    CSessionHashTable.find_eq x.env.timeFind x.packet.src x.packet.dst
  have hfind' : t'.find x.env.timeFind x.packet.srcIp x.packet.dstIp x.packet.srcPort
      x.packet.dstPort = _ :=
    CSessionHashTable.find_eq x.env.timeFind x.packet.src x.packet.dst
  rw [h.lookup] at hfind'
  have hopened := opened_sameButSeq hxy info Option.Rel.none
  obtain ⟨n, m, rfl⟩ := hxy
  unfold findOrCreate
  simp only [Arrival.call_packet, Arrival.call_env, Arrival.withMemory, hfind, hfind']
  cases t.lookup s(x.packet.src, x.packet.dst) with
  | some a => exact ⟨h.set a ((h.ses a).refresh _), rfl⟩
  | none => exact h.create x.env.timeCreate x.packet info hopened

/-- The session behind the pointer of `Process` is the one the connection had, swept and
opened. -/
theorem found_eq (B : Boost) {h : CHandle} (hw : h.sesHash.WF) (x : Arrival)
    (info : CSharedBehaviorInfo) :
    (findOrCreate (h.timeOutCheck B x.env).1.sesHash x.call info).1.ses
        (findOrCreate (h.timeOutCheck B x.env).1.sesHash x.call info).2 =
      opened x.call info (sweepConn B x.env (sweepReach h.lastTimeOutCheck x.env)
        (h.sesHash.session x.packet.conn)).1 := by
  have hsw := timeOutCheck_swept (B := B) (e := x.env) hw
  rw [← hsw.session_eq hw]
  exact (findOrCreate_opens (hsw.wf hw) x.call info).ses_self

/-- **One packet keeps what the runs have in common**, if the test for repeated packets says
the same in both. -/
theorem process_sameButSeq (B : Boost) {h h' : CHandle} (hw : h.sesHash.WF)
    (hsame : h.sesHash.SameButSeq h'.sesHash) (hlast : h'.lastTimeOutCheck = h.lastTimeOutCheck)
    {x y : Arrival} (hxy : SameButMemory x y)
    (hrep : x.packet.closes = false → x.packet.dataLen ≠ 0 →
      repeated x.packet (opened y.call (behavior x.packet) (sweepConn B y.env
          (sweepReach h'.lastTimeOutCheck y.env) (h'.sesHash.session x.packet.conn)).1) =
        repeated x.packet (opened x.call (behavior x.packet) (sweepConn B x.env
          (sweepReach h.lastTimeOutCheck x.env) (h.sesHash.session x.packet.conn)).1)) :
    (h.process B x.call).handle.sesHash.SameButSeq (h'.process B y.call).handle.sesHash ∧
      (h'.process B y.call).calls.map ParseCall.shown =
        (h.process B x.call).calls.map ParseCall.shown := by
  have hw' := hsame.wf hw
  have hsw := timeOutCheck_swept (B := B) (e := x.env) hw
  have hsw' := timeOutCheck_swept (B := B) (e := y.env) hw'
  have hfound : ∀ {t t' : CSessionHashTable}, t.SameButSeq t' →
      (findOrCreate t x.call (behavior x.packet)).1.SameButSeq
          (findOrCreate t' y.call (behavior x.packet)).1 ∧
        (findOrCreate t' y.call (behavior x.packet)).2 =
          (findOrCreate t x.call (behavior x.packet)).2 :=
    findOrCreate_sameButSeq hxy (behavior x.packet)
  obtain ⟨n, m, rfl⟩ := hxy
  have hreach : sweepReach h'.lastTimeOutCheck (x.withMemory n m).env =
      sweepReach h.lastTimeOutCheck x.env := by
    rw [hlast]
    rfl
  rw [hreach] at hsw'
  obtain ⟨hswept, hcalls⟩ := hsame.swept (by rfl) (by rfl) hsw hsw'
  have hmet' := found_eq B hw' (x.withMemory n m) (behavior x.packet)
  rw [Arrival.withMemory_packet] at hmet'
  rw [← found_eq B hw x (behavior x.packet), ← hmet'] at hrep
  obtain ⟨htable, hpointer⟩ := hfound hswept
  have hses := htable.ses (findOrCreate (h.timeOutCheck B x.env).1.sesHash x.call
    (behavior x.packet)).2
  obtain ⟨hclosing, hdropped, hfiled⟩ := process_table B h (Arrival.call_info x)
  obtain ⟨hclosing', hdropped', hfiled'⟩ :=
    process_table B h' (Arrival.call_info (x.withMemory n m))
  simp only [Arrival.call_packet, Arrival.call_env] at hclosing hdropped hfiled
  simp only [Arrival.call_packet, Arrival.call_env, Arrival.withMemory_packet,
    Arrival.withMemory_parse, processData_withMemory, hpointer, hses.processData B]
    at hclosing' hdropped' hfiled'
  rcases served_cases x.packet
      ((findOrCreate (h.timeOutCheck B x.env).1.sesHash x.call (behavior x.packet)).1.ses
        (findOrCreate (h.timeOutCheck B x.env).1.sesHash x.call (behavior x.packet)).2) with
    hclose | ⟨hopen, hdrop⟩ | ⟨hopen, hdata, hnew⟩
  · rw [hclosing hclose, hclosing' hclose, List.map_append, List.map_append, hcalls]
    exact ⟨(htable.set _ (hses.parse B x.env.parse)).remove _ _ _ _,
      congrArg (_ ++ [·]) (hses.shown _ _ _)⟩
  · have htests := hrep hopen
    rw [hpointer] at htests
    rw [hdropped hopen hdrop, hdropped' hopen (by
      by_cases hzero : x.packet.dataLen = 0
      · exact Or.inl hzero
      · exact Or.inr ((htests hzero).trans (hdrop.resolve_left hzero)))]
    exact ⟨htable, hcalls⟩
  · have htests := hrep hopen hdata
    rw [hpointer] at htests
    rw [hfiled hopen hdata hnew, hfiled' hopen hdata (htests.trans hnew), List.map_append,
      List.map_append, hcalls]
    exact ⟨htable.set _ (CSession.SameButSeq.refl _), rfl⟩

/-! ## The record of accepted packets -/

/-- The sweep looks at such sessions in the same way. -/
theorem sweepConn_sameButSeq (B : Boost) {x y : Arrival} (hxy : SameButMemory x y) (reach : Nat)
    {o o' : Option CSession} (h : Option.Rel CSession.SameButSeq o o') :
    Option.Rel CSession.SameButSeq (sweepConn B x.env reach o).1 (sweepConn B y.env reach o').1 := by
  obtain ⟨n, m, rfl⟩ := hxy
  cases h with
  | none => exact Option.Rel.none
  | @some s s' h =>
    have hexpires : sweepExpires (x.withMemory n m).env.timeCheck s' =
        sweepExpires x.env.timeCheck s := h.sweepExpires x.env.timeCheck
    unfold sweepConn
    simp only [h.conn, hexpires]
    by_cases hin : (hashConn s.conn).toNat < reach
    · simp only [if_pos hin]
      cases sweepExpires x.env.timeCheck s with
      | true => exact Option.Rel.none
      | false => exact Option.Rel.some (h.sweptSes B rfl rfl)
    · simp only [if_neg hin]
      exact Option.Rel.some h

namespace Traced

/-- The sessions differ in their sequence numbers only, and accepted the same packets. -/
structure SameButSeq (t t' : Traced) : Prop where
  ses : t.ses.SameButSeq t'.ses
  history : t'.history = t.history

variable {B : Boost} {x y : Arrival} {o o' : Option Traced}

theorem sessions_sameButSeq (h : Option.Rel SameButSeq o o') :
    Option.Rel CSession.SameButSeq (o.map Traced.ses) (o'.map Traced.ses) := by
  cases h with
  | none => exact Option.Rel.none
  | some h => exact Option.Rel.some h.ses

theorem sweep_sameButSeq (hxy : SameButMemory x y) (reach : Nat) (h : Option.Rel SameButSeq o o') :
    Option.Rel SameButSeq (sweep B x.env reach o) (sweep B y.env reach o') := by
  cases h with
  | none => exact Option.Rel.none
  | @some t t' h =>
    have hswept := sweepConn_sameButSeq B hxy reach (Option.Rel.some h.ses)
    show Option.Rel SameButSeq ((sweepConn B x.env reach (some t.ses)).1.map _)
      ((sweepConn B y.env reach (some t'.ses)).1.map _)
    generalize (sweepConn B x.env reach (some t.ses)).1 = q at hswept
    generalize (sweepConn B y.env reach (some t'.ses)).1 = q' at hswept
    cases hswept with
    | none => exact Option.Rel.none
    | some hs => exact Option.Rel.some ⟨hs, h.history⟩

theorem opened_sameButSeq (hxy : SameButMemory x y) (info : CSharedBehaviorInfo)
    (h : Option.Rel SameButSeq o o') :
    (opened x.call info o).SameButSeq (opened y.call info o') := by
  have hses := HttpDecoder.opened_sameButSeq hxy info (sessions_sameButSeq h)
  rw [← opened_ses, ← opened_ses] at hses
  refine ⟨hses, ?_⟩
  cases h with
  | none => rfl
  | some h => exact h.history

/-- A packet whose repetition is judged alike is filed in both or in neither. -/
theorem serve_sameButSeq (hxy : SameButMemory x y) (info : CSharedBehaviorInfo) {t t' : Traced}
    (h : t.SameButSeq t') (hrep : x.packet.closes = false → x.packet.dataLen ≠ 0 →
      repeated x.packet t'.ses = repeated x.packet t.ses) :
    Option.Rel SameButSeq (serve B x.call info t) (serve B y.call info t') := by
  obtain ⟨n, m, rfl⟩ := hxy
  cases hclose : x.packet.closes with
  | true =>
    rw [serve_closes (x := x.call) hclose, serve_closes (x := (x.withMemory n m).call) hclose]
    exact Option.Rel.none
  | false =>
    have haccepts : accepts x.packet t'.ses = accepts x.packet t.ses := by
      unfold accepts
      by_cases hzero : x.packet.dataLen = 0
      · simp [hzero]
      · rw [hrep hclose hzero]
    cases hacc : accepts x.packet t.ses with
    | false =>
      rw [serve_dropped (x := x.call) hclose hacc,
        serve_dropped (x := (x.withMemory n m).call) hclose (haccepts.trans hacc)]
      exact Option.Rel.some h
    | true =>
      rw [serve_accepted (x := x.call) hacc,
        serve_accepted (x := (x.withMemory n m).call) (haccepts.trans hacc)]
      refine Option.Rel.some ⟨?_, congrArg (· ++ [_]) h.history⟩
      have hfile : processData B (x.withMemory n m).env x.packet info.matchWay t'.ses =
          processData B x.env x.packet info.matchWay t.ses :=
        h.ses.processData B x.env x.packet info.matchWay
      show CSession.SameButSeq _ (processData B (x.withMemory n m).env x.packet info.matchWay t'.ses).ses
      rw [hfile]
      exact CSession.SameButSeq.refl _

/-- A packet of the connection. -/
theorem step_self {last : Int} {c : Conn} (hc : x.packet.conn = c) (o : Option Traced) :
    step B last c o x.call = serve B x.call (behavior x.packet)
      (opened x.call (behavior x.packet) (sweep B x.env (sweepReach last x.env) o)) := by
  unfold step
  simp only [Arrival.call_info, if_pos (show x.call.packet.conn = c from hc), Arrival.call_env]

/-- A packet of another one. -/
theorem step_other {last : Int} {c : Conn} (hc : x.packet.conn ≠ c) (o : Option Traced) :
    step B last c o x.call = sweep B x.env (sweepReach last x.env) o := by
  unfold step
  simp only [Arrival.call_info, if_neg (show ¬ x.call.packet.conn = c from hc), Arrival.call_env]

/-- Sessions that accepted a packet already keep the same number. -/
theorem repeated_sameButSeq {t t' : Traced} (h : t.SameButSeq t') (ht : t.Agrees) (ht' : t'.Agrees)
    (p : CFormatPacket) (hfirst : t.history = [] → (t.initial = p.seqNo ↔ t'.initial = p.seqNo)) :
    repeated p t'.ses = repeated p t.ses := by
  unfold repeated
  rw [ht, ht', decide_eq_decide]
  unfold lastNumber
  rw [h.history]
  cases hlast : t.history.getLast? with
  | none => exact (hfirst (List.getLast?_eq_none_iff.mp hlast)).symm
  | some q => exact Iff.rfl

end Traced

/-! ## Runs -/

/-- A data packet that meets a session without an accepted packet repeats what the memory of
`SeqNo` held in both runs or in neither. -/
def FirstNumber (B : Boost) (now : Int) (xs ys : List Arrival) (x y : Arrival) : Prop :=
  x.packet.closes = false → x.packet.dataLen ≠ 0 → (met B now xs x).history = [] →
    ((met B now xs x).initial = x.packet.seqNo ↔ (met B now ys y).initial = x.packet.seqNo)

/-- What two runs have in common. -/
structure RunsAlike (B : Boost) (ses : Nat → CSession) (now : Int) (xs ys : List Arrival) :
    Prop where
  table : (handleAfter B ses now xs).sesHash.SameButSeq (handleAfter B ses now ys).sesHash
  traced : ∀ c, Option.Rel Traced.SameButSeq
    ((tracedMachine B now c).run none (xs.map Arrival.call)).1
    ((tracedMachine B now c).run none (ys.map Arrival.call)).1
  calls : ((handleMachine B).run (init ses now) (ys.map Arrival.call)).2.map ParseCall.shown =
    ((handleMachine B).run (init ses now) (xs.map Arrival.call)).2.map ParseCall.shown

section Runs

variable {B : Boost} {ses : Nat → CSession} {now : Int} {xs ys : List Arrival} {x y : Arrival}

theorem handleAfter_last (xs : List Arrival) : (handleAfter B ses now xs).lastTimeOutCheck = now :=
  run_lastTimeOutCheck B (CSessionHashTable.wf_init ses) _

theorem handleAfter_concat (xs : List Arrival) (x : Arrival) :
    handleAfter B ses now (xs ++ [x]) = ((handleAfter B ses now xs).process B x.call).handle := by
  unfold handleAfter
  rw [List.map_append, List.map_singleton, Machine.run_concat]
  rfl

/-- The sessions the packet meets. -/
theorem RunsAlike.met (h : RunsAlike B ses now xs ys) (hxy : SameButMemory x y) :
    (met B now xs x).SameButSeq (met B now ys y) := by
  unfold HttpDecoder.met
  rw [hxy.packet, hxy.reach]
  exact Traced.opened_sameButSeq hxy _ (Traced.sweep_sameButSeq hxy _ (h.traced _))

/-- The test for repeated packets says the same about both. -/
theorem RunsAlike.repeated (h : RunsAlike B ses now xs ys) (hxy : SameButMemory x y)
    (hfirst : FirstNumber B now xs ys x y) (hopen : x.packet.closes = false)
    (hdata : x.packet.dataLen ≠ 0) :
    repeated x.packet (HttpDecoder.met B now ys y).ses =
      repeated x.packet (HttpDecoder.met B now xs x).ses :=
  Traced.repeated_sameButSeq (h.met hxy) (met_agrees ..) (met_agrees ..) x.packet
    (hfirst hopen hdata)

/-- **One packet keeps what two runs have in common.** -/
theorem RunsAlike.concat (h : RunsAlike B ses now xs ys) (hxy : SameButMemory x y)
    (hfirst : FirstNumber B now xs ys x y) : RunsAlike B ses now (xs ++ [x]) (ys ++ [y]) := by
  have hrep := h.repeated hxy hfirst
  have hmet := met_ses B ses now xs x
  have hmet' := met_ses B ses now ys y
  have hpacket := hxy.packet
  rw [hpacket] at hmet'
  obtain ⟨htable, hcalls⟩ := process_sameButSeq B (handleAfter_wf B ses now xs) h.table
    ((handleAfter_last ys).trans (handleAfter_last xs).symm) hxy (by
      rw [handleAfter_last, handleAfter_last, ← hmet, ← hmet']
      exact hrep)
  refine ⟨?_, fun c => ?_, ?_⟩
  · rw [handleAfter_concat, handleAfter_concat]
    exact htable
  · rw [List.map_append, List.map_append, List.map_singleton, List.map_singleton,
      Machine.run_concat, Machine.run_concat]
    have hswept := Traced.sweep_sameButSeq (B := B) hxy (sweepReach now x.env) (h.traced c)
    show Option.Rel Traced.SameButSeq (Traced.step B now c _ x.call) (Traced.step B now c _ y.call)
    by_cases hc : x.packet.conn = c
    · rw [Traced.step_self hc, Traced.step_self (hpacket.symm ▸ hc), hpacket, hxy.reach]
      refine Traced.serve_sameButSeq hxy _ (Traced.opened_sameButSeq hxy _ hswept) ?_
      unfold HttpDecoder.met at hrep
      rwa [hpacket, hxy.reach, hc] at hrep
    · rw [Traced.step_other hc, Traced.step_other (hpacket.symm ▸ hc), hxy.reach]
      exact hswept
  · rw [List.map_append, List.map_append, List.map_singleton, List.map_singleton,
      Machine.run_concat, Machine.run_concat, List.map_append, List.map_append, h.calls]
    exact congrArg (_ ++ ·) hcalls

end Runs

/-- The contents of the two buffers. -/
def CSession.shown (s : CSession) : Bytes × Bytes := (s.reqBuf.contents, s.rspBuf.contents)

/-- The two runs show the same contents in every session after each packet, and make the
same calls of `Parse` with the same contents. -/
structure SameBehavior (B : Boost) (ses : Nat → CSession) (now : Int) (xs ys : List Arrival) :
    Prop where
  /-- The sessions after `n` packets. -/
  contents : ∀ n c,
    ((handleAfter B ses now (xs.take n)).sesHash.session c).map CSession.shown =
      ((handleAfter B ses now (ys.take n)).sesHash.session c).map CSession.shown
  /-- The calls, in order. -/
  calls : ((handleMachine B).run (init ses now) (xs.map Arrival.call)).2.map ParseCall.shown =
    ((handleMachine B).run (init ses now) (ys.map Arrival.call)).2.map ParseCall.shown

/-- The packet is a data segment, the first one for its session. -/
structure IsFirst (B : Boost) (now : Int) (xs : List Arrival) (x : Arrival) : Prop where
  opens : x.packet.closes = false
  data : x.packet.dataLen ≠ 0
  /-- The session accepted none before. -/
  first : (met B now xs x).history = []

/-- The packet is appended to the session it meets: that does not stay as it was, and `Append`
was called for the payload. -/
def Appended (B : Boost) (ses : Nat → CSession) (now : Int) (xs : List Arrival) (x : Arrival) :
    Prop :=
  ∃ s, (handleAfter B ses now (xs ++ [x])).sesHash.session x.packet.conn = some s ∧
    s ≠ (met B now xs x).ses ∧ AppendsPayload x (met B now xs x).ses s

/-- In the run, the first data segment of every session is appended. -/
def FirstAppended (B : Boost) (ses : Nat → CSession) (now : Int) (xs : List Arrival) : Prop :=
  ∀ n, ∀ x ∈ xs[n]?, IsFirst B now (xs.take n) x → Appended B ses now (xs.take n) x

/-- The first data segment of every session carries a number that the memory of `SeqNo` held in
neither run. -/
def NewNumbers (B : Boost) (now : Int) (xs ys : List Arrival) : Prop :=
  ∀ n, ∀ x ∈ xs[n]?, ∀ y ∈ ys[n]?, IsFirst B now (xs.take n) x →
    (met B now (xs.take n) x).initial ≠ x.packet.seqNo ∧
      (met B now (ys.take n) y).initial ≠ x.packet.seqNo

/-- Every data packet that meets a session without an accepted packet repeats what the memory
of `SeqNo` held in both runs or in neither. -/
def FirstNumbers (B : Boost) (now : Int) (xs ys : List Arrival) : Prop :=
  ∀ n, ∀ x ∈ xs[n]?, ∀ y ∈ ys[n]?, FirstNumber B now (xs.take n) (ys.take n) x y

theorem forall₂_getElem? {α β : Type} {R : α → β → Prop} {l : List α} {l' : List β}
    (h : List.Forall₂ R l l') : ∀ n : Nat, Option.Rel R l[n]? l'[n]? := by
  induction h with
  | nil =>
    intro n
    exact Option.Rel.none
  | cons hab _ ih =>
    intro n
    cases n with
    | zero => exact Option.Rel.some hab
    | succ n => exact ih n

section Behavior

variable {B : Boost} {ses : Nat → CSession} {now : Int} {xs ys : List Arrival} {x y : Arrival}

theorem RunsAlike.nil : RunsAlike B ses now [] [] where
  table := ⟨rfl, rfl, fun _ => CSession.SameButSeq.refl _⟩
  traced _ := Option.Rel.none
  calls := rfl

theorem RunsAlike.contents (h : RunsAlike B ses now xs ys) (c : Conn) :
    ((handleAfter B ses now xs).sesHash.session c).map CSession.shown =
      ((handleAfter B ses now ys).sesHash.session c).map CSession.shown := by
  have hrel := h.table.session c
  generalize (handleAfter B ses now xs).sesHash.session c = o at hrel
  generalize (handleAfter B ses now ys).sesHash.session c = o' at hrel
  cases hrel with
  | none => rfl
  | @some s s' hs =>
    show some (s.reqBuf.contents, s.rspBuf.contents) = some (s'.reqBuf.contents, s'.rspBuf.contents)
    rw [hs.reqBuf, hs.rspBuf]

/-- The runs stay alike for as long as first numbers are judged alike. -/
theorem runsAlike_take (hsame : List.Forall₂ SameButMemory xs ys) : ∀ n,
    (∀ m < n, ∀ x ∈ xs[m]?, ∀ y ∈ ys[m]?, FirstNumber B now (xs.take m) (ys.take m) x y) →
      RunsAlike B ses now (xs.take n) (ys.take n) := by
  intro n
  induction n with
  | zero => exact fun _ => RunsAlike.nil
  | succ n ih =>
    intro hfirst
    have halike := ih fun m hm => hfirst m (by omega)
    have hnext := forall₂_getElem? hsame n
    rw [List.take_add_one, List.take_add_one]
    cases hx : xs[n]? with
    | none =>
      rw [hx] at hnext
      cases hy : ys[n]? with
      | none => simpa using halike
      | some y =>
        rw [hy] at hnext
        cases hnext
    | some x =>
      rw [hx] at hnext
      cases hy : ys[n]? with
      | none =>
        rw [hy] at hnext
        cases hnext
      | some y =>
        rw [hy] at hnext
        cases hnext with
        | some hxy => exact halike.concat hxy (hfirst n (by omega) x hx y hy)

/-- Where first numbers are judged alike, both runs behave alike. -/
theorem sameBehavior_of_firstNumbers (hsame : List.Forall₂ SameButMemory xs ys)
    (hfirst : FirstNumbers B now xs ys) : SameBehavior B ses now xs ys where
  contents n c := (runsAlike_take hsame n fun m _ => hfirst m).contents c
  calls := by
    have halike : RunsAlike B ses now (xs.take xs.length) (ys.take xs.length) :=
      runsAlike_take hsame xs.length fun m _ => hfirst m
    rw [List.take_length, hsame.length_eq, List.take_length] at halike
    exact halike.calls.symm

/-! ## The first segment -/

/-- A data packet is dropped if it repeats the number of the session, and filed otherwise. -/
theorem serve_data (B : Boost) {z : Arrival} (s : CSession) (hopen : z.packet.closes = false)
    (hsize : z.packet.dataLen ≠ 0) : (serve B z.call (behavior z.packet) s).1 =
      if s.seqNo = z.packet.seqNo then some s
      else some (processData B z.env z.packet (behavior z.packet).matchWay s).ses := by
  have hrep : repeated z.packet s = true ↔ s.seqNo = z.packet.seqNo := decide_eq_true_iff
  unfold serve
  rw [Arrival.call_packet, Arrival.call_env, if_neg (by simp [hopen]), if_neg hsize]
  by_cases hseq : s.seqNo = z.packet.seqNo
  · rw [if_pos hseq, if_pos (hrep.mpr hseq)]
  · rw [if_neg hseq, if_neg (hrep.not.mpr hseq)]

/-- A session without an accepted packet keeps what its memory held. -/
theorem met_seqNo (B : Boost) (now : Int) {xs : List Arrival} {x : Arrival}
    (h : (met B now xs x).history = []) :
    (met B now xs x).ses.seqNo = (met B now xs x).initial := by
  rw [met_agrees, Traced.lastNumber, h]
  rfl

/-- **The first data segment of a session** is appended exactly if its number is not what the
memory held. -/
theorem appended_iff (B : Boost) (ses : Nat → CSession) (now : Int) {xs : List Arrival}
    {x : Arrival} (h : IsFirst B now xs x) :
    Appended B ses now xs x ↔ (met B now xs x).initial ≠ x.packet.seqNo := by
  have hafter := process_met B ses now xs x
  rw [← handleAfter_concat, serve_data B _ h.opens h.data, met_seqNo B now h.first] at hafter
  unfold Appended
  rw [hafter]
  by_cases hseq : (met B now xs x).initial = x.packet.seqNo
  · -- it is dropped, and the session stays as it was
    rw [if_pos hseq]
    refine iff_of_false ?_ (not_not.mpr hseq)
    rintro ⟨s, hs, hne, -⟩
    exact hne (Option.some.inj hs).symm
  · rw [if_neg hseq]
    refine iff_of_true ⟨_, rfl, fun hsame => hseq ?_, processData_appends B x _⟩ hseq
    -- filing it writes its number
    have hnumber := congrArg CSession.seqNo hsame
    rw [Traced.processData_seqNo, met_seqNo B now h.first] at hnumber
    exact hnumber.symm

theorem take_succ_of_mem {n : Nat} (hx : x ∈ xs[n]?) : xs.take (n + 1) = xs.take n ++ [x] := by
  rw [List.take_add_one, Option.mem_def.mp hx]
  rfl

theorem sameButMemory_of_mem (hsame : List.Forall₂ SameButMemory xs ys) {n : Nat}
    (hx : x ∈ xs[n]?) (hy : y ∈ ys[n]?) : SameButMemory x y := by
  have hrel := forall₂_getElem? hsame n
  rw [Option.mem_def.mp hx, Option.mem_def.mp hy] at hrel
  cases hrel with
  | some hxy => exact hxy

/-- It is the first one in both runs. -/
theorem IsFirst.other (h : IsFirst B now xs x) (halike : RunsAlike B ses now xs ys)
    (hxy : SameButMemory x y) : IsFirst B now ys y where
  opens := hxy.packet ▸ h.opens
  data := hxy.packet ▸ h.data
  first := (halike.met hxy).history.trans h.first

/-- A number that is new in both runs is judged alike. -/
theorem NewNumbers.firstNumbers (h : NewNumbers B now xs ys) : FirstNumbers B now xs ys := by
  intro n x hx y hy hopen hdata hnone
  obtain ⟨hnew, hnew'⟩ := h n x hx y hy ⟨hopen, hdata, hnone⟩
  exact iff_of_false hnew hnew'

/-- Where the numbers are new, first segments are appended in both runs. -/
theorem NewNumbers.firstAppended (h : NewNumbers B now xs ys)
    (hsame : List.Forall₂ SameButMemory xs ys) :
    FirstAppended B ses now xs ∧ FirstAppended B ses now ys := by
  have hlength := hsame.length_eq
  constructor
  · intro n x hx hfirst
    have hlt := (List.getElem?_eq_some_iff.mp hx).1
    obtain ⟨y, hy⟩ : ∃ y, y ∈ ys[n]? := ⟨_, List.getElem?_eq_getElem (hlength ▸ hlt)⟩
    exact (appended_iff B ses now hfirst).mpr (h n x hx y hy hfirst).1
  · intro n y hy hfirst
    have hlt := (List.getElem?_eq_some_iff.mp hy).1
    obtain ⟨x, hx⟩ : ∃ x, x ∈ xs[n]? := ⟨_, List.getElem?_eq_getElem (hlength.symm ▸ hlt)⟩
    have hxy := sameButMemory_of_mem hsame hx hy
    have halike : RunsAlike B ses now (xs.take n) (ys.take n) :=
      runsAlike_take hsame n fun m _ => h.firstNumbers m
    have hfirst' : IsFirst B now (xs.take n) x :=
      ⟨hxy.packet ▸ hfirst.opens, hxy.packet ▸ hfirst.data,
        (halike.met hxy).history.symm.trans hfirst.first⟩
    rw [appended_iff B ses now hfirst, hxy.packet]
    exact (h n x hx y hy hfirst').2

/-- Where first segments are appended in both runs, the numbers are new. -/
theorem newNumbers_of_firstAppended (hsame : List.Forall₂ SameButMemory xs ys)
    (hxs : FirstAppended B ses now xs) (hys : FirstAppended B ses now ys) :
    NewNumbers B now xs ys := by
  -- by induction on the number of packets: up to there the runs are alike
  have hnew : ∀ n, ∀ m < n, ∀ x ∈ xs[m]?, ∀ y ∈ ys[m]?, IsFirst B now (xs.take m) x →
      (met B now (xs.take m) x).initial ≠ x.packet.seqNo ∧
        (met B now (ys.take m) y).initial ≠ x.packet.seqNo := by
    intro n
    induction n with
    | zero => exact fun m hm => absurd hm (Nat.not_lt_zero m)
    | succ n ih =>
      intro m hm x hx y hy hfirst
      rcases Nat.lt_succ_iff_lt_or_eq.mp hm with hlt | rfl
      · exact ih m hlt x hx y hy hfirst
      have hxy := sameButMemory_of_mem hsame hx hy
      have halike : RunsAlike B ses now (xs.take m) (ys.take m) := by
        refine runsAlike_take hsame m fun k hk x hx y hy hopen hdata hnone => ?_
        obtain ⟨hnew, hnew'⟩ := ih k hk x hx y hy ⟨hopen, hdata, hnone⟩
        exact iff_of_false hnew hnew'
      have hfirst' := hfirst.other halike hxy
      have hnumber := (appended_iff B ses now hfirst').mp (hys m y hy hfirst')
      rw [hxy.packet] at hnumber
      exact ⟨(appended_iff B ses now hfirst).mp (hxs m x hx hfirst), hnumber⟩
  exact fun n => hnew (n + 1) n (Nat.lt_succ_self n)

/-! ## Judged differently -/

/-- A data packet that is filed changes what the session shows. -/
theorem processData_shown_ne (he : x.env.append.isSome) {s : CSession} {ps : List CFormatPacket}
    (hs : s.WF) (hc : s.Carries ps) (hresets : x.env.Resets) (hdata : x.packet.payload ≠ [])
    (hreq : (requestOf (joined (processData B x.env x.packet (behavior x.packet).matchWay s) ps
      x.packet)).length < 2 ^ 32)
    (hrsp : (responseOf (joined (processData B x.env x.packet (behavior x.packet).matchWay s) ps
      x.packet)).length < 2 ^ 32)
    (hkeep : ¬ (bufferAt x s).Frees x.packet.dataSize) :
    (processData B x.env x.packet (behavior x.packet).matchWay s).ses.shown ≠ s.shown := by
  obtain ⟨-, hcarries, -⟩ := processData_carries B hs hc hresets hreq hrsp hkeep
  have hcalls := Ledger.processData_calls_iff B (x := x) hs
  have hdone := processData_done (x := x) B he s hkeep
  generalize processData B x.env x.packet (behavior x.packet).matchWay s = q at *
  intro hsame
  obtain ⟨hsameReq, hsameRsp⟩ := Prod.mk.inj hsame
  rw [hcarries.req, hc.req] at hsameReq
  rw [hcarries.rsp, hc.rsp] at hsameRsp
  rw [joined, if_pos hdone] at hsameReq hsameRsp
  rw [requestOf_append, requestOf_single] at hsameReq
  rw [responseOf_append, responseOf_single] at hsameRsp
  cases hempty : q.calls.isEmpty with
  | false =>
    -- the exchange was parsed: the response is gone
    rw [hempty, iff_false_left (by simp), not_not] at hcalls
    obtain ⟨hto, -, hfull⟩ := hcalls
    rw [hempty, if_pos hto] at hsameRsp
    rw [hc.rsp] at hfull
    exact hfull hsameRsp.symm
  | true =>
    rw [hempty, if_pos rfl] at hsameReq hsameRsp
    cases hto : x.packet.toServer with
    | true =>
      rw [hto, if_pos rfl] at hsameReq
      exact hdata (List.append_right_eq_self.mp hsameReq)
    | false =>
      rw [hto, if_neg (by simp)] at hsameRsp
      exact hdata (List.append_right_eq_self.mp hsameRsp)

/-- The session a packet meets, in the books. -/
theorem meets_ses (B : Boost) (ses : Nat → CSession) (now : Int) (xs : List Arrival) (x : Arrival) :
    ((booksOf B now x.packet.conn xs).meets B now x.call (behavior x.packet)).ses =
      (met B now xs x).ses := by
  have hswept := Ledger.sweep_ses B x.env (sweepReach now x.env)
    (booksOf B now x.packet.conn xs).current
  rw [(booksOf_run B ses now x.packet.conn xs).1] at hswept
  rw [met_ses B ses]
  refine (Ledger.opened_ses ..).trans ?_
  exact congrArg (fun o => CHandle.opened x.call (behavior x.packet) o) hswept

/-- While memory is granted and little enough arrives, that session is balanced and the
packet can be counted. -/
theorem meets_balanced (B : Boost) (now : Int) (hgrant : ∀ z ∈ xs, z.env.Granted) (hx : x.env.Granted)
    (hpay : payloadBytes (xs.map Arrival.call) + x.packet.payload.length < 2 ^ 32) :
    let l := (booksOf B now x.packet.conn xs).meets B now x.call (behavior x.packet)
    l.Balanced ∧ Ledger.Countable B x l := by
  intro l
  have hcount : Book.FilesAlong B now x.packet.conn (Ledger.Countable B) Book.empty xs :=
    countable_of_payload B now _ Book.typed_empty (by
      show 0 + payloadBytes (xs.map Arrival.call) < 2 ^ 32
      omega)
  have hbalanced := balanced_run B now x.packet.conn (fun z hz => (hgrant z hz).toResets) hcount
  have hkeeps := Ledger.Balanced.keeps B hx.toResets
  have hl : l.Balanced := hkeeps.opened _ fun k hk => Book.keeps_swept now hkeeps hbalanced k
    (List.mem_append_right _ (Option.mem_toList.mpr hk))
  have htyped : l.Typed := ⟨hl.wf.req.len_lt, hl.wf.rsp.len_lt⟩
  have hsize : x.packet.payload.length = x.packet.dataSize := Mem.length_read ..
  refine ⟨hl, Ledger.counted_of_held ?_, htyped.not_frees (by omega)⟩
  have hfile := Ledger.held_file_le B x.call (behavior x.packet) l
  have hmeets := Book.held_meets_le B now (booksOf B now x.packet.conn xs) x.call (behavior x.packet)
  have hrun := Book.held_run_le B now x.packet.conn (xs.map Arrival.call) Book.empty
  change (booksOf B now x.packet.conn xs).held ≤ 0 + _ at hrun
  rw [Arrival.call_packet] at hfile
  change l.held ≤ _ at hmeets
  omega

/-- A first number that is judged differently shows: one run drops the packet, the other files
it. -/
theorem firstNumber_of_contents (halike : RunsAlike B ses now xs ys) (hxy : SameButMemory x y)
    (hgrant : ∀ z ∈ xs, z.env.Granted) (hx : x.env.Granted)
    (hpay : payloadBytes (xs.map Arrival.call) + x.packet.payload.length < 2 ^ 32)
    (hdata : x.packet.dataLen ≠ 0 → x.packet.payload ≠ [])
    (hcontents : ((handleAfter B ses now (xs ++ [x])).sesHash.session x.packet.conn).map
        CSession.shown =
      ((handleAfter B ses now (ys ++ [y])).sesHash.session x.packet.conn).map CSession.shown) :
    FirstNumber B now xs ys x y := by
  intro hopen hsize hnone
  obtain ⟨hses, hhistory⟩ := halike.met hxy
  have hlast := met_seqNo B now hnone
  have hlast' := met_seqNo B now (hhistory.trans hnone)
  -- filing the packet changes what is shown
  obtain ⟨hbalanced, hcounted⟩ := meets_balanced B now hgrant hx hpay
  have hmeets := meets_ses B ses now xs x
  have hchanges : (processData B x.env x.packet (behavior x.packet).matchWay
      (met B now xs x).ses).ses.shown ≠ (met B now xs x).ses.shown := by
    rw [← hmeets]
    exact processData_shown_ne hx.append hbalanced.wf hbalanced.since hx.toResets (hdata hsize)
      hcounted.req hcounted.rsp hcounted.kept
  have hshown : (met B now ys y).ses.shown = (met B now xs x).ses.shown := by
    unfold CSession.shown
    rw [hses.reqBuf, hses.rspBuf]
  have hfile : processData B y.env y.packet (behavior y.packet).matchWay (met B now ys y).ses =
      processData B x.env x.packet (behavior x.packet).matchWay (met B now xs x).ses := by
    obtain ⟨n, m, rfl⟩ := hxy
    exact hses.processData B x.env x.packet (behavior x.packet).matchWay
  -- what each run makes of the packet
  have hleft := process_met B ses now xs x
  have hleft' := process_met B ses now ys y
  have hpacket := hxy.packet
  rw [← handleAfter_concat] at hleft hleft'
  rw [hpacket] at hleft'
  have hserve' := serve_data B (met B now ys y).ses (hpacket.symm ▸ hopen) (hpacket.symm ▸ hsize)
  rw [hfile, hpacket, hlast'] at hserve'
  rw [hleft, hleft', serve_data B _ hopen hsize, hlast, hserve'] at hcontents
  by_cases hfirst : (met B now xs x).initial = x.packet.seqNo
  · refine iff_of_true hfirst ?_
    by_contra hsecond
    rw [if_pos hfirst, if_neg hsecond] at hcontents
    exact hchanges (Option.some.inj hcontents).symm
  · refine iff_of_false hfirst fun hsecond => ?_
    rw [if_neg hfirst, if_pos hsecond] at hcontents
    exact hchanges ((Option.some.inj hcontents).trans hshown)

/-- While memory is granted and fewer than `2 ^ 32` bytes arrive, lengths being 16-bit ones,
runs that behave alike judge first numbers alike. -/
theorem firstNumbers_of_sameBehavior (hsame : List.Forall₂ SameButMemory xs ys)
    (hgrant : ∀ x ∈ xs, x.env.Granted) (hpay : payloadBytes (xs.map Arrival.call) < 2 ^ 32)
    (hshort : ∀ x ∈ xs, -2 ^ 15 ≤ x.packet.dataLen ∧ x.packet.dataLen < 2 ^ 15)
    (hbehavior : SameBehavior B ses now xs ys) : FirstNumbers B now xs ys := by
  have hfirst : ∀ n, ∀ m < n, ∀ x ∈ xs[m]?, ∀ y ∈ ys[m]?,
      FirstNumber B now (xs.take m) (ys.take m) x y := by
    intro n
    induction n with
    | zero => exact fun m hm => absurd hm (Nat.not_lt_zero m)
    | succ n ih =>
      intro m hm x hx y hy
      rcases Nat.lt_succ_iff_lt_or_eq.mp hm with hlt | rfl
      · exact ih m hlt x hx y hy
      have hmem : x ∈ xs := List.mem_of_getElem? hx
      have htake := take_succ_of_mem hx
      have htake' := take_succ_of_mem hy
      have hbytes : payloadBytes ((xs.take m).map Arrival.call) + x.packet.payload.length ≤
          payloadBytes (xs.map Arrival.call) := by
        have hsplit := List.take_append_drop (m + 1) xs
        rw [htake] at hsplit
        have hsum := congrArg (fun l => payloadBytes (l.map Arrival.call)) hsplit
        simp only [payloadBytes, List.map_append, List.sum_append, List.map_cons, List.map_nil,
          List.sum_cons, List.sum_nil, Arrival.call_packet] at hsum ⊢
        omega
      have hcontents := hbehavior.contents (m + 1) x.packet.conn
      rw [htake, htake'] at hcontents
      exact firstNumber_of_contents (runsAlike_take hsame m ih)
        (sameButMemory_of_mem hsame hx hy) (fun z hz => hgrant z (List.mem_of_mem_take hz))
        (hgrant x hmem) (by omega) (payload_ne_of_int16 (hshort x hmem).1 (hshort x hmem).2)
        hcontents
  exact fun n => hfirst (n + 1) n (Nat.lt_succ_self n)

end Behavior

/-- **When the memory of new sessions does not matter.**  For every packet sequence and any two
choices of what that memory held, with any clocks and answers of the allocator: both runs
behave alike and append the first data segment of every session exactly if its number is what
the memory of `SeqNo` held in neither run.  They behave alike, whether they append it or not,
if its number is what the memory held in both or in neither; and while memory is granted and
fewer than `2 ^ 32` bytes arrive, lengths being 16-bit ones, only then. -/
theorem sameBehavior_iff (B : Boost) (ses : Nat → CSession) (now : Int) {xs ys : List Arrival}
    (hsame : List.Forall₂ SameButMemory xs ys) :
    ((SameBehavior B ses now xs ys ∧ FirstAppended B ses now xs ∧ FirstAppended B ses now ys) ↔
        NewNumbers B now xs ys) ∧
      (FirstNumbers B now xs ys → SameBehavior B ses now xs ys) ∧
      ((∀ x ∈ xs, x.env.Granted) → payloadBytes (xs.map Arrival.call) < 2 ^ 32 →
        (∀ x ∈ xs, -2 ^ 15 ≤ x.packet.dataLen ∧ x.packet.dataLen < 2 ^ 15) →
          SameBehavior B ses now xs ys → FirstNumbers B now xs ys) := by
  refine ⟨⟨?_, fun hnew => ?_⟩, sameBehavior_of_firstNumbers hsame,
    firstNumbers_of_sameBehavior hsame⟩
  · rintro ⟨-, hxs, hys⟩
    exact newNumbers_of_firstAppended hsame hxs hys
  · exact ⟨sameBehavior_of_firstNumbers hsame hnew.firstNumbers, hnew.firstAppended hsame⟩

/-! ## One segment -/

/-- The first segment of a connection, its session being created over a memory that holds
`n`. -/
def firstSegment (n : UInt32) : Arrival := (arrival ⟨1, 1000⟩ ⟨2, 80⟩ 5 [71] false).withMemory n 0

theorem firstSegments_same (n m : UInt32) :
    List.Forall₂ SameButMemory [firstSegment n] [firstSegment m] :=
  List.Forall₂.cons ⟨m, 0, rfl⟩ List.Forall₂.nil

/-- A packet without data creates the session over a memory that holds `n`; the first data
segment follows. -/
def openedRun (n : UInt32) : List Arrival :=
  [(arrival ⟨1, 1000⟩ ⟨2, 80⟩ 4 [] false).withMemory n 0, arrival ⟨1, 1000⟩ ⟨2, 80⟩ 5 [71] false]

/-- Two values that are not the number of the segment. -/
theorem sameBehavior_iff_openedRun :
    SameBehavior Boost.decimal blankSes 0 (openedRun 0) (openedRun 1) ∧
      FirstAppended Boost.decimal blankSes 0 (openedRun 0) ∧
      FirstAppended Boost.decimal blankSes 0 (openedRun 1) := by
  have hsame : List.Forall₂ SameButMemory (openedRun 0) (openedRun 1) :=
    List.Forall₂.cons ⟨1, 0, rfl⟩ (List.Forall₂.cons ⟨0, 0, rfl⟩ List.Forall₂.nil)
  have hmemory : ∀ n : UInt32, n = 0 ∨ n = 1 →
      (met Boost.decimal 0 ((openedRun n).take 1) (arrival ⟨1, 1000⟩ ⟨2, 80⟩ 5 [71] false)).initial
        ≠ 5 := by
    rintro n (rfl | rfl)
    · decide +kernel
    · decide +kernel
  refine (sameBehavior_iff Boost.decimal blankSes 0 hsame).1.mpr fun n x hx y hy hfirst => ?_
  match n with
  | 0 =>
    -- the packet that creates the session has no data
    obtain rfl := Option.some.inj hx
    exact absurd rfl hfirst.data
  | 1 =>
    obtain rfl := Option.some.inj hx
    obtain rfl := Option.some.inj hy
    exact ⟨hmemory 0 (Or.inl rfl), hmemory 1 (Or.inr rfl)⟩
  | n + 2 => exact absurd hx (by simp [openedRun])

/-- What the session of the segment shows. -/
def firstShown (n : UInt32) : Option (Bytes × Bytes) :=
  ((handleAfter Boost.decimal blankSes 0 [firstSegment n]).sesHash.session
    s(⟨1, 1000⟩, ⟨2, 80⟩)).map CSession.shown

/-- Over a memory that holds its number the segment is lost. -/
theorem not_sameBehavior_firstSegment :
    List.Forall₂ SameButMemory [firstSegment 0] [firstSegment 5] ∧
      ¬ SameBehavior Boost.decimal blankSes 0 [firstSegment 0] [firstSegment 5] ∧
        firstShown 0 = some ([71], []) ∧ firstShown 5 = some ([], []) := by
  have hkept : firstShown 0 = some ([71], []) := by decide +kernel
  have hlost : firstShown 5 = some ([], []) := by decide +kernel
  refine ⟨firstSegments_same 0 5, fun h => ?_, hkept, hlost⟩
  have hsame : firstShown 0 = firstShown 5 := h.contents 1 s(⟨1, 1000⟩, ⟨2, 80⟩)
  rw [hkept, hlost] at hsame
  exact absurd hsame (by simp)

end HttpDecoder
