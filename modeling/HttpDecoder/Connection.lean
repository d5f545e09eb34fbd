import HttpDecoder.Receiver
import HttpDecoder.Sweep

/-!
# The handle as a family of connections

`CHandle::Process` works on one shared table.  Seen from a single connection it
is a machine of its own (`connMachine`), whose state is the session of that
connection, if there is one: the sweep looks at it (`sweepConn`), and a packet of
the connection opens it (`opened`) and is served by it (`serve`).

* `CHandle.process_conn` — **one call of `Process` is, for every connection, one
  step of its machine**; the table invariant is kept.
* `run_conn` — hence every run of the handle is, for every connection, a run of
  its machine.
* `CHandle.meets` — the session a call works on; `CHandle.process_meets` — what the call
  makes of it.
* `connStep_of_other` — a packet of another connection that triggers no sweep is
  no step at all.
-/

namespace HttpDecoder

open CLib

namespace CHandle

/-! ## Opening a session -/

/-- The session `Process` works on: the one `Find` refreshed, or a new one. -/
def opened (x : Call) (info : CSharedBehaviorInfo) : Option CSession → CSession
  | some s => { s with refreshTime := x.env.timeFind % 2 ^ 32 }
  | none => CSessionHashTable.newSession x.env.timeCreate x.env.new x.packet info

theorem opened_conn (x : Call) (info : CSharedBehaviorInfo) {o : Option CSession}
    (h : ∀ s ∈ o, s.conn = x.packet.conn) : (opened x info o).conn = x.packet.conn := by
  cases o with
  | none => exact CSessionHashTable.newSession_conn ..
  | some s => exact h s rfl

/-- What `findOrCreate` leaves. -/
structure Opens (t t' : CSessionHashTable) (a : Nat) (x : Call) (info : CSharedBehaviorInfo) :
    Prop where
  wf : t'.WF
  /-- The pointer is the one the connection looks up. -/
  lookup_self : t'.lookup x.packet.conn = some a
  /-- Behind it lies the opened session. -/
  ses_self : t'.ses a = opened x info (t.session x.packet.conn)
  /-- The other connections keep their pointers. -/
  lookup_other : ∀ c, x.packet.conn ≠ c → t'.lookup c = t.lookup c
  /-- The other connections keep their sessions. -/
  session_other : ∀ c, x.packet.conn ≠ c → t'.session c = t.session c
  /-- The other connections keep their places in the buckets. -/
  bucket_other : ∀ i, ((t'.cseshash i).filter fun q => t'.key q ≠ x.packet.conn) =
    (t.cseshash i).filter fun q => t.key q ≠ x.packet.conn
  /-- The other session objects stay. -/
  ses_other : ∀ b, b ≠ a → t'.ses b = t.ses b

section FindOrCreate

variable {t : CSessionHashTable} {x : Call} {info : CSharedBehaviorInfo}

variable (t x) in
/-- `Find` looks the connection of the packet up. -/
theorem find_packet : t.find x.env.timeFind x.packet.srcIp x.packet.dstIp x.packet.srcPort
    x.packet.dstPort =
      match t.lookup x.packet.conn with
      | some a => (t.set a { t.ses a with refreshTime := x.env.timeFind % 2 ^ 32 }, some a)
      | none => (t, none) :=
  CSessionHashTable.find_eq (t := t) x.env.timeFind x.packet.src x.packet.dst

/-- A session that is there is refreshed. -/
theorem findOrCreate_of_some {a : Nat} (h : t.lookup x.packet.conn = some a) :
    findOrCreate t x info =
      (t.set a { t.ses a with refreshTime := x.env.timeFind % 2 ^ 32 }, a) := by
  unfold findOrCreate
  simp only [find_packet, h]

/-- Otherwise one is created. -/
theorem findOrCreate_of_none (h : t.lookup x.packet.conn = none) :
    findOrCreate t x info = t.create x.env.timeCreate x.env.new x.packet info := by
  unfold findOrCreate
  simp only [find_packet, h]

end FindOrCreate

/-- **`findOrCreate` opens the session of the connection** and leaves the others
alone. -/
theorem findOrCreate_opens {t : CSessionHashTable} (hw : t.WF) (x : Call)
    (info : CSharedBehaviorInfo) :
    Opens t (findOrCreate t x info).1 (findOrCreate t x info).2 x info := by
  cases hl : t.lookup x.packet.conn with
  | some a =>
    have hkeep : ({ t.ses a with refreshTime := x.env.timeFind % 2 ^ 32 } : CSession).conn =
        (t.ses a).conn := rfl
    rw [findOrCreate_of_some hl]
    refine ⟨hw.set hkeep, ?_, ?_, fun c _ => CSessionHashTable.lookup_set hkeep c,
      fun c hc => CSessionHashTable.session_set_of_ne hkeep ?_, fun i => ?_,
      fun b hb => CSessionHashTable.set_ses_of_ne hb⟩
    · rw [CSessionHashTable.lookup_set hkeep, hl]
    · rw [CSessionHashTable.set_ses_self, CSessionHashTable.session_of_lookup hl]
      rfl
    · rwa [CSessionHashTable.key_of_lookup hl]
    · rw [CSessionHashTable.key_set hkeep, CSessionHashTable.set_cseshash]
  | none =>
    rw [findOrCreate_of_none hl]
    refine ⟨hw.create _ _ _ hl, hw.lookup_create_self _ _ _ hl, ?_,
      fun c hc => hw.lookup_create_of_ne _ _ _ hc, fun c hc => hw.session_create_of_ne _ _ _ hc,
      fun i => hw.filter_create _ _ _ _ i,
      fun b hb => CSessionHashTable.create_ses_of_ne _ _ _ _ hb⟩
    rw [CSessionHashTable.create_snd, CSessionHashTable.create_ses_self,
      CSessionHashTable.session_eq_none_iff.mpr hl]
    rfl

/-! ## Serving a packet -/

/-- `Process` from the FIN/RST test on, for the session behind `sesptr`: the
session it leaves, `none` when it is removed, and the calls of `Parse`. -/
def serve (B : Boost) (x : Call) (info : CSharedBehaviorInfo) (s : CSession) :
    Option CSession × List (CSession × Option Record) :=
  if x.packet.closes then (none, [(s, (parse B x.env.parse s).2)])
  else if repeated x.packet s then (some s, [])
  else if x.packet.dataLen = 0 then (some s, [])
  else
    let q := processData B x.env x.packet info.matchWay s
    (some q.ses, q.calls)

theorem parseFull_conn (B : Boost) (e : ParseEnv) (s : CSession) :
    (parseFull B e s).1.conn = s.conn ∧ ∀ k ∈ (parseFull B e s).2, k.1 = s := by
  unfold parseFull
  split
  · rw [parse_fst]
    exact ⟨rfl, fun k hk => by rw [List.mem_singleton.mp hk]⟩
  · exact ⟨rfl, fun k hk => absurd hk List.not_mem_nil⟩

/-- A time stamp changes nothing but the result. -/
theorem stampRequest_fields (p : CFormatPacket) (s : CSession) :
    (stampRequest p s).server = s.server ∧ (stampRequest p s).client = s.client ∧
      (stampRequest p s).seqNo = s.seqNo ∧ (stampRequest p s).reqBuf = s.reqBuf ∧
      (stampRequest p s).rspBuf = s.rspBuf := by
  unfold stampRequest
  generalize p.timeStamp = time
  split <;> exact ⟨rfl, rfl, rfl, rfl, rfl⟩

theorem stampResponse_fields (p : CFormatPacket) (s : CSession) :
    (stampResponse p s).server = s.server ∧ (stampResponse p s).client = s.client ∧
      (stampResponse p s).seqNo = s.seqNo ∧ (stampResponse p s).reqBuf = s.reqBuf ∧
      (stampResponse p s).rspBuf = s.rspBuf := by
  unfold stampResponse
  generalize p.timeStamp = time
  split <;> exact ⟨rfl, rfl, rfl, rfl, rfl⟩

theorem stampRequest_conn (p : CFormatPacket) (s : CSession) :
    (stampRequest p s).conn = s.conn := by
  obtain ⟨hserver, hclient, -⟩ := stampRequest_fields p s
  exact CSession.conn_congr hserver hclient

theorem stampResponse_conn (p : CFormatPacket) (s : CSession) :
    (stampResponse p s).conn = s.conn := by
  obtain ⟨hserver, hclient, -⟩ := stampResponse_fields p s
  exact CSession.conn_congr hserver hclient

/-- Filing a packet keeps the endpoints of the session, and every session it hands
to `Parse` has them too. -/
theorem processData_conn (B : Boost) (e : Env) (p : CFormatPacket) (way : UInt32)
    (s : CSession) : (processData B e p way s).ses.conn = s.conn ∧
      ∀ k ∈ (processData B e p way s).calls, k.1.conn = s.conn := by
  unfold processData
  have hconn : (s.setSeq p.seqNo p.ackSeqNo).conn = s.conn := s.setSeq_conn _ _
  split
  · exact ⟨hconn, fun k hk => absurd hk List.not_mem_nil⟩
  split
  · obtain ⟨hses, hcalls⟩ := parseFull_conn B e.parse (s.setSeq p.seqNo p.ackSeqNo)
    refine ⟨?_, fun k hk => by rw [hcalls k hk, hconn]⟩
    show (stampRequest p _).conn = s.conn
    rw [stampRequest_conn, hses, hconn]
  split
  · refine ⟨?_, fun k hk => absurd hk List.not_mem_nil⟩
    show (stampResponse p _).conn = s.conn
    rw [stampResponse_conn, hconn]
  · exact ⟨hconn, fun k hk => absurd hk List.not_mem_nil⟩

/-- The tests of `Process` on an opened session: the packet closes it, or is dropped as empty
or repeated, or is filed. -/
theorem served_cases (p : CFormatPacket) (s : CSession) :
    p.closes = true ∨ (p.closes = false ∧ (p.dataLen = 0 ∨ repeated p s = true)) ∨
      (p.closes = false ∧ p.dataLen ≠ 0 ∧ repeated p s = false) := by
  cases p.closes with
  | true => exact Or.inl rfl
  | false =>
    right
    by_cases hzero : p.dataLen = 0
    · exact Or.inl ⟨rfl, Or.inl hzero⟩
    · cases repeated p s with
      | true => exact Or.inl ⟨rfl, Or.inr rfl⟩
      | false => exact Or.inr ⟨rfl, hzero, rfl⟩

section Serve

variable {B : Boost} {x : Call} {info : CSharedBehaviorInfo} {s : CSession}

theorem serve_closing (hclose : x.packet.closes = true) :
    serve B x info s = (none, [(s, (parse B x.env.parse s).2)]) := by
  unfold serve
  rw [if_pos hclose]

theorem serve_left (hopen : x.packet.closes = false)
    (hdrop : x.packet.dataLen = 0 ∨ repeated x.packet s = true) :
    serve B x info s = (some s, []) := by
  unfold serve
  rw [if_neg (Bool.eq_false_iff.mp hopen)]
  rcases hdrop with hzero | hrep
  · rw [if_pos hzero, ite_self]
  · rw [if_pos hrep]

theorem serve_filed (hopen : x.packet.closes = false) (hdata : x.packet.dataLen ≠ 0)
    (hnew : repeated x.packet s = false) : serve B x info s =
      (some (processData B x.env x.packet info.matchWay s).ses,
        (processData B x.env x.packet info.matchWay s).calls) := by
  unfold serve
  rw [if_neg (Bool.eq_false_iff.mp hopen), if_neg (Bool.eq_false_iff.mp hnew), if_neg hdata]

end Serve

/-- What serving a packet leaves of a session is the session as it was, or with the
packet filed. -/
theorem serve_cases (B : Boost) (x : Call) (info : CSharedBehaviorInfo) (s : CSession) :
    ∀ s' ∈ (serve B x info s).1,
      s' = s ∨ s' = (processData B x.env x.packet info.matchWay s).ses := by
  intro s' hs'
  rcases served_cases x.packet s with hclose | ⟨hopen, hdrop⟩ | ⟨hopen, hdata, hnew⟩
  · rw [serve_closing hclose] at hs'
    cases hs'
  · rw [serve_left hopen hdrop] at hs'
    exact Or.inl (Option.some.inj hs').symm
  · rw [serve_filed hopen hdata hnew] at hs'
    exact Or.inr (Option.some.inj hs').symm

theorem serve_conn {B : Boost} {x : Call} {info : CSharedBehaviorInfo} {s : CSession} :
    (∀ s' ∈ (serve B x info s).1, s'.conn = s.conn) ∧
      ∀ k ∈ (serve B x info s).2, k.1.conn = s.conn := by
  rcases served_cases x.packet s with hclose | ⟨hopen, hdrop⟩ | ⟨hopen, hdata, hnew⟩
  · simp [serve_closing hclose]
  · simp [serve_left hopen hdrop]
  · simpa [serve_filed hopen hdata hnew] using processData_conn B x.env x.packet info.matchWay s

end CHandle

open CHandle

/-! ## The machine of one connection -/

/-- One call of `Process` as connection `c` sees it, `last` being the time of
`Init`. -/
def connStep (B : Boost) (last : Int) (c : Conn) (o : Option CSession) (x : Call) :
    Option CSession × List (CSession × Option Record) :=
  let q := sweepConn B x.env (sweepReach last x.env) o
  match x.info with
  | none => q
  | some info =>
    if x.packet.conn = c then
      let r := serve B x info (opened x info q.1)
      (r.1, q.2 ++ r.2)
    else q

/-- The machine of connection `c`. -/
def connMachine (B : Boost) (last : Int) (c : Conn) :
    Machine (Option CSession) Call (CSession × Option Record) where
  step o x := connStep B last c o x

theorem filterMap_obsConn_self {c : Conn} {l : List (CSession × Option Record)} {a : Nat}
    (h : ∀ k ∈ l, k.1.conn = c) :
    (l.map fun k => (⟨a, k.1, k.2⟩ : ParseCall)).filterMap (obsConn c) = l := by
  rw [List.filterMap_map]
  refine (List.filterMap_congr fun k hk => ?_).trans (List.filterMap_some ..)
  simp [obsConn, h k hk]

theorem filterMap_obsConn_other {c : Conn} {l : List (CSession × Option Record)} {a : Nat}
    (h : ∀ k ∈ l, k.1.conn ≠ c) :
    (l.map fun k => (⟨a, k.1, k.2⟩ : ParseCall)).filterMap (obsConn c) = [] := by
  rw [List.filterMap_map, List.filterMap_eq_nil_iff]
  intro k hk
  simp [obsConn, h k hk]

namespace CHandle

/-! ## One call of `Process` -/

/-- What the part of `Process` after the sweep leaves in the table: `o` for
connection `c`, and everything else as it was. -/
structure Settles (t t' : CSessionHashTable) (c : Conn) (o : Option CSession) : Prop where
  wf : t'.WF
  self : t'.session c = o
  other : ∀ c', c ≠ c' → t'.session c' = t.session c'

/-- Storing through the pointer of the opened session settles what is stored. -/
theorem Opens.settles_set {t t' : CSessionHashTable} {a : Nat} {x : Call}
    {info : CSharedBehaviorInfo} (h : Opens t t' a x info) {s : CSession}
    (hs : s.conn = (t'.ses a).conn) : Settles t (t'.set a s) x.packet.conn (some s) := by
  have hkey : (t'.ses a).conn = x.packet.conn := CSessionHashTable.key_of_lookup h.lookup_self
  refine ⟨h.wf.set hs, CSessionHashTable.session_set_self hs h.lookup_self, fun c' hc => ?_⟩
  rw [CSessionHashTable.session_set_of_ne hs (by rwa [hkey]), h.session_other c' hc]

/-- Leaving the opened session as it is settles it. -/
theorem Opens.settles {t t' : CSessionHashTable} {a : Nat} {x : Call}
    {info : CSharedBehaviorInfo} (h : Opens t t' a x info) :
    Settles t t' x.packet.conn (some (t'.ses a)) :=
  ⟨h.wf, CSessionHashTable.session_of_lookup h.lookup_self, h.session_other⟩

/-- Storing and then removing leaves no session. -/
theorem Opens.settles_remove {t t' : CSessionHashTable} {a : Nat} {x : Call}
    {info : CSharedBehaviorInfo} (h : Opens t t' a x info) {s : CSession}
    (hs : s.conn = (t'.ses a).conn) :
    Settles t ((t'.set a s).remove x.packet.srcIp x.packet.dstIp x.packet.srcPort
      x.packet.dstPort) x.packet.conn none := by
  have hset := h.settles_set hs
  refine ⟨hset.wf.remove (a := x.packet.src) (b := x.packet.dst), ?_, fun c' hc => ?_⟩
  · exact CSessionHashTable.session_eq_none_iff.mpr
      (hset.wf.lookup_remove_self (a := x.packet.src) (b := x.packet.dst))
  · rw [← hset.other c' hc]
    exact hset.wf.session_remove_of_ne (a := x.packet.src) (b := x.packet.dst) hc

/-- **What `Process` does after the sweep**, in the three cases of the tests: `fc` is the table
and the pointer that it goes on with. -/
theorem process_table (B : Boost) (h : CHandle) {x : Call} {info : CSharedBehaviorInfo}
    (hinfo : x.info = some info) :
    let sw := h.timeOutCheck B x.env
    let fc := findOrCreate sw.1.sesHash x info
    let s := fc.1.ses fc.2
    let r := parse B x.env.parse s
    let t := (fc.1.set fc.2 r.1).remove x.packet.srcIp x.packet.dstIp x.packet.srcPort
      x.packet.dstPort
    let q := processData B x.env x.packet info.matchWay s
    (x.packet.closes = true →
      h.process B x = ⟨{ sw.1 with sesHash := t }, none, sw.2 ++ [⟨fc.2, s, r.2⟩]⟩) ∧
    (x.packet.closes = false → x.packet.dataLen = 0 ∨ repeated x.packet s = true →
      h.process B x = ⟨{ sw.1 with sesHash := fc.1 }, none, sw.2⟩) ∧
    (x.packet.closes = false → x.packet.dataLen ≠ 0 → repeated x.packet s = false →
      h.process B x = ⟨{ sw.1 with sesHash := fc.1.set fc.2 q.ses },
        if q.done then some fc.2 else none, sw.2 ++ q.calls.map fun c => ⟨fc.2, c.1, c.2⟩⟩) := by
  intro sw fc s r t q
  unfold process
  simp only [hinfo]
  refine ⟨fun hclose => ?_, fun hopen hdrop => ?_, fun hopen hdata hnew => ?_⟩
  · rw [if_pos hclose]
  · rw [if_neg (Bool.eq_false_iff.mp hopen)]
    rcases hdrop with hzero | hrep
    · rw [if_pos hzero, ite_self]
    · rw [if_pos hrep]
  · rw [if_neg (Bool.eq_false_iff.mp hopen), if_neg (Bool.eq_false_iff.mp hnew), if_neg hdata]

/-- After the sweep, `Process` opens the session of the packet and serves it. -/
theorem process_serve (B : Boost) (h : CHandle) (x : Call) {info : CSharedBehaviorInfo}
    (hinfo : x.info = some info) (hw : (h.timeOutCheck B x.env).1.sesHash.WF) :
    let sw := h.timeOutCheck B x.env
    let r := serve B x info (opened x info (sw.1.sesHash.session x.packet.conn))
    (h.process B x).handle.lastTimeOutCheck = h.lastTimeOutCheck ∧
      Settles sw.1.sesHash (h.process B x).handle.sesHash x.packet.conn r.1 ∧
      ∃ a, (h.process B x).calls = sw.2 ++ r.2.map fun k => ⟨a, k.1, k.2⟩ := by
  intro sw r
  have hlast : sw.1.lastTimeOutCheck = h.lastTimeOutCheck := timeOutCheck_lastTimeOutCheck h
  have hopens := findOrCreate_opens hw x info
  have hr : r = serve B x info ((findOrCreate sw.1.sesHash x info).1.ses
      (findOrCreate sw.1.sesHash x info).2) := by
    rw [hopens.ses_self]
  obtain ⟨hclosing, hdropped, hfiled⟩ := process_table B h hinfo
  clear_value r
  subst hr
  generalize findOrCreate (h.timeOutCheck B x.env).1.sesHash x info = fc
    at hopens hclosing hdropped hfiled ⊢
  rcases served_cases x.packet (fc.1.ses fc.2) with
    hclose | ⟨hopen, hdrop⟩ | ⟨hopen, hdata, hnew⟩
  · rw [hclosing hclose, serve_closing hclose]
    refine ⟨hlast, hopens.settles_remove ?_, fc.2, rfl⟩
    rw [parse_fst, CSession.reset_conn]
  · rw [hdropped hopen hdrop, serve_left hopen hdrop]
    exact ⟨hlast, hopens.settles, fc.2, by simp [sw]⟩
  · rw [hfiled hopen hdata hnew, serve_filed hopen hdata hnew]
    exact ⟨hlast, hopens.settles_set (processData_conn ..).1, fc.2, rfl⟩

/-- **One call of `Process` is one step of the machine of every connection.**
The table invariant is kept. -/
theorem process_conn (B : Boost) {h : CHandle} (hw : h.sesHash.WF) (x : Call) :
    (h.process B x).handle.sesHash.WF ∧
      (h.process B x).handle.lastTimeOutCheck = h.lastTimeOutCheck ∧
      ∀ c, (h.process B x).handle.sesHash.session c =
          (connStep B h.lastTimeOutCheck c (h.sesHash.session c) x).1 ∧
        (h.process B x).calls.filterMap (obsConn c) =
          (connStep B h.lastTimeOutCheck c (h.sesHash.session c) x).2 := by
  have hsw : Swept B x.env h.sesHash (h.timeOutCheck B x.env).1.sesHash
      (h.timeOutCheck B x.env).2 0 (sweepReach h.lastTimeOutCheck x.env) :=
    timeOutCheck_swept hw
  have hses := hsw.session_eq hw
  have hcalls := hsw.calls_conn hw (sweepReach_le ..)
  cases hinfo : x.info with
  | none =>
    have hproc : h.process B x =
        ⟨(h.timeOutCheck B x.env).1, none, (h.timeOutCheck B x.env).2⟩ := by
      unfold process
      simp only [hinfo]
    have hstep : ∀ c, connStep B h.lastTimeOutCheck c (h.sesHash.session c) x =
        sweepConn B x.env (sweepReach h.lastTimeOutCheck x.env) (h.sesHash.session c) := by
      intro c
      unfold connStep
      simp only [hinfo]
    rw [hproc]
    refine ⟨hsw.wf hw, timeOutCheck_lastTimeOutCheck h, fun c => ?_⟩
    rw [hstep]
    exact ⟨hses c, hcalls c⟩
  | some info =>
    obtain ⟨hlast, hset, a, hout⟩ := process_serve B h x hinfo (hsw.wf hw)
    have hopened : (opened x info ((h.timeOutCheck B x.env).1.sesHash.session
        x.packet.conn)).conn = x.packet.conn :=
      opened_conn x info fun _ hs => CSessionHashTable.conn_of_session hs
    refine ⟨hset.wf, hlast, fun c => ?_⟩
    rw [hout, List.filterMap_append, hcalls c]
    unfold connStep
    simp only [hinfo, ← hses c]
    by_cases hc : x.packet.conn = c
    · subst hc
      rw [if_pos rfl, filterMap_obsConn_self fun k hk => (serve_conn.2 k hk).trans hopened]
      exact ⟨hset.self, rfl⟩
    · rw [if_neg hc, filterMap_obsConn_other fun k hk => by
        rwa [serve_conn.2 k hk, hopened], List.append_nil]
      exact ⟨(hset.other c hc).trans (hses c), rfl⟩

end CHandle

/-! ## The session a call works on -/

namespace CHandle

/-- The session `Process` works on: the one the sweep left, or a new one. -/
def meets (B : Boost) (h : CHandle) (x : Call) (info : CSharedBehaviorInfo) : CSession :=
  opened x info ((h.timeOutCheck B x.env).1.sesHash.session x.packet.conn)

/-- Serving that session is what `Process` does after the sweep. -/
theorem process_meets (B : Boost) {h : CHandle} (hw : h.sesHash.WF) {x : Call}
    {info : CSharedBehaviorInfo} (hinfo : x.info = some info) :
    Settles (h.timeOutCheck B x.env).1.sesHash (h.process B x).handle.sesHash x.packet.conn
        (serve B x info (h.meets B x info)).1 ∧
      ∃ a, (h.process B x).calls = (h.timeOutCheck B x.env).2 ++
        (serve B x info (h.meets B x info)).2.map fun k => ⟨a, k.1, k.2⟩ :=
  (process_serve B h x hinfo ((timeOutCheck_swept hw).wf hw)).2

/-- While no sweep is due, the session is the one of the table. -/
theorem meets_quiet {B : Boost} {h : CHandle} {x : Call}
    (hs : x.env.timeCheck - h.lastTimeOutCheck < timeoutCheckDur) (info : CSharedBehaviorInfo) :
    h.meets B x info = opened x info (h.sesHash.session x.packet.conn) := by
  have hsweep : h.sweeps x.env = false := by
    rw [← Bool.not_eq_true, sweeps_iff, not_not]
    exact hs
  rw [meets, timeOutCheck_of_not_sweeps hsweep]

end CHandle

/-- What is reachable from `Init` by calls of `Process`. -/
def Reachable (B : Boost) (h : CHandle) : Prop :=
  ∃ ses now xs, h = ((handleMachine B).run (CHandle.init ses now) xs).1

/-- **The table invariant holds in every reachable state.** -/
theorem Reachable.wf {B : Boost} {h : CHandle} (hr : Reachable B h) : h.sesHash.WF := by
  obtain ⟨ses, now, xs, rfl⟩ := hr
  refine (handleMachine B).run_invariant (I := fun h => h.sesHash.WF) (A := fun _ => True)
    (fun h x hw _ => (process_conn B hw x).1) xs _ (CSessionHashTable.wf_init ses) ?_
  intro _ _
  trivial

/-- No run moves the time of the last sweep. -/
theorem run_lastTimeOutCheck (B : Boost) {h : CHandle} (hw : h.sesHash.WF) (xs : List Call) :
    ((handleMachine B).run h xs).1.lastTimeOutCheck = h.lastTimeOutCheck :=
  ((handleMachine B).run_invariant
    (I := fun g => g.sesHash.WF ∧ g.lastTimeOutCheck = h.lastTimeOutCheck) (A := fun _ => True)
    (fun _ x ⟨hg, hl⟩ _ =>
      ⟨(process_conn B hg x).1, (process_conn B hg x).2.1.trans hl⟩)
    xs h ⟨hw, rfl⟩ fun _ _ => trivial).2

/-- **Every run of the handle is, for every connection, a run of its machine.** -/
theorem run_conn (B : Boost) {h : CHandle} (hw : h.sesHash.WF) (c : Conn) (xs : List Call) :
    ((handleMachine B).run h xs).1.sesHash.session c =
        ((connMachine B h.lastTimeOutCheck c).run (h.sesHash.session c) xs).1 ∧
      ((handleMachine B).run h xs).2.filterMap (obsConn c) =
        ((connMachine B h.lastTimeOutCheck c).run (h.sesHash.session c) xs).2 := by
  refine (handleMachine B).run_view (connMachine B h.lastTimeOutCheck c)
    (fun g => g.sesHash.session c) (obsConn c)
    (I := fun g => g.sesHash.WF ∧ g.lastTimeOutCheck = h.lastTimeOutCheck)
    (A := fun _ => True) ?_ ?_ ?_ xs h ⟨hw, rfl⟩ fun _ _ => trivial
  · rintro g x ⟨hg, hl⟩ -
    obtain ⟨hwf, hlast, -⟩ := process_conn B hg x
    exact ⟨hwf, hlast.trans hl⟩
  · rintro g x ⟨hg, hl⟩ -
    rw [← hl]
    exact ((process_conn B hg x).2.2 c).1
  · rintro g x ⟨hg, hl⟩ -
    rw [← hl]
    exact ((process_conn B hg x).2.2 c).2

/-- While no sweep is due, a packet of another connection is no step at all. -/
theorem connStep_of_other {B : Boost} {last : Int} {c : Conn} {x : Call}
    (hs : x.env.timeCheck - last < timeoutCheckDur) (hc : x.packet.conn ≠ c)
    (o : Option CSession) : connStep B last c o x = (o, []) := by
  unfold connStep sweepReach
  rw [if_pos hs, sweepConn_zero]
  cases x.info with
  | none => rfl
  | some info => simp only [if_neg hc]

end HttpDecoder
