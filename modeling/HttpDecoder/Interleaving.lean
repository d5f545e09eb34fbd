import HttpDecoder.CleanResult
import HttpDecoder.Exchange
import HttpDecoder.Report

/-!
# The connections of a file

All connections share one table, and those whose clients use the same port number share a file.
What a connection writes there does not hang on the others, nor on the order in which their
packets arrive.

* `Sessions`, `mapStep` — what the table stands for: a map from connections to sessions.
* `run_map` — **refinement**: while no sweep is due, the handle runs as the map does, its calls
  of `Parse` in the same order.
* `run_purged`, `run_reordered` — connections left out of a run of the map, and packets put in
  another order.
* `purged_file` — **the file of a port hangs on the connections of that port only**.
* `reordered_reports` — **the order of the connections does not matter** to sessions and files.
-/

namespace HttpDecoder

open CLib CHandle

/-! ## The table as a map -/

/-- A map from connections to sessions. -/
abbrev Sessions := Conn → Option CSession

/-- Every session is that of its connection. -/
def Sessions.Keyed (m : Sessions) : Prop := ∀ c, ∀ s ∈ m c, s.conn = c

/-- One call of `Process` on the map. -/
def mapStep (B : Boost) (m : Sessions) (x : Call) : Sessions × List (CSession × Option Record) :=
  match x.info with
  | none => (m, [])
  | some info =>
    let r := serve B x info (opened x info (m x.packet.conn))
    (Function.update m x.packet.conn r.1, r.2)

section MapStep

variable {B : Boost} {x : Call} (m : Sessions)

theorem mapStep_none (hinfo : x.info = none) : mapStep B m x = (m, []) := by
  unfold mapStep
  simp only [hinfo]

theorem mapStep_some {info : CSharedBehaviorInfo} (hinfo : x.info = some info) :
    (mapStep B m x).1 =
        Function.update m x.packet.conn (serve B x info (opened x info (m x.packet.conn))).1 ∧
      (mapStep B m x).2 = (serve B x info (opened x info (m x.packet.conn))).2 := by
  unfold mapStep
  simp only [hinfo]
  exact ⟨trivial, trivial⟩

end MapStep

/-- The map as a machine. -/
def mapMachine (B : Boost) : Machine Sessions Call (CSession × Option Record) where
  step := mapStep B

/-- What a call of `Parse` works on and sends. -/
def ParseCall.seen (k : ParseCall) : CSession × Option Record := (k.ses, k.sent)

/-- While no sweep is due, `Process` does what the map does. -/
theorem process_map (B : Boost) {h : CHandle} (hw : h.sesHash.WF) {x : Call}
    (hquiet : x.env.timeCheck - h.lastTimeOutCheck < timeoutCheckDur) :
    (h.process B x).handle.sesHash.session = (mapStep B h.sesHash.session x).1 ∧
      (h.process B x).calls.map ParseCall.seen = (mapStep B h.sesHash.session x).2 := by
  have hsweep : h.sweeps x.env = false := by
    rw [← Bool.not_eq_true, sweeps_iff, not_not]
    exact hquiet
  have htime : h.timeOutCheck B x.env = (h, []) := timeOutCheck_of_not_sweeps hsweep
  cases hinfo : x.info with
  | none =>
    rw [mapStep_none _ hinfo]
    unfold process
    simp only [hinfo, htime]
    exact ⟨trivial, rfl⟩
  | some info =>
    have hserve := process_serve B h x hinfo (by rw [htime]; exact hw)
    rw [htime] at hserve
    obtain ⟨-, hset, a, hcalls⟩ := hserve
    obtain ⟨hses, hout⟩ := mapStep_some (B := B) h.sesHash.session hinfo
    rw [hses, hout]
    constructor
    · funext c
      by_cases hc : x.packet.conn = c
      · subst hc
        rw [Function.update_self]
        exact hset.self
      · rw [Function.update_of_ne (Ne.symm hc)]
        exact hset.other c hc
    · rw [hcalls, List.nil_append, List.map_map]
      exact List.map_id _

/-- **While no sweep is due, the handle runs as the map does**: the same sessions, and the same
calls of `Parse` in the same order. -/
theorem run_map (B : Boost) {h : CHandle} (hw : h.sesHash.WF) (xs : List Call)
    (hquiet : ∀ x ∈ xs, x.env.timeCheck - h.lastTimeOutCheck < timeoutCheckDur) :
    ((handleMachine B).run h xs).1.sesHash.session =
        ((mapMachine B).run h.sesHash.session xs).1 ∧
      ((handleMachine B).run h xs).2.map ParseCall.seen =
        ((mapMachine B).run h.sesHash.session xs).2 := by
  have hmap : ∀ ks : List ParseCall,
      ks.filterMap (fun k => some k.seen) = ks.map ParseCall.seen := by
    intro ks
    rw [List.filterMap_eq_map']
  have hrun := (handleMachine B).run_view (mapMachine B) (fun g => g.sesHash.session)
    (fun k => some k.seen)
    (I := fun g => g.sesHash.WF ∧ g.lastTimeOutCheck = h.lastTimeOutCheck)
    (A := fun x => x.env.timeCheck - h.lastTimeOutCheck < timeoutCheckDur)
    (fun g x hg _ => ⟨(process_conn B hg.1 x).1, (process_conn B hg.1 x).2.1.trans hg.2⟩)
    (fun g x hg hx => (process_map B hg.1 (by rw [hg.2]; exact hx)).1)
    (fun g x hg hx => (hmap _).trans (process_map B hg.1 (by rw [hg.2]; exact hx)).2)
    xs h ⟨hw, rfl⟩ hquiet
  rw [hmap] at hrun
  exact hrun

/-! ## Runs of the map -/

/-- The sessions stay with their connections, and the calls are on that of the packet. -/
theorem mapStep_keyed (B : Boost) {m : Sessions} (hm : m.Keyed) (x : Call) :
    (mapStep B m x).1.Keyed ∧ ∀ k ∈ (mapStep B m x).2, k.1.conn = x.packet.conn := by
  cases hinfo : x.info with
  | none =>
    rw [mapStep_none _ hinfo]
    exact ⟨hm, fun k hk => absurd hk List.not_mem_nil⟩
  | some info =>
    obtain ⟨hstep, hout⟩ := mapStep_some (B := B) m hinfo
    rw [hstep, hout]
    have hopened := opened_conn x info (hm x.packet.conn)
    refine ⟨fun c s hs => ?_, fun k hk => (serve_conn.2 k hk).trans hopened⟩
    by_cases hc : c = x.packet.conn
    · subst hc
      rw [Function.update_self] at hs
      exact (serve_conn.1 s hs).trans hopened
    · rw [Function.update_of_ne hc] at hs
      exact hm c s hs

/-- The calls of a run are on connections of its packets. -/
theorem mapMachine_conn (B : Boost) {xs : List Call} : ∀ {m : Sessions}, m.Keyed →
    ∀ k ∈ ((mapMachine B).run m xs).2, ∃ x ∈ xs, k.1.conn = x.packet.conn := by
  induction xs with
  | nil => exact fun _ k hk => absurd hk List.not_mem_nil
  | cons x xs ih =>
    intro m hm k hk
    obtain ⟨hkeyed, hcalls⟩ := mapStep_keyed B hm x
    rw [Machine.run_cons] at hk
    rcases List.mem_append.mp hk with hk | hk
    · exact ⟨x, List.mem_cons_self, hcalls k hk⟩
    · obtain ⟨y, hy, hconn⟩ := ih hkeyed k hk
      exact ⟨y, List.mem_cons_of_mem _ hy, hconn⟩

/-- A call changes the session of its own connection only, and by what that session is. -/
theorem mapStep_apply (B : Boost) (m : Sessions) (x : Call) :
    (∀ c, c ≠ x.packet.conn → (mapStep B m x).1 c = m c) ∧
      ∀ m' : Sessions, m x.packet.conn = m' x.packet.conn →
        (mapStep B m x).1 x.packet.conn = (mapStep B m' x).1 x.packet.conn ∧
          (mapStep B m x).2 = (mapStep B m' x).2 := by
  cases hinfo : x.info with
  | none =>
    rw [mapStep_none _ hinfo]
    refine ⟨fun _ _ => rfl, fun m' h => ?_⟩
    rw [mapStep_none _ hinfo]
    exact ⟨h, rfl⟩
  | some info =>
    obtain ⟨hses, hout⟩ := mapStep_some (B := B) m hinfo
    rw [hses, hout]
    refine ⟨fun c hc => Function.update_of_ne hc _ _, fun m' h => ?_⟩
    obtain ⟨hses', hout'⟩ := mapStep_some (B := B) m' hinfo
    rw [hses', hout', Function.update_self, Function.update_self, h]
    exact ⟨rfl, rfl⟩

/-- Two maps with the same sessions for the connections that are kept. -/
structure Sessions.Agree (keep : Conn → Bool) (m m' : Sessions) : Prop where
  left : m.Keyed
  right : m'.Keyed
  same : ∀ c, keep c = true → m c = m' c

/-- A packet of a connection that is kept does the same in both. -/
theorem Sessions.Agree.step_kept (B : Boost) {keep : Conn → Bool} {m m' : Sessions}
    (h : m.Agree keep m') {x : Call} (hx : keep x.packet.conn = true) :
    (mapStep B m x).1.Agree keep (mapStep B m' x).1 ∧ (mapStep B m x).2 = (mapStep B m' x).2 := by
  obtain ⟨hown, hout⟩ := (mapStep_apply B m x).2 m' (h.same _ hx)
  refine ⟨⟨(mapStep_keyed B h.left x).1, (mapStep_keyed B h.right x).1, fun c hc => ?_⟩, hout⟩
  by_cases heq : c = x.packet.conn
  · subst heq
    exact hown
  · calc (mapStep B m x).1 c = m c := (mapStep_apply B m x).1 c heq
      _ = m' c := h.same c hc
      _ = (mapStep B m' x).1 c := ((mapStep_apply B m' x).1 c heq).symm

/-- One of any other connection does nothing to those that are kept. -/
theorem Sessions.Agree.step_purged (B : Boost) {keep : Conn → Bool} {m m' : Sessions}
    (h : m.Agree keep m') {x : Call} (hx : keep x.packet.conn = false) :
    (mapStep B m x).1.Agree keep m' ∧ ((mapStep B m x).2.filter fun k => keep k.1.conn) = [] := by
  obtain ⟨hkeyed, hconn⟩ := mapStep_keyed B h.left x
  refine ⟨⟨hkeyed, h.right, fun c hc => ?_⟩, List.filter_eq_nil_iff.mpr fun k hk => ?_⟩
  · have hne : c ≠ x.packet.conn := by
      rintro rfl
      rw [hx] at hc
      exact absurd hc (by simp)
    exact ((mapStep_apply B m x).1 c hne).trans (h.same c hc)
  · rw [hconn k hk, hx]
    simp

/-- **Connections can be left out** of a run of the map: neither the sessions of the others nor
the calls on them change. -/
theorem run_purged (B : Boost) (keep : Conn → Bool) (xs : List Call) {m : Sessions}
    (hm : m.Keyed) :
    (∀ c, keep c = true → ((mapMachine B).run m xs).1 c =
        ((mapMachine B).run m (xs.filter fun x => keep x.packet.conn)).1 c) ∧
      (((mapMachine B).run m xs).2.filter fun k => keep k.1.conn) =
        ((mapMachine B).run m (xs.filter fun x => keep x.packet.conn)).2.filter
          fun k => keep k.1.conn := by
  obtain ⟨hagree, hcalls⟩ := (mapMachine B).run_purge (fun x => keep x.packet.conn)
    (fun k => keep k.1.conn) (R := Sessions.Agree keep) (A := fun _ => True)
    (fun _ _ _ h _ hx => ⟨(h.step_kept B hx).1, congrArg _ (h.step_kept B hx).2⟩)
    (fun _ _ _ h _ hx => h.step_purged B hx) xs m m ⟨hm, hm, fun _ _ => rfl⟩ fun _ _ => trivial
  exact ⟨hagree.same, hcalls⟩

/-- **Packets of different connections may change places**: the sessions stay, and the calls of
every connection, in their order. -/
theorem run_reordered (B : Boost) {xs ys : List Call} (hsame : ∀ c, ofConn c xs = ofConn c ys)
    {m : Sessions} (hm : m.Keyed) :
    ((mapMachine B).run m xs).1 = ((mapMachine B).run m ys).1 ∧
      ∀ c, (((mapMachine B).run m xs).2.filter fun k => k.1.conn = c) =
        ((mapMachine B).run m ys).2.filter fun k => k.1.conn = c := by
  have hpurge : ∀ c, ((mapMachine B).run m xs).1 c = ((mapMachine B).run m ys).1 c ∧
      (((mapMachine B).run m xs).2.filter fun k => k.1.conn = c) =
        ((mapMachine B).run m ys).2.filter fun k => k.1.conn = c := by
    intro c
    obtain ⟨hses, hcalls⟩ := run_purged B (fun c' => decide (c' = c)) xs hm
    obtain ⟨hses', hcalls'⟩ := run_purged B (fun c' => decide (c' = c)) ys hm
    rw [show (xs.filter fun x => decide (x.packet.conn = c)) = ofConn c ys from hsame c]
      at hses hcalls
    exact ⟨(hses c (by simp)).trans (hses' c (by simp)).symm, hcalls.trans hcalls'.symm⟩
  exact ⟨funext fun c => (hpurge c).1, fun c => (hpurge c).2⟩

/-! ## The files -/

/-- The records some calls send to the file of a port. -/
def recordsTo (port : UInt16) (l : List (CSession × Option Record)) : List Record :=
  (l.filterMap Prod.snd).filter fun r => decide (r.client.port = port)

theorem sentTo_seen (port : UInt16) (ks : List ParseCall) :
    sentTo port ks = recordsTo port (ks.map ParseCall.seen) := by
  unfold sentTo sentBy recordsTo
  rw [List.filterMap_map]
  rfl

/-- A record names the ends of the session it was made of. -/
theorem ends_of_sent {B : Boost} {e : ParseEnv} {s : CSession} {r : Record}
    (h : (parse B e s).2 = some r) : r.client = s.client ∧ r.server = s.server := by
  unfold parse at h
  split at h
  · simp only at h
    split_ifs at h
    obtain rfl := Option.some.inj h
    exact ⟨rfl, rfl⟩
  · cases h

/-- One end of the connection uses the port. -/
def OnPort (port : UInt16) (c : Conn) : Prop := ∃ e ∈ c, e.port = port

@[simp] theorem onPort_mk {port : UInt16} {a b : Endpoint} :
    OnPort port s(a, b) ↔ a.port = port ∨ b.port = port := by
  simp [OnPort]

/-- The calls that send something to the file of a port are on connections of that port. -/
theorem onPort_of_sent {B : Boost} {k : CSession × Option Record} (h : CleanCall B k)
    {port : UInt16} {r : Record} (hr : k.2 = some r) (hport : r.client.port = port) :
    OnPort port k.1.conn := by
  obtain ⟨-, e, hsent⟩ := h
  obtain ⟨hclient, -⟩ := ends_of_sent (hsent.symm.trans hr)
  exact ⟨k.1.client, Sym2.mem_mk_right _ _, by rw [← hclient, hport]⟩

/-- Calls that send nothing to the file of a port can be left out. -/
theorem recordsTo_filter {port : UInt16} (q : CSession × Option Record → Bool)
    {l : List (CSession × Option Record)}
    (h : ∀ k ∈ l, ∀ r, k.2 = some r → r.client.port = port → q k = true) :
    recordsTo port (l.filter q) = recordsTo port l := by
  unfold recordsTo
  induction l with
  | nil => rfl
  | cons k l ih =>
    have hl := ih fun k' hk' => h k' (List.mem_cons_of_mem _ hk')
    cases hq : q k with
    | true =>
      rw [List.filter_cons_of_pos hq]
      cases hk : k.2 with
      | none => rw [List.filterMap_cons_none hk, List.filterMap_cons_none hk, hl]
      | some r =>
        rw [List.filterMap_cons_some hk, List.filterMap_cons_some hk, List.filter_cons,
          List.filter_cons, hl]
    | false =>
      rw [List.filter_cons_of_neg (by simp [hq]), hl]
      cases hk : k.2 with
      | none => rw [List.filterMap_cons_none hk]
      | some r =>
        have hport : r.client.port ≠ port := by
          intro hport
          rw [h k List.mem_cons_self r hk hport] at hq
          exact absurd hq (by simp)
        rw [List.filterMap_cons_some hk, List.filter_cons_of_neg (by simpa using hport)]

section Files

variable {B : Boost} {ses ses' : Nat → CSession} {now now' : Int} {xs ys : List Call}

/-- The calls of a run from `Init`, as those of the map. -/
theorem init_map (B : Boost) (ses : Nat → CSession) {now : Int} {xs : List Call}
    (hquiet : ∀ x ∈ xs, x.env.timeCheck - now < timeoutCheckDur) :
    ((handleMachine B).run (init ses now) xs).1.sesHash.session =
        ((mapMachine B).run (fun _ => none) xs).1 ∧
      ((handleMachine B).run (init ses now) xs).2.map ParseCall.seen =
        ((mapMachine B).run (fun _ => none) xs).2 :=
  run_map B (h := init ses now) (CSessionHashTable.wf_init ses) xs hquiet

theorem keyed_none : Sessions.Keyed fun _ => none := fun _ s hs => absurd hs (Option.not_mem_none s)

/-- What a run of the map sends to a file comes from connections of the port. -/
theorem recordsTo_keep (keep : Conn → Bool) {port : UInt16}
    (hquiet : ∀ x ∈ xs, x.env.timeCheck - now < timeoutCheckDur)
    (hkeep : ∀ x ∈ xs, OnPort port x.packet.conn → keep x.packet.conn = true) :
    recordsTo port (((mapMachine B).run (fun _ => none) xs).2.filter fun k => keep k.1.conn) =
      recordsTo port ((mapMachine B).run (fun _ => none) xs).2 := by
  refine recordsTo_filter _ fun k hk r hr hport => ?_
  obtain ⟨x, hx, hconn⟩ := mapMachine_conn B keyed_none k hk
  rw [← (init_map B blankSes hquiet).2] at hk
  obtain ⟨call, hcall, rfl⟩ := List.mem_map.mp hk
  have hon : OnPort port call.seen.1.conn :=
    onPort_of_sent (cleanCall_run B blankSes now xs hcall) hr hport
  rw [hconn] at hon ⊢
  exact hkeep x hx hon

/-- **The file of a port hangs on the connections of that port only.**  From `Init` on and while
no sweep is due, take the packets of any connections out of a run, as long as no end of these
connections uses the port: the file of the port holds the same bytes in the end, in the same
order, however many connections write to it. -/
theorem purged_file (keep : Conn → Bool) {port : UInt16}
    (hquiet : ∀ x ∈ xs, x.env.timeCheck - now < timeoutCheckDur)
    (hkeep : ∀ x ∈ xs, OnPort port x.packet.conn → keep x.packet.conn = true) (d : Files) :
    disk d ((handleMachine B).run (init ses now) xs).2 (fileName port) =
      disk d ((handleMachine B).run (init ses' now)
        (xs.filter fun x => keep x.packet.conn)).2 (fileName port) := by
  have hquiet' : ∀ x ∈ xs.filter fun x => keep x.packet.conn,
      x.env.timeCheck - now < timeoutCheckDur :=
    fun x hx => hquiet x (List.mem_of_mem_filter hx)
  have hkeep' : ∀ x ∈ xs.filter fun x => keep x.packet.conn,
      OnPort port x.packet.conn → keep x.packet.conn = true :=
    fun x hx => hkeep x (List.mem_of_mem_filter hx)
  rw [disk_file, disk_file, sentTo_seen, sentTo_seen, (init_map B ses hquiet).2,
    (init_map B ses' hquiet').2, ← recordsTo_keep keep hquiet hkeep,
    ← recordsTo_keep keep hquiet' hkeep', (run_purged B keep xs keyed_none).2]

/-- **The order of the connections does not matter.**  Two runs from `Init` in which every
connection sees the same packets in the same order, while no sweep is due, leave the same
sessions and send the same records to every file, those of one connection in the same order; a
file that one connection writes holds the same bytes. -/
theorem reordered_reports (hquiet : ∀ x ∈ xs, x.env.timeCheck - now < timeoutCheckDur)
    (hquiet' : ∀ y ∈ ys, y.env.timeCheck - now' < timeoutCheckDur)
    (hsame : ∀ c, ofConn c xs = ofConn c ys) :
    let r := (handleMachine B).run (init ses now) xs
    let r' := (handleMachine B).run (init ses' now') ys
    (∀ c, r.1.sesHash.session c = r'.1.sesHash.session c) ∧
      ∀ port, (sentTo port r.2).Perm (sentTo port r'.2) ∧
        ∀ c, (∀ x ∈ xs, OnPort port x.packet.conn → x.packet.conn = c) → ∀ d,
          disk d r.2 (fileName port) = disk d r'.2 (fileName port) := by
  intro r r'
  obtain ⟨hses, hcalls⟩ := init_map B ses hquiet
  obtain ⟨hses', hcalls'⟩ := init_map B ses' hquiet'
  obtain ⟨hsame₁, hsame₂⟩ := run_reordered B hsame keyed_none
  refine ⟨fun c => ?_, fun port => ⟨?_, fun c hone d => ?_⟩⟩
  · rw [show r.1.sesHash.session = _ from hses, show r'.1.sesHash.session = _ from hses', hsame₁]
  · have hperm := KeyedList.perm_of_filter_eq
      (fun k : CSession × Option Record => k.1.conn) hsame₂
    rw [sentTo_seen, sentTo_seen, show r.2.map ParseCall.seen = _ from hcalls,
      show r'.2.map ParseCall.seen = _ from hcalls']
    exact (hperm.filterMap _).filter _
  · have hone' : ∀ y ∈ ys, OnPort port y.packet.conn → y.packet.conn = c := by
      intro y hy hon
      have hmem : y ∈ ofConn y.packet.conn xs := by
        rw [hsame]
        exact List.mem_filter.mpr ⟨hy, by simp⟩
      exact hone y (List.mem_of_mem_filter hmem) hon
    rw [disk_file, disk_file, sentTo_seen, sentTo_seen, show r.2.map ParseCall.seen = _ from hcalls,
      show r'.2.map ParseCall.seen = _ from hcalls',
      ← recordsTo_keep (fun c' => decide (c' = c)) hquiet (by simpa using hone),
      ← recordsTo_keep (fun c' => decide (c' = c)) hquiet' (by simpa using hone'), hsame₂ c]

end Files

/-- A packet of a second client, which uses another port. -/
def strayCall : Call := sends ⟨3, 1001⟩ ⟨2, 80⟩ 6 [71] false

/-- The packets of the exchange of the first client. -/
def exchangeCalls : List Call := (sampleFull ++ [sampleFin]).map Arrival.call

theorem exchangeCalls_conn : ∀ x ∈ exchangeCalls, x.packet.conn = s(⟨1, 1000⟩, ⟨2, 80⟩) := by
  simp [exchangeCalls, sampleFull, sampleFin, arrival, Sym2.eq_swap]

theorem exchangeCalls_quiet : ∀ x ∈ exchangeCalls, x.env.timeCheck - 0 < timeoutCheckDur := by
  simp [exchangeCalls, sampleFull, sampleFin, arrival, Env.granting, timeoutCheckDur]

theorem strayCall_conn : strayCall.packet.conn = s(⟨3, 1001⟩, ⟨2, 80⟩) := segment_conn ..

theorem strayCall_quiet : strayCall.env.timeCheck - 0 < timeoutCheckDur := by decide

theorem purged_file_stray :
    disk (fun _ => []) ((handleMachine Boost.decimal).run (init blankSes 0)
        (strayCall :: exchangeCalls)).2 (fileName 1000) =
      disk (fun _ => []) ((handleMachine Boost.decimal).run (init blankSes 0)
        ((strayCall :: exchangeCalls).filter fun x =>
          decide (x.packet.conn = s(⟨1, 1000⟩, ⟨2, 80⟩)))).2 (fileName 1000) := by
  refine purged_file (fun c => decide (c = s(⟨1, 1000⟩, ⟨2, 80⟩)))
    (List.forall_mem_cons.mpr ⟨strayCall_quiet, exchangeCalls_quiet⟩)
    (List.forall_mem_cons.mpr ⟨?_, fun x hx _ => by simpa using exchangeCalls_conn x hx⟩) _
  rw [strayCall_conn, onPort_mk]
  decide

theorem reordered_reports_stray :
    disk (fun _ => []) ((handleMachine Boost.decimal).run (init blankSes 0)
        (strayCall :: exchangeCalls)).2 (fileName 1000) =
      disk (fun _ => []) ((handleMachine Boost.decimal).run (init blankSes 0)
        (exchangeCalls ++ [strayCall])).2 (fileName 1000) := by
  have hquiet : ∀ x ∈ strayCall :: exchangeCalls, x.env.timeCheck - 0 < timeoutCheckDur :=
    List.forall_mem_cons.mpr ⟨strayCall_quiet, exchangeCalls_quiet⟩
  refine ((reordered_reports hquiet (fun y hy => hquiet y ?_) fun c => ?_).2 1000).2
    s(⟨1, 1000⟩, ⟨2, 80⟩) (List.forall_mem_cons.mpr ⟨?_, fun x hx _ => exchangeCalls_conn x hx⟩) _
  · rcases List.mem_append.mp hy with hy | hy
    · exact List.mem_cons_of_mem _ hy
    · exact List.mem_singleton.mp hy ▸ List.mem_cons_self
  · by_cases hc : strayCall.packet.conn = c
    · have hnone : ofConn c exchangeCalls = [] := by
        refine List.filter_eq_nil_iff.mpr fun x hx => ?_
        rw [exchangeCalls_conn x hx, ← hc, strayCall_conn]
        decide
      rw [ofConn, ofConn, List.filter_append, List.filter_cons,
        show exchangeCalls.filter _ = [] from hnone]
      simp [hc]
    · simp [ofConn, hc]
  · rw [strayCall_conn, onPort_mk]
    decide

end HttpDecoder
