import HttpDecoder.Expiry
import HttpDecoder.Isolation

/-!
# Sessions with recent packets

`Create` stores the clock in `RefreshTime` as it is.  `Find` reads it into a `uint32_t` first,
and the sweep subtracts what is stored from the whole clock.

* `Touch` — a packet that `Find` or `Create` got a session for; `touches` lists those of a
  run.
* `Touch.refresh` — what `RefreshTime` is set to.
* `refreshed_run` — **in every reachable state a session shows its last touch**.
* `Spares` — the sweep leaves a session alone that was touched a moment ago.
* `spares_iff` — **it does exactly if the last packet was not found after the clock had left
  32 bits**, of the sessions it looks at.
-/

namespace HttpDecoder

open CHandle

/-! ## Touches -/

/-- A packet that `Process` gets a session for. -/
structure Touch where
  conn : Conn
  /-- What `time(0)` answers in the function that returns the session. -/
  time : Int
  /-- That is `Find`; otherwise it is `Create`. -/
  found : Bool
deriving DecidableEq

/-- What is stored in `RefreshTime`: `Find` has the time in a `uint32_t`. -/
def Touch.refresh (k : Touch) : Int := if k.found then k.time % 2 ^ 32 else k.time

/-- Cutting off the upper bits of a time makes it earlier by an interval of `2 ^ 32` seconds. -/
theorem Touch.refresh_le {k : Touch} (hfound : k.found = true) (hlate : 2 ^ 32 ≤ k.time) :
    k.refresh ≤ k.time - 2 ^ 32 := by
  rw [Touch.refresh, if_pos hfound]
  omega

/-- A time that has none is not made earlier. -/
theorem Touch.le_refresh {k : Touch} (h : k.found = true → k.time < 2 ^ 32) :
    k.time ≤ k.refresh := by
  unfold Touch.refresh
  split_ifs with hfound
  · have hlt := h hfound
    omega
  · exact le_refl _

/-- What a call touches: nothing if `pInfo` is `NULL`. -/
def touch (B : Boost) (h : CHandle) (x : Call) : List Touch :=
  match x.info with
  | none => []
  | some _ =>
    let p := x.packet
    match ((h.timeOutCheck B x.env).1.sesHash.find x.env.timeFind p.srcIp p.dstIp p.srcPort
      p.dstPort).2 with
    | some _ => [⟨p.conn, x.env.timeFind, true⟩]
    | none => [⟨p.conn, x.env.timeCreate, false⟩]

/-- The handle as a machine that emits its touches. -/
def touchMachine (B : Boost) : Machine CHandle Call Touch where
  step h x := ((h.process B x).handle, touch B h x)

/-- The touches of a run. -/
def touches (B : Boost) (h : CHandle) (xs : List Call) : List Touch := ((touchMachine B).run h xs).2

/-- The last touch of a connection. -/
def lastTouch (ks : List Touch) (c : Conn) : Option Touch :=
  (ks.filter fun k => decide (k.conn = c)).getLast?

theorem lastTouch_concat_self (ks : List Touch) (k : Touch) :
    lastTouch (ks ++ [k]) k.conn = some k := by
  simp [lastTouch]

theorem lastTouch_concat_of_ne (ks : List Touch) {k : Touch} {c : Conn} (h : k.conn ≠ c) :
    lastTouch (ks ++ [k]) c = lastTouch ks c := by
  simp [lastTouch, h]

theorem mem_of_lastTouch {ks : List Touch} {c : Conn} {k : Touch} (h : lastTouch ks c = some k) :
    k ∈ ks ∧ k.conn = c := by
  have hk := List.mem_of_getLast? h
  rw [List.mem_filter, decide_eq_true_eq] at hk
  exact hk

/-- With a clock that does not go back, no touch of the connection is later than the last. -/
theorem time_le_lastTouch {ks : List Touch} (hclock : (ks.map Touch.time).Pairwise (· ≤ ·))
    {c : Conn} {k l : Touch} (hl : lastTouch ks c = some l) (hk : k ∈ ks) (hc : k.conn = c) :
    k.time ≤ l.time := by
  have hmem : k ∈ ks.filter fun k => decide (k.conn = c) :=
    List.mem_filter.mpr ⟨hk, decide_eq_true hc⟩
  have hsorted : (ks.filter fun k => decide (k.conn = c)).Pairwise fun k l => k.time ≤ l.time :=
    (List.pairwise_map.mp hclock).filter _
  obtain ⟨before, hsplit⟩ := List.getLast?_eq_some_iff.mp hl
  rw [hsplit] at hmem hsorted
  rcases List.mem_append.mp hmem with hk | hk
  · exact (List.pairwise_append.mp hsorted).2.2 k hk l (by simp)
  · rw [List.mem_singleton.mp hk]

/-! ## What a session shows of them -/

/-- Filing a packet does not refresh the session again: it looks at no clock value. -/
theorem processData_refreshTime (B : Boost) (e : Env) (p : CFormatPacket) (way : UInt32)
    (s : CSession) : (processData B e p way s).ses.refreshTime = s.refreshTime := by
  have hsame : s.setTimes s.createdTime s.refreshTime = s := rfl
  obtain ⟨hses, -⟩ :=
    processData_setTimes B (rfl : e.append = e.append) rfl p way s s.createdTime s.refreshTime
  rw [hsame] at hses
  rw [hses]
  rfl

/-- What the sweep keeps of a session has the refresh time of before. -/
theorem sweepConn_refreshTime (B : Boost) (e : Env) (reach : Nat) {s s' : CSession}
    (h : (sweepConn B e reach (some s)).1 = some s') : s'.refreshTime = s.refreshTime := by
  rcases sweepConn_cases B e reach s s' h with rfl | rfl
  · unfold sweptSes
    split
    · rw [parse_fst]
      rfl
    · rfl
  · rfl

theorem newSession_refreshTime (now : Int) (e : NewSession) (p : CFormatPacket)
    (info : CSharedBehaviorInfo) :
    (CSessionHashTable.newSession now e p info).refreshTime = now := by
  unfold CSessionHashTable.newSession
  simp only [apply_ite CSession.refreshTime, ite_self]

/-- What serving a packet leaves has the refresh time it was opened with. -/
theorem serve_refreshTime (B : Boost) (x : Call) (info : CSharedBehaviorInfo) {s s' : CSession}
    (h : (serve B x info s).1 = some s') : s'.refreshTime = s.refreshTime := by
  rcases serve_cases B x info s s' h with rfl | rfl
  · rfl
  · exact processData_refreshTime B x.env x.packet info.matchWay s

/-- Every session of the table shows its last touch. -/
def Refreshed (ks : List Touch) (t : CSessionHashTable) : Prop :=
  ∀ c s, t.session c = some s → ∃ k, lastTouch ks c = some k ∧ s.refreshTime = k.refresh

variable {B : Boost} {h : CHandle}

/-- The touch of a call, from what the sweep leaves. -/
theorem touch_eq (x : Call) {info : CSharedBehaviorInfo} (hinfo : x.info = some info) :
    touch B h x = match (h.timeOutCheck B x.env).1.sesHash.session x.packet.conn with
      | some _ => [⟨x.packet.conn, x.env.timeFind, true⟩]
      | none => [⟨x.packet.conn, x.env.timeCreate, false⟩] := by
  have hfind : ((h.timeOutCheck B x.env).1.sesHash.find x.env.timeFind x.packet.srcIp
      x.packet.dstIp x.packet.srcPort x.packet.dstPort).2 =
      (h.timeOutCheck B x.env).1.sesHash.lookup x.packet.conn :=
    CSessionHashTable.find_snd x.env.timeFind x.packet.src x.packet.dst
  unfold touch
  simp only [hinfo, hfind, CSessionHashTable.session]
  cases (h.timeOutCheck B x.env).1.sesHash.lookup x.packet.conn <;> rfl

/-- What the sweep keeps shows the last touch before it. -/
theorem Refreshed.swept {ks : List Touch} {t : CSessionHashTable} (hks : Refreshed ks t)
    (e : Env) (reach : Nat) (c : Conn) {s : CSession}
    (hs : (sweepConn B e reach (t.session c)).1 = some s) :
    ∃ k, lastTouch ks c = some k ∧ s.refreshTime = k.refresh := by
  cases hbefore : t.session c with
  | none =>
    rw [hbefore] at hs
    cases hs
  | some s₀ =>
    rw [hbefore] at hs
    obtain ⟨k, hk, hrefresh⟩ := hks c s₀ hbefore
    exact ⟨k, hk, (sweepConn_refreshTime B e _ hs).trans hrefresh⟩

/-- **One call**: the sessions show their last touch, also after it. -/
theorem Refreshed.step {ks : List Touch} (hks : Refreshed ks h.sesHash) (hw : h.sesHash.WF)
    (x : Call) : Refreshed (ks ++ touch B h x) (h.process B x).handle.sesHash := by
  intro c s' hs'
  obtain ⟨-, -, hconn⟩ := process_conn B hw x
  rw [(hconn c).1] at hs'
  unfold connStep at hs'
  cases hinfo : x.info with
  | none =>
    have hnone : touch B h x = [] := by
      unfold touch
      simp only [hinfo]
    simp only [hinfo] at hs'
    rw [hnone, List.append_nil]
    exact hks.swept x.env _ c hs'
  | some info =>
    simp only [hinfo] at hs'
    have hsession := (timeOutCheck_swept (B := B) (e := x.env) hw).session_eq hw
    by_cases hc : x.packet.conn = c
    · subst hc
      rw [if_pos rfl] at hs'
      have hrefresh := serve_refreshTime B x info hs'
      rw [touch_eq x hinfo, hsession]
      cases hkept : (sweepConn B x.env (sweepReach h.lastTimeOutCheck x.env)
          (h.sesHash.session x.packet.conn)).1 with
      | some s =>
        rw [hkept] at hrefresh
        exact ⟨_, lastTouch_concat_self ks _, hrefresh⟩
      | none =>
        rw [hkept] at hrefresh
        refine ⟨_, lastTouch_concat_self ks _, hrefresh.trans ?_⟩
        exact newSession_refreshTime ..
    · rw [if_neg hc] at hs'
      obtain ⟨k, hk, hrefresh⟩ := hks.swept x.env _ c hs'
      refine ⟨k, ?_, hrefresh⟩
      rw [touch_eq x hinfo]
      cases (h.timeOutCheck B x.env).1.sesHash.session x.packet.conn with
      | some _ => exact (lastTouch_concat_of_ne ks hc).trans hk
      | none => exact (lastTouch_concat_of_ne ks hc).trans hk

/-- **In every reachable state a session shows its last touch.** -/
theorem refreshed_run {ks : List Touch} (hks : Refreshed ks h.sesHash) (hw : h.sesHash.WF)
    (xs : List Call) :
    Refreshed (ks ++ touches B h xs) ((handleMachine B).run h xs).1.sesHash := by
  induction xs generalizing h ks with
  | nil =>
    rw [show touches B h [] = [] from rfl, List.append_nil]
    exact hks
  | cons x xs ih =>
    have hsplit : touches B h (x :: xs) =
        touch B h x ++ touches B (h.process B x).handle xs := rfl
    rw [hsplit, ← List.append_assoc]
    exact ih (hks.step hw x) (process_conn B hw x).1

theorem refreshed_init (ses : Nat → CSession) (now : Int) :
    Refreshed [] (init ses now).sesHash := by
  intro c s hs
  rw [show (init ses now).sesHash = CSessionHashTable.init ses from rfl,
    CSessionHashTable.session_init] at hs
  cases hs

/-! ## What the sweep does to it -/

/-- The sweep leaves a connection alone that had a packet at `time`. -/
structure Spares (B : Boost) (h : CHandle) (e : Env) (c : Conn) (time : Int) : Prop where
  /-- Before `TIMEOUT` seconds are over its session stays. -/
  kept : e.timeCheck - time < timeout →
    ∃ s, (h.timeOutCheck B e).1.sesHash.session c = some s
  /-- For a minute it is not parsed either. -/
  unparsed : e.timeCheck - time ≤ 60 → ∀ k ∈ (h.timeOutCheck B e).2, k.ses.conn ≠ c

theorem filterMap_obsConn_eq_nil {c : Conn} {calls : List ParseCall} :
    calls.filterMap (obsConn c) = [] ↔ ∀ k ∈ calls, k.ses.conn ≠ c := by
  rw [List.filterMap_eq_nil_iff]
  refine forall₂_congr fun k _ => ?_
  unfold obsConn
  by_cases hk : k.ses.conn = c <;> simp [hk]

/-- The sweep reaches the buckets below the last one, when it is due. -/
theorem lt_sweepReach_iff {e : Env} (c : Conn) :
    (hashConn c).toNat < sweepReach h.lastTimeOutCheck e ↔
      h.sweeps e = true ∧ hashConn c ≠ 65535 := by
  have hlt := (hashConn c).toNat_lt
  have hne : hashConn c ≠ 65535 ↔ (hashConn c).toNat ≠ 65535 := UInt16.toNat_inj.symm.not
  rw [sweeps_iff, hne]
  unfold sweepReach
  by_cases hdue : e.timeCheck - h.lastTimeOutCheck < timeoutCheckDur
  · simp [hdue]
  · rw [if_neg hdue]
    simp only [hdue, not_false_eq_true, true_and]
    omega

variable {e : Env} {c : Conn} {s : CSession}

/-- A session that is not reached is spared. -/
theorem spares_of_not_reached (hw : h.sesHash.WF) (hs : h.sesHash.session c = some s)
    (hreach : ¬ (h.sweeps e = true ∧ hashConn c ≠ 65535)) (time : Int) :
    Spares B h e c time := by
  have hsw := timeOutCheck_swept (B := B) (e := e) hw
  have hconn : s.conn = c := CSessionHashTable.conn_of_session hs
  have hout : sweepConn B e (sweepReach h.lastTimeOutCheck e) (some s) = (some s, []) := by
    rw [sweepConn, hconn, if_neg (mt (lt_sweepReach_iff c).mp hreach)]
  constructor
  · intro _
    exact ⟨s, by rw [hsw.session_eq hw, hs, hout]⟩
  · intro _
    rw [← filterMap_obsConn_eq_nil, hsw.calls_conn hw (sweepReach_le ..), hs, hout]

/-- A session that is reached is spared if what it shows is no more than its age. -/
theorem spares_of_reached (hw : h.sesHash.WF) (hs : h.sesHash.session c = some s)
    (hreach : h.sweeps e = true ∧ hashConn c ≠ 65535) {time : Int}
    (hkept : e.timeCheck - time < timeout → e.timeCheck - s.refreshTime < timeout)
    (hquiet : e.timeCheck - time ≤ 60 → e.timeCheck - s.refreshTime ≤ 60) :
    Spares B h e c time := by
  have hsw := timeOutCheck_swept (B := B) (e := e) hw
  have hconn : s.conn = c := CSessionHashTable.conn_of_session hs
  have hin := (lt_sweepReach_iff c).mpr hreach
  constructor
  · intro hrecent
    have hlive : sweepExpires e.timeCheck s = false := decide_eq_false (not_le.mpr (hkept hrecent))
    refine ⟨sweptSes B e s, ?_⟩
    rw [hsw.session_eq hw, hs, sweepConn, hconn, if_pos hin, hlive]
    rfl
  · intro hrecent
    have hidle : sweepParses e.timeCheck s = false := by
      rw [sweepParses, decide_eq_false (not_lt.mpr (hquiet hrecent)), Bool.and_false]
    rw [← filterMap_obsConn_eq_nil, hsw.calls_conn hw (sweepReach_le ..), hs, sweepConn, hconn,
      if_pos hin, hidle]
    rfl

/-- A session that is reached and shows too old a time is erased. -/
theorem session_none_of_reached (hw : h.sesHash.WF) (hs : h.sesHash.session c = some s)
    (hreach : h.sweeps e = true ∧ hashConn c ≠ 65535)
    (hold : timeout ≤ e.timeCheck - s.refreshTime) :
    (h.timeOutCheck B e).1.sesHash.session c = none := by
  have hsw := timeOutCheck_swept (B := B) (e := e) hw
  have hconn : s.conn = c := CSessionHashTable.conn_of_session hs
  have hexpired : sweepExpires e.timeCheck s = true := decide_eq_true hold
  rw [hsw.session_eq hw, hs, sweepConn, hconn, if_pos ((lt_sweepReach_iff c).mpr hreach), hexpired]
  rfl

/-- **When the sweep spares the sessions with recent packets.**  For every run, session and
sweep, with a clock that does not go back: exactly if the sweep does not look at the session,
or its last packet is old, made it, or was found while the clock fitted in 32 bits. -/
theorem spares_iff {ses : Nat → CSession} {now : Int} {xs : List Call}
    (hs : ((handleMachine B).run (init ses now) xs).1.sesHash.session c = some s)
    (hclock : ((touches B (init ses now) xs).map Touch.time ++ [e.timeCheck]).Pairwise (· ≤ ·)) :
    (∀ k ∈ touches B (init ses now) xs, k.conn = c →
        Spares B ((handleMachine B).run (init ses now) xs).1 e c k.time) ↔
      (((handleMachine B).run (init ses now) xs).1.sweeps e = true → hashConn c ≠ 65535 →
        ∀ k, lastTouch (touches B (init ses now) xs) c = some k →
          e.timeCheck - k.time < timeout → k.found = true → k.time < 2 ^ 32) := by
  have hw : ((handleMachine B).run (init ses now) xs).1.sesHash.WF :=
    Reachable.wf ⟨ses, now, xs, rfl⟩
  have hshown := refreshed_run (refreshed_init ses now) (CSessionHashTable.wf_init ses) xs
    (B := B)
  rw [List.nil_append] at hshown
  generalize ((handleMachine B).run (init ses now) xs).1 = g at hs hw hshown ⊢
  generalize touches B (init ses now) xs = ks at hclock hshown ⊢
  obtain ⟨l, hl, hrefresh⟩ := hshown c s hs
  obtain ⟨hsorted, -, hlast⟩ := List.pairwise_append.mp hclock
  obtain ⟨hmem, hconn⟩ := mem_of_lastTouch hl
  have hnow : l.time ≤ e.timeCheck := hlast _ (List.mem_map_of_mem hmem) _ (by simp)
  constructor
  · intro hspares hdue hin k hk hrecent hfound
    obtain rfl : l = k := Option.some.inj (hl.symm.trans hk)
    by_contra hlate
    obtain ⟨s', hs'⟩ := (hspares l hmem hconn).kept hrecent
    rw [session_none_of_reached hw hs ⟨hdue, hin⟩] at hs'
    · cases hs'
    · have hle := Touch.refresh_le hfound (not_lt.mp hlate)
      rw [hrefresh, timeout]
      omega
  · intro hwidth k hk hkc
    by_cases hreach : g.sweeps e = true ∧ hashConn c ≠ 65535
    · have hle := time_le_lastTouch hsorted hl hk hkc
      -- what the session shows is not before its last packet
      have hshows : e.timeCheck - l.time < timeout → l.time ≤ s.refreshTime := by
        intro hrecent
        rw [hrefresh]
        exact Touch.le_refresh (hwidth hreach.1 hreach.2 l hl hrecent)
      simp only [timeout] at hshows
      apply spares_of_reached hw hs hreach
      · intro hrecent
        rw [timeout] at hrecent ⊢
        have := hshows (by omega)
        omega
      · intro hrecent
        have := hshows (by omega)
        omega
    · exact spares_of_not_reached hw hs hreach k.time

/-! ## A clock that has left 32 bits -/

/-- An environment at a given time. -/
def Env.clock (now : Int) : Env :=
  { Env.granting 0 with timeCheck := now, timeFind := now, timeCreate := now }

/-- Two packets of a connection, 100 seconds apart. -/
def atClock (now : Int) : List Call :=
  [{ sends ⟨1, 1000⟩ ⟨2, 80⟩ 1 [71] false with env := Env.clock now },
    { sends ⟨1, 1000⟩ ⟨2, 80⟩ 2 [71] false with env := Env.clock (now + 100) }]

/-- Their connection. -/
def clockConn : Conn := s(⟨1, 1000⟩, ⟨2, 80⟩)

/-- After the two packets, starting at `now`. -/
def afterClock (now : Int) : CHandle :=
  ((handleMachine Boost.decimal).run (init blankSes now) (atClock now)).1

theorem touches_atClock {now : Int} (hnow : now = 0 ∨ now = 2 ^ 32) :
    touches Boost.decimal (init blankSes now) (atClock now) =
      [⟨clockConn, now, false⟩, ⟨clockConn, now + 100, true⟩] := by
  rcases hnow with rfl | rfl <;> decide +kernel

theorem session_afterClock {now : Int} (hnow : now = 0 ∨ now = 2 ^ 32) :
    ((afterClock now).sesHash.session clockConn).map CSession.refreshTime = some 100 := by
  rcases hnow with rfl | rfl <;> decide +kernel

/-- Twenty seconds after the second packet a sweep spares the session. -/
theorem spares_iff_afterClock :
    Spares Boost.decimal (afterClock 0) (Env.clock 120) clockConn 100 := by
  obtain ⟨s, hs, -⟩ := Option.map_eq_some_iff.mp (session_afterClock (Or.inl rfl))
  have htouches := touches_atClock (Or.inl (rfl : (0 : Int) = 0))
  have hclock : ((touches Boost.decimal (init blankSes 0) (atClock 0)).map Touch.time ++
      [(Env.clock 120).timeCheck]).Pairwise (· ≤ ·) := by
    rw [htouches]
    decide +kernel
  refine (spares_iff hs hclock).mpr ?_ ⟨clockConn, 100, true⟩ ?_ rfl
  · intro _ _ k hk _ _
    have hmem := (mem_of_lastTouch hk).1
    rw [htouches] at hmem
    rcases List.mem_pair.mp hmem with rfl | rfl <;> decide +kernel
  · rw [htouches]
    simp

/-- The same at a later time: the session is erased. -/
theorem not_spares_afterClock :
    ¬ ∀ (B : Boost) (ses : Nat → CSession) (now : Int) (xs : List Call) (e : Env) (c : Conn)
        (s : CSession),
      ((handleMachine B).run (init ses now) xs).1.sesHash.session c = some s →
      ((touches B (init ses now) xs).map Touch.time ++ [e.timeCheck]).Pairwise (· ≤ ·) →
      ∀ k ∈ touches B (init ses now) xs, k.conn = c →
        Spares B ((handleMachine B).run (init ses now) xs).1 e c k.time := by
  intro h
  obtain ⟨s, hs, hrefresh⟩ := Option.map_eq_some_iff.mp (session_afterClock (Or.inr rfl))
  have htouches := touches_atClock (Or.inr (rfl : (2 ^ 32 : Int) = 2 ^ 32))
  have hclock : ((touches Boost.decimal (init blankSes (2 ^ 32)) (atClock (2 ^ 32))).map
      Touch.time ++ [(Env.clock (2 ^ 32 + 120)).timeCheck]).Pairwise (· ≤ ·) := by
    rw [htouches]
    decide +kernel
  have hwf : (afterClock (2 ^ 32)).sesHash.WF := Reachable.wf ⟨_, _, _, rfl⟩
  have hdue : (afterClock (2 ^ 32)).sweeps (Env.clock (2 ^ 32 + 120)) = true := by decide +kernel
  have hspares := h Boost.decimal blankSes (2 ^ 32) (atClock (2 ^ 32)) (Env.clock (2 ^ 32 + 120))
    clockConn s hs hclock ⟨clockConn, 2 ^ 32 + 100, true⟩ (by rw [htouches]; simp) rfl
  obtain ⟨s', hs'⟩ := hspares.kept (by decide)
  have hnone : ((afterClock (2 ^ 32)).timeOutCheck Boost.decimal
      (Env.clock (2 ^ 32 + 120))).1.sesHash.session clockConn = none := by
    apply session_none_of_reached hwf hs ⟨hdue, by decide +kernel⟩
    rw [hrefresh]
    decide
  exact absurd (hs'.symm.trans hnone) (by simp)

end HttpDecoder
