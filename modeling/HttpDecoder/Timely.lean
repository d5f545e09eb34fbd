import HttpDecoder.Conversations
import HttpDecoder.TimedFlow

/-!
# Conversations under the sweep

Once two minutes have passed every packet sweeps the whole table.  A connection whose packets come
at most a minute apart, up to its close, is not touched by it.

* `Prompt` — the next packet comes before the sweep would parse the session.
* `connStep_fresh` — a session that was refreshed within the last minute is left alone.
* `connMachine_prompt` — **the machine of such a connection runs as if there were no sweep**.
* `timely_report` — **hence its exchanges are reported, whatever sweeps are due**.
-/

namespace HttpDecoder

open CLib CHandle

/-- A session is not swept at `now` if it was refreshed at `t`. -/
def FreshAt (now t : Int) : Prop := now ≤ t + 60

/-- The packet `y` comes at most a minute after `x`, which has the time in a `uint32_t` if it is
looked up by `Find`. -/
structure Prompt (x y : Arrival) : Prop where
  /-- After `Find`. -/
  found : FreshAt y.env.timeCheck (x.env.timeFind % 2 ^ 32)
  /-- After `Create`. -/
  created : FreshAt y.env.timeCheck x.env.timeCreate

section Machine

variable {B : Boost} {last last' : Int} {c : Conn}

/-- The sweep leaves such a session alone. -/
theorem sweepConn_fresh {e : Env} {reach : Nat} {o : Option CSession}
    (h : ∀ s ∈ o, FreshAt e.timeCheck s.refreshTime) : sweepConn B e reach o = (o, []) := by
  cases o with
  | none => rfl
  | some s =>
    have hfresh : e.timeCheck ≤ s.refreshTime + 60 := h s rfl
    exact sweepConn_not_due B (due_of_recent fun _ => by omega)

/-- So a step does not hang on the time of `Init`. -/
theorem connStep_fresh {x : Call} {o : Option CSession}
    (h : ∀ s ∈ o, FreshAt x.env.timeCheck s.refreshTime) :
    connStep B last c o x = connStep B last' c o x := by
  unfold connStep
  rw [sweepConn_fresh h, sweepConn_fresh h]

/-- A packet of the connection refreshes what it leaves. -/
theorem connStep_refreshes {x : Arrival} {o : Option CSession} (hc : x.packet.conn = c)
    (h : ∀ s ∈ o, FreshAt x.env.timeCheck s.refreshTime) :
    ∀ s ∈ (connStep B last c o x.call).1, x.packet.closes = false ∧
      (s.refreshTime = x.env.timeFind % 2 ^ 32 ∨ s.refreshTime = x.env.timeCreate) := by
  intro s hs
  have hstep : connStep B last c o x.call =
      serve B x.call (behavior x.packet) (opened x.call (behavior x.packet) o) := by
    have hsweep : sweepConn B x.env (sweepReach last x.env) o = (o, []) := sweepConn_fresh h
    unfold connStep
    rw [show x.call.env = x.env from rfl, hsweep]
    exact if_pos hc
  rw [hstep] at hs
  have hopen : x.packet.closes = false := by
    by_contra hclose
    rw [serve_closing (x := x.call) (Bool.not_eq_false _ ▸ hclose)] at hs
    exact absurd hs (Option.not_mem_none s)
  refine ⟨hopen, ?_⟩
  rw [serve_refreshTime B x.call _ hs]
  cases o with
  | none => exact Or.inr (newSession_refreshTime ..)
  | some s₀ => exact Or.inl rfl

/-- A packet of another connection leaves the session. -/
theorem connStep_other {x : Arrival} {o : Option CSession} (hc : x.packet.conn ≠ c)
    (h : ∀ s ∈ o, FreshAt x.env.timeCheck s.refreshTime) :
    connStep B last c o x.call = (o, []) := by
  have hsweep : sweepConn B x.env (sweepReach last x.env) o = (o, []) := sweepConn_fresh h
  unfold connStep
  rw [show x.call.env = x.env from rfl, hsweep]
  exact if_neg hc

/-- **A connection whose packets come promptly, up to its close, runs as if there were no sweep**,
whatever the packets of others set off in between. -/
theorem connMachine_prompt {xs : List Arrival}
    (hclock : xs.Pairwise fun x y => x.env.timeCheck ≤ y.env.timeCheck)
    (hprompt : (xs.filter fun x => x.packet.conn = c).IsChain Prompt)
    (hclose : ∀ x ∈ (xs.filter fun x => x.packet.conn = c).getLast?, x.packet.closes = true) :
    ∀ {o : Option CSession},
      (∀ s ∈ o, ∃ y ∈ (xs.filter fun x => x.packet.conn = c).head?,
        FreshAt y.env.timeCheck s.refreshTime) →
      (connMachine B last c).run o (xs.map Arrival.call) =
        (connMachine B last' c).run o (xs.map Arrival.call) := by
  induction xs with
  | nil => exact fun _ => rfl
  | cons x xs ih =>
    intro o ho
    obtain ⟨hfirst, hclock⟩ := List.pairwise_cons.mp hclock
    by_cases hc : x.packet.conn = c
    · rw [List.filter_cons, if_pos (decide_eq_true hc)] at hprompt hclose ho
      have hfresh : ∀ s ∈ o, FreshAt x.env.timeCheck s.refreshTime := by
        intro s hs
        obtain ⟨y, hy, h⟩ := ho s hs
        exact Option.some.inj hy ▸ h
      rw [List.map_cons, Machine.run_cons, Machine.run_cons,
        show (connMachine B last c).step o x.call = (connMachine B last' c).step o x.call
          from connStep_fresh (x := x.call) hfresh,
        ih hclock hprompt.tail (fun y hy => hclose y ?_) fun s hs => ?_]
      · exact List.mem_getLast?_cons hy
      · obtain ⟨hopen, hrefresh⟩ := connStep_refreshes hc hfresh s hs
        cases hrest : xs.filter fun x => x.packet.conn = c with
        | nil =>
          rw [hrest] at hclose
          rw [hclose x rfl] at hopen
          cases hopen
        | cons y ys =>
          rw [hrest] at hprompt
          obtain ⟨hfound, hcreated⟩ := (List.isChain_cons_cons.mp hprompt).1
          refine ⟨y, rfl, ?_⟩
          rcases hrefresh with hrefresh | hrefresh
          · exact hrefresh ▸ hfound
          · exact hrefresh ▸ hcreated
    · rw [List.filter_cons, if_neg fun h => hc (of_decide_eq_true h)] at hprompt hclose ho
      -- the next packet of the connection comes later, and still in time
      have hfresh : ∀ s ∈ o, FreshAt x.env.timeCheck s.refreshTime := by
        intro s hs
        obtain ⟨y, hy, h⟩ := ho s hs
        exact (hfirst y (List.mem_of_mem_filter (List.mem_of_mem_head? hy))).trans h
      rw [List.map_cons, Machine.run_cons, Machine.run_cons,
        show (connMachine B last c).step o x.call = (o, []) from connStep_other hc hfresh,
        show (connMachine B last' c).step o x.call = (o, []) from connStep_other hc hfresh,
        ih hclock hprompt hclose ho]

/-- Where there is no session and no packet of the connection, nothing happens. -/
theorem connMachine_absent {xs : List Arrival} (h : ∀ x ∈ xs, x.packet.conn ≠ c) :
    (connMachine B last c).run none (xs.map Arrival.call) = (none, []) := by
  induction xs with
  | nil => rfl
  | cons x xs ih =>
    obtain ⟨hx, hxs⟩ := List.forall_mem_cons.mp h
    rw [List.map_cons, Machine.run_cons, show (connMachine B last c).step none x.call = (none, [])
      from connStep_other hx fun s hs => absurd hs (Option.not_mem_none s), ih hxs]
    rfl

end Machine

section Reports

variable {B : Boost} {v : Conversation} {g : CHandle} {xs : List Arrival}

/-- The exchanges of a prompt conversation are reported in order, and no session is left. -/
theorem Conversation.Proper.timely (hv : v.Proper) (hB : B.CastsVersions) (hD : B.CastsDecimals)
    (hw : g.sesHash.WF) (habsent : g.sesHash.session v.conn = none)
    (hclock : xs.Pairwise fun x y => x.env.timeCheck ≤ y.env.timeCheck)
    (htrace : (xs.filter fun x => x.packet.conn = v.conn) = v.packets)
    (hprompt : v.packets.IsChain Prompt) :
    let r := (handleMachine B).run g (xs.map Arrival.call)
    (r.2.filterMap (obsConn v.conn)).map Prod.snd = v.records.map some ∧
      r.1.sesHash.session v.conn = none := by
  intro r
  -- a time of `Init` after which no sweep would be due
  obtain ⟨last, hlast⟩ := (xs.map fun x => x.env.timeCheck).toFinset.exists_le
  have hquiet : ∀ x ∈ xs, x.env.timeCheck - last < timeoutCheckDur := by
    intro x hx
    have hle := hlast _ (List.mem_toFinset.mpr (List.mem_map_of_mem hx))
    rw [timeoutCheckDur]
    omega
  obtain ⟨hses, hcalls⟩ := run_conn B hw v.conn (xs.map Arrival.call)
  obtain ⟨hsent, hnone⟩ := hv.connMachine hB hD htrace hquiet
  have hclose : ∀ x ∈ v.packets.getLast?, x.packet.closes = true := by
    intro x hx
    rw [Conversation.packets, List.getLast?_concat] at hx
    exact Option.some.inj hx ▸ hv.closes
  rw [habsent, connMachine_prompt hclock (htrace.symm ▸ hprompt) (htrace.symm ▸ hclose)
    fun s hs => absurd hs (Option.not_mem_none s)] at hses hcalls
  exact ⟨(congrArg (List.map Prod.snd) hcalls).trans hsent, hses.trans hnone⟩

/-- **From packets to the report, whatever sweeps are due.**  A reachable handle without sessions
for the port of a client gets packets whose clock does not go back, among them those of a keep-alive
connection of that client: its exchanges, padded with repetitions and empty segments, and the
close, each at most a minute after the one before.  Whatever the other connections do and whatever
is swept, the report of the exchanges joins the file of the port, once, and no session is left, as
long as no other connection uses the port. -/
theorem timely_report (hv : v.Proper) (hB : B.CastsVersions) (hD : B.CastsDecimals)
    (hr : Reachable B g) (hfree : ∀ c, OnPort v.client.port c → g.sesHash.session c = none)
    (hclock : xs.Pairwise fun x y => x.env.timeCheck ≤ y.env.timeCheck)
    (htrace : (xs.filter fun x => x.packet.conn = v.conn) = v.packets)
    (hprompt : v.packets.IsChain Prompt)
    (hport : ∀ x ∈ xs, OnPort v.client.port x.packet.conn → x.packet.conn = v.conn) (d : Files) :
    let r := (handleMachine B).run g (xs.map Arrival.call)
    disk d r.2 (fileName v.client.port) = d (fileName v.client.port) ++ v.report ∧
      r.1.sesHash.session v.conn = none := by
  intro r
  have habsent : g.sesHash.session v.conn = none :=
    hfree v.conn ((onPort_mk ..).mpr (Or.inl rfl))
  obtain ⟨hsent, hnone⟩ := hv.timely hB hD hr.wf habsent hclock htrace hprompt
  refine ⟨disk_of_reports hr hsent (fun k hk hon => ?_) d, hnone⟩
  by_contra hne
  -- a connection on the port that is parsed has had a session or a packet
  have hcalls := (run_conn B hr.wf k.ses.conn (xs.map Arrival.call)).2
  have hother : ∀ x ∈ xs, x.packet.conn ≠ k.ses.conn := by
    intro x hx hc
    rw [← hc] at hon hne
    exact hne (hport x hx hon)
  rw [hfree _ hon, connMachine_absent hother] at hcalls
  have hmem : (k.ses, k.sent) ∈ r.2.filterMap (obsConn k.ses.conn) :=
    List.mem_filterMap.mpr ⟨k, hk, if_pos rfl⟩
  rw [hcalls] at hmem
  exact absurd hmem List.not_mem_nil

end Reports

/-- The page, 200 seconds after `Init`. -/
theorem timely_report_page :
    disk (fun _ => []) ((handleMachine Boost.decimal).run (init blankSes 0)
        ((pageConversation 200).packets.map Arrival.call)).2 (fileName 1000) =
      (pageConversation 200).report := by
  have htime : ∀ x ∈ (pageConversation 200).packets, x.env = Env.clock 200 := by
    intro x hx
    obtain ⟨f, -, rfl⟩ : ∃ f ∈ pageFrames, f.arrival 200 = x := List.mem_map.mp hx
    rfl
  have hprompt : ∀ x ∈ (pageConversation 200).packets, ∀ y ∈ (pageConversation 200).packets,
      x.env.timeCheck ≤ y.env.timeCheck ∧ Prompt x y := by
    intro x hx y hy
    rw [htime x hx, htime y hy]
    refine ⟨le_refl _, ?_, ?_⟩
    · rw [htime x hx, htime y hy]
      exact (by decide : (200 : Int) ≤ 200 % 2 ^ 32 + 60)
    · rw [htime x hx, htime y hy]
      exact (by decide : (200 : Int) ≤ 200 + 60)
  refine (timely_report (pageConversation_proper 200) Boost.decimal_castsVersions
    Boost.decimal_castsDecimals ⟨blankSes, 0, [], rfl⟩
    (fun c _ => CSessionHashTable.session_init blankSes c)
    (List.pairwise_of_forall_mem_list fun x hx y hy => (hprompt x hx y hy).1)
    (List.filter_eq_self.mpr fun x hx => decide_eq_true (pageConversation_conn 200 x hx))
    (List.pairwise_of_forall_mem_list fun x hx y hy => (hprompt x hx y hy).2).isChain
    (fun x hx _ => pageConversation_conn 200 x hx) _).1

end HttpDecoder
