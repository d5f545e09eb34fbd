import HttpDecoder.BufferBound

/-!
# The response bytes of every session object

The books of `Ledger` go by connection.  A pointer that `Process` hands out goes on to one
session object, whatever becomes of it in the table; so here the bytes are counted by object.

* `filedAfter` — the bytes filed as responses since the last call of `Parse`, object by object.
* `Tallied` — the length of every response buffer is that number, in 32 bits.
* `tallied_process` — **every call of `Process` keeps the tally**.
* `filedBy`, `sespBy` — the tally and the pointer handed out last, after some packets;
  `tallied_run` — the tally is right then.
-/

namespace HttpDecoder

open CLib CHandle

/-- The bytes filed as responses in every session object since `Parse` was last called on it,
after a call of `Process` for the packet `p`. -/
def filedAfter (r : Processed) (p : CFormatPacket) (filed : Nat → Nat) (a : Nat) : Nat :=
  (if a ∈ r.calls.map ParseCall.addr then 0 else filed a) +
    if r.sesp = some a ∧ p.toServer = false then p.dataSize else 0

/-- The length of every response buffer is the tally, in 32 bits. -/
structure Tallied (t : CSessionHashTable) (filed : Nat → Nat) : Prop where
  /-- Of every object there is. -/
  len : ∀ a < t.next, (t.ses a).rspBuf.len = u32 (filed a)
  /-- The others have none. -/
  fresh : ∀ a, t.next ≤ a → filed a = 0

namespace Tallied

variable {t : CSessionHashTable} {filed filed' : Nat → Nat}

/-- A store through a pointer changes the tally of that object only. -/
theorem set (h : Tallied t filed) {a : Nat} (ha : a < t.next) {s : CSession}
    (hself : s.rspBuf.len = u32 (filed' a)) (hother : ∀ b, b ≠ a → filed' b = filed b) :
    Tallied (t.set a s) filed' where
  len b hb := by
    by_cases hba : b = a
    · subst hba
      rw [CSessionHashTable.set_ses_self, hself]
    · rw [CSessionHashTable.set_ses_of_ne hba, hother b hba]
      exact h.len b hb
  fresh b hb := by
    have hnext : t.next ≤ b := hb
    rw [hother b (by omega)]
    exact h.fresh b hnext

/-- Removing a pointer changes no object. -/
theorem remove (h : Tallied t filed) (srcIp dstIp : UInt32) (srcPort dstPort : UInt16) :
    Tallied (t.remove srcIp dstIp srcPort dstPort) filed := ⟨h.len, h.fresh⟩

/-- A new session has no bytes. -/
theorem create (h : Tallied t filed) (now : Int) (e : NewSession) (p : CFormatPacket)
    (info : CSharedBehaviorInfo) : Tallied (t.create now e p info).1 filed where
  len a ha := by
    by_cases hnew : a = t.next
    · subst hnew
      rw [CSessionHashTable.create_ses_self, h.fresh _ (le_refl _)]
      unfold CSessionHashTable.newSession
      simp only
      split <;> rfl
    · have hlt : a < t.next + 1 := ha
      rw [CSessionHashTable.create_ses_of_ne _ _ _ _ hnew]
      exact h.len a (by omega)
  fresh a ha := h.fresh a (Nat.le_of_succ_le ha)

end Tallied

namespace CHandle

/-! ## The sweep -/

section Sweep

variable {B : Boost} {e : Env} {t t' : CSessionHashTable} {calls : List ParseCall} {reach : Nat}

/-- The sweep empties the response buffers of the sessions that it calls `Parse` on and leaves
the others. -/
theorem Swept.rspLen (h : Swept B e t t' calls 0 reach) (hr : reach ≤ 65536) (a : Nat) :
    (t'.ses a).rspBuf.len =
      if a ∈ calls.map ParseCall.addr then 0 else (t.ses a).rspBuf.len := by
  by_cases hcalled : a ∈ calls.map ParseCall.addr
  · obtain ⟨k, hk, rfl⟩ := List.mem_map.mp hcalled
    obtain ⟨i, hi, a, ha, hparses, rfl⟩ := (h.mem_calls hr k).mp hk
    rw [if_pos hcalled, h.ses_in i (Nat.zero_le _) (by omega) a ha, sweptSes, if_pos hparses,
      parse_fst]
    rfl
  · rw [if_neg hcalled]
    by_cases hin : ∃ i : UInt16, i.toNat < reach ∧ a ∈ t.cseshash i
    · obtain ⟨i, hi, ha⟩ := hin
      have hquiet : ¬ sweepParses e.timeCheck (t.ses a) = true := fun hparses =>
        hcalled (List.mem_map.mpr ⟨_, (h.mem_calls hr _).mpr ⟨i, hi, a, ha, hparses, rfl⟩, rfl⟩)
      rw [h.ses_in i (Nat.zero_le _) (by omega) a ha, sweptSes, if_neg hquiet]
    · rw [h.ses_out a fun i _ hi ha => hin ⟨i, by omega, ha⟩]

/-- So the sweep keeps the tally. -/
theorem Swept.tallied (h : Swept B e t t' calls 0 reach) (hr : reach ≤ 65536) {filed : Nat → Nat}
    (ht : Tallied t filed) :
    Tallied t' fun a => if a ∈ calls.map ParseCall.addr then 0 else filed a where
  len a ha := by
    rw [h.next] at ha
    rw [h.rspLen hr a, ht.len a ha]
    split <;> rfl
  fresh a ha := by
    rw [h.next] at ha
    rw [ht.fresh a ha, ite_self]

end Sweep

/-! ## One call of `Process` -/

theorem u32_add (n m : Nat) : u32 (u32 n + m) = u32 (n + m) := Nat.mod_add_mod n (2 ^ 32) m

/-- What filing a packet makes of the length of the response buffer. -/
theorem processData_rspLen (B : Boost) (x : Arrival) {s : CSession} {n : Nat}
    (hs : s.rspBuf.len = u32 n) :
    let q := processData B x.env x.packet (behavior x.packet).matchWay s
    q.ses.rspBuf.len = u32 ((if q.calls.isEmpty then n else 0) +
      if q.done = true ∧ x.packet.toServer = false then x.packet.dataSize else 0) := by
  intro q
  cases hto : x.packet.toServer with
  | true =>
    obtain ⟨-, -, -, hlen⟩ := processData_request B s hto
    have hnone : ¬ (q.done = true ∧ true = false) := by simp
    rw [if_neg hnone, Nat.add_zero]
    refine hlen.trans ?_
    rw [hs]
    show _ = u32 (if q.calls.isEmpty = true then n else 0)
    split <;> rfl
  | false =>
    obtain ⟨hdone, hbuf, -, hcalls, hsame⟩ := processData_response B s hto
    have hlt : s.rspBuf.len < 2 ^ 32 := by
      rw [hs]
      exact Nat.mod_lt _ (by norm_num)
    rw [show q.calls = [] from hcalls, show q.done = _ from hdone, show q.ses.rspBuf = _ from hbuf,
      hsame, CBuffer.append_len hlt, hs, u32_add]
    cases (s.rspBuf.append x.env.append (some x.packet.data) x.packet.dataSize).1 with
    | true => simp
    | false => simp

/-- Opening the session of a packet keeps the tally. -/
theorem findOrCreate_tallied {t : CSessionHashTable} (hw : t.WF) {filed : Nat → Nat}
    (ht : Tallied t filed) (x : Call) (info : CSharedBehaviorInfo) :
    Tallied (findOrCreate t x info).1 filed ∧
      (findOrCreate t x info).2 < (findOrCreate t x info).1.next ∧
      t.next ≤ (findOrCreate t x info).1.next := by
  cases hl : t.lookup x.packet.conn with
  | some a =>
    have ha : a < t.next := hw.lt_next _ a (CSessionHashTable.mem_of_lookup hl).1
    rw [findOrCreate_of_some hl]
    exact ⟨ht.set ha (ht.len a ha) fun _ _ => rfl, ha, le_refl _⟩
  | none =>
    rw [findOrCreate_of_none hl]
    exact ⟨ht.create .., Nat.lt_succ_self _, Nat.le_succ _⟩

section FiledAfter

variable {r : Processed} {p : CFormatPacket} {filed : Nat → Nat} {cs extra : List ParseCall}
  {a b : Nat}

/-- The tally of the object that the packet works on, `extra` being the calls of `Parse` on
it. -/
theorem filedAfter_self (hcalls : r.calls = cs ++ extra) (hextra : ∀ k ∈ extra, k.addr = a) :
    filedAfter r p filed a =
      (if extra.isEmpty then (if a ∈ cs.map ParseCall.addr then 0 else filed a) else 0) +
        if r.sesp = some a ∧ p.toServer = false then p.dataSize else 0 := by
  unfold filedAfter
  rw [hcalls, List.map_append]
  cases extra with
  | nil => simp
  | cons k extra =>
    have hk : k.addr = a := hextra k List.mem_cons_self
    simp [hk]

/-- The tally of another one. -/
theorem filedAfter_other (hcalls : r.calls = cs ++ extra) (hextra : ∀ k ∈ extra, k.addr = a)
    (hsesp : ∀ c ∈ r.sesp, c = a) (hb : b ≠ a) :
    filedAfter r p filed b = if b ∈ cs.map ParseCall.addr then 0 else filed b := by
  have hnot : b ∉ extra.map ParseCall.addr := by
    intro hmem
    obtain ⟨k, hk, rfl⟩ := List.mem_map.mp hmem
    exact hb (hextra k hk)
  have hnot' : ¬ (r.sesp = some b ∧ p.toServer = false) := fun h => hb (hsesp b h.1)
  unfold filedAfter
  simp only [hcalls, List.map_append, List.mem_append, or_iff_left hnot]
  rw [if_neg hnot', Nat.add_zero]

/-- No object is worked on. -/
theorem filedAfter_none (hcalls : r.calls = cs) (hsesp : r.sesp = none) :
    filedAfter r p filed = fun a => if a ∈ cs.map ParseCall.addr then 0 else filed a := by
  funext b
  have hnot : ¬ (r.sesp = some b ∧ p.toServer = false) := by simp [hsesp]
  unfold filedAfter
  rw [hcalls, if_neg hnot, Nat.add_zero]

end FiledAfter

/-- **Every call of `Process` keeps the tally**, and hands out a pointer to an object that
exists. -/
theorem tallied_process (B : Boost) {h : CHandle} (hw : h.sesHash.WF) (x : Arrival)
    {filed : Nat → Nat} (ht : Tallied h.sesHash filed) :
    let r := h.process B x.call
    Tallied r.handle.sesHash (filedAfter r x.packet filed) ∧
      h.sesHash.next ≤ r.handle.sesHash.next ∧
      ∀ a ∈ r.sesp, a < r.handle.sesHash.next := by
  intro r
  have hsw : Swept B x.env h.sesHash (h.timeOutCheck B x.env).1.sesHash
      (h.timeOutCheck B x.env).2 0 (sweepReach h.lastTimeOutCheck x.env) :=
    timeOutCheck_swept hw
  have hopen := findOrCreate_tallied (hsw.wf hw) (hsw.tallied (sweepReach_le ..) ht) x.call
    (behavior x.packet)
  rw [hsw.next] at hopen
  obtain ⟨hfc, ha, hnext⟩ := hopen
  obtain ⟨hclosing, hdropped, hfiled⟩ := process_table B h (Arrival.call_info x)
  rw [show h.process B x.call = r from rfl] at hclosing hdropped hfiled
  rw [Arrival.call_env, Arrival.call_packet] at hclosing hdropped hfiled
  clear_value r
  generalize h.timeOutCheck B x.env = sw at hfc ha hnext hclosing hdropped hfiled
  generalize findOrCreate sw.1.sesHash x.call (behavior x.packet) = fc
    at hfc ha hnext hclosing hdropped hfiled
  rcases served_cases x.packet (fc.1.ses fc.2) with
    hclose | ⟨hopen, hdrop⟩ | ⟨hopen, hdata, hnew⟩
  · obtain rfl := hclosing hclose
    refine ⟨(hfc.set ha ?_ fun b hb => ?_).remove _ _ _ _, hnext, by simp⟩
    · rw [filedAfter_self rfl (by simp), parse_fst]
      rfl
    · exact filedAfter_other rfl (by simp) (by simp) hb
  · obtain rfl := hdropped hopen hdrop
    rw [filedAfter_none rfl rfl]
    exact ⟨hfc, hnext, by simp⟩
  · have hlen := processData_rspLen B x (hfc.len fc.2 ha)
    have hr := hfiled hopen hdata hnew
    dsimp only at hlen hr
    generalize processData B x.env x.packet (behavior x.packet).matchWay (fc.1.ses fc.2) = q
      at hlen hr
    subst hr
    have hextra : ∀ j ∈ q.calls.map fun c => (⟨fc.2, c.1, c.2⟩ : ParseCall), j.addr = fc.2 := by
      intro j hj
      obtain ⟨c, -, rfl⟩ := List.mem_map.mp hj
      rfl
    have hdone : (if q.done then some fc.2 else none) = some fc.2 ↔ q.done = true := by simp
    have hself : ∀ c ∈ (if q.done then some fc.2 else none), c = fc.2 := by
      intro c hc
      split at hc
      · exact (Option.some.inj hc).symm
      · cases hc
    refine ⟨hfc.set ha ?_ fun b hb => filedAfter_other rfl hextra hself hb, hnext, ?_⟩
    · rw [filedAfter_self rfl hextra, hlen]
      simp only [hdone, List.isEmpty_map]
    · intro c hc
      rw [hself c hc]
      exact ha

/-! ## Runs -/

/-- The tally after some packets. -/
def filedBy (B : Boost) : CHandle → (Nat → Nat) → List Arrival → Nat → Nat
  | _, filed, [] => filed
  | h, filed, x :: xs =>
    filedBy B (h.process B x.call).handle (filedAfter (h.process B x.call) x.packet filed) xs

/-- What `sesp` refers to after some packets, `fs` being what it did before. -/
def sespBy (B : Boost) : CHandle → Option Nat → List Arrival → Option Nat
  | _, fs, [] => fs
  | h, fs, x :: xs =>
    sespBy B (h.process B x.call).handle ((h.process B x.call).sesp.or fs) xs

/-- **The tally is right after any packets**, and so is the pointer. -/
theorem tallied_run (B : Boost) (xs : List Arrival) : ∀ {h : CHandle} {filed : Nat → Nat}
    {fs : Option Nat}, h.sesHash.WF → Tallied h.sesHash filed →
    (∀ a ∈ fs, a < h.sesHash.next) →
      let h' := ((handleMachine B).run h (xs.map Arrival.call)).1
      Tallied h'.sesHash (filedBy B h filed xs) ∧ ∀ a ∈ sespBy B h fs xs, a < h'.sesHash.next := by
  induction xs with
  | nil => exact fun _ ht hfs => ⟨ht, hfs⟩
  | cons x xs ih =>
    intro h filed fs hw ht hfs
    obtain ⟨ht', hnext, hsesp⟩ := tallied_process B hw x ht
    refine ih (process_conn B hw x.call).1 ht' fun a ha => ?_
    rcases Option.or_eq_some_iff.mp ha with ha | ⟨-, ha⟩
    · exact hsesp a ha
    · exact lt_of_lt_of_le (hfs a ha) hnext

/-- At the start there are no objects. -/
theorem tallied_init (ses : Nat → CSession) (now : Int) :
    Tallied (CHandle.init ses now).sesHash fun _ => 0 :=
  ⟨fun _ ha => absurd ha (Nat.not_lt_zero _), fun _ _ => rfl⟩

end CHandle

end HttpDecoder
