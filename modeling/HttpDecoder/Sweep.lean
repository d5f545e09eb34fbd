import HttpDecoder.Handle
import HttpDecoder.Table

/-!
# The sweep, bucket by bucket

`TimeOutCheck` walks over the buckets and erases from them while iterating.  On
a well-formed table its effect is local to each session: it parses the session
(`sweptSes`, `sweptCalls`) and then keeps or erases it (`sweepExpires`), and it
does so in every bucket below 65535 (`timeOutCheck_swept`).
-/

namespace HttpDecoder

open CLib KeyedList

namespace CHandle

variable (B : Boost) (e : Env)

/-- A session after the sweep looked at it. -/
def sweptSes (s : CSession) : CSession :=
  if sweepParses e.timeCheck s then (parse B (e.sweep s.server s.client) s).1 else s

/-- The call of `Parse` the sweep makes on a session, if it makes one. -/
def sweptCalls (a : Nat) (s : CSession) : List ParseCall :=
  if sweepParses e.timeCheck s then [⟨a, s, (parse B (e.sweep s.server s.client) s).2⟩] else []

theorem mem_sweptCalls {a : Nat} {s : CSession} {k : ParseCall} :
    k ∈ sweptCalls B e a s ↔ sweepParses e.timeCheck s = true ∧
      k = ⟨a, s, (parse B (e.sweep s.server s.client) s).2⟩ := by
  unfold sweptCalls
  cases sweepParses e.timeCheck s with
  | true => simp
  | false => simp

theorem sweptSes_roles (s : CSession) :
    (sweptSes B e s).server = s.server ∧ (sweptSes B e s).client = s.client := by
  unfold sweptSes
  split
  · rw [parse_fst]
    exact ⟨rfl, rfl⟩
  · exact ⟨rfl, rfl⟩

/-- Parsing does not refresh a session. -/
@[simp] theorem sweepExpires_sweptSes (s : CSession) :
    sweepExpires e.timeCheck (sweptSes B e s) = sweepExpires e.timeCheck s := by
  unfold sweptSes
  split
  · rw [parse_fst]
    rfl
  · rfl

/-- A session that has been quiet for more than a minute and is not parsed holds
nothing. -/
theorem len_of_not_sweepParses {e : Env} {s : CSession} (hidle : e.timeCheck - s.refreshTime > 60)
    (h : sweepParses e.timeCheck s = false) : s.reqBuf.len = 0 ∧ s.rspBuf.len = 0 := by
  have hdata : ¬ (0 < s.reqBuf.len ∨ 0 < s.rspBuf.len) := by
    intro hdata
    have hparses : sweepParses e.timeCheck s = true := by
      simp only [sweepParses, Bool.and_eq_true, Bool.or_eq_true, decide_eq_true_eq]
      exact ⟨hdata, hidle⟩
    rw [h] at hparses
    exact absurd hparses (by simp)
  omega

theorem idle_of_sweepExpires {e : Env} {s : CSession} (h : sweepExpires e.timeCheck s = true) :
    e.timeCheck - s.refreshTime > 60 := by
  have hexpired : e.timeCheck - s.refreshTime ≥ timeout := of_decide_eq_true h
  rw [timeout] at hexpired
  omega

/-! ## One bucket -/

/-- Sweeping one bucket changes and keeps each of its sessions on its own. -/
theorem sweepBucket_eq {l : List Nat} (hl : l.Nodup) (ses : Nat → CSession) :
    sweepBucket B e ses l =
      { ses := fun a => if a ∈ l then sweptSes B e (ses a) else ses a
        kept := l.filter fun a => !sweepExpires e.timeCheck (ses a)
        calls := l.flatMap fun a => sweptCalls B e a (ses a) } := by
  induction l generalizing ses with
  | nil => simp [sweepBucket]
  | cons a l ih =>
    obtain ⟨ha, hl⟩ := List.nodup_cons.mp hl
    have hses : (if sweepParses e.timeCheck (ses a) then
        Function.update ses a (parse B (e.sweep (ses a).server (ses a).client) (ses a)).1
        else ses) = Function.update ses a (sweptSes B e (ses a)) := by
      unfold sweptSes
      split
      · rfl
      · rw [Function.update_eq_self]
    have hrest : ∀ b ∈ l, Function.update ses a (sweptSes B e (ses a)) b = ses b := by
      intro b hb
      have hba : b ≠ a := fun hba => ha (hba ▸ hb)
      exact Function.update_of_ne hba _ _
    unfold sweepBucket
    simp only [hses, ih hl, Function.update_self, sweepExpires_sweptSes]
    refine Sweep.ext ?_ ?_ ?_
    · funext b
      by_cases hb : b ∈ l
      · have hba : b ≠ a := fun hba => ha (hba ▸ hb)
        simp [hb, hba]
      · by_cases hba : b = a
        · subst hba
          simp [hb]
        · simp [hb, hba]
    · have hk : (l.filter fun b => !sweepExpires e.timeCheck
          (Function.update ses a (sweptSes B e (ses a)) b)) =
          l.filter fun b => !sweepExpires e.timeCheck (ses b) :=
        List.filter_congr fun b hb => by rw [hrest b hb]
      simp only [hk]
      cases h : sweepExpires e.timeCheck (ses a) <;> simp [h]
    · have hc : (l.flatMap fun b => sweptCalls B e b
          (Function.update ses a (sweptSes B e (ses a)) b)) =
          l.flatMap fun b => sweptCalls B e b (ses b) :=
        List.flatMap_congr fun b hb => by rw [hrest b hb]
      simp only [hc, List.flatMap_cons]
      rfl

/-! ## The whole table -/

/-- `t'` is `t` after sweeping the `n` buckets from `lo` on, with the given calls
of `Parse`. -/
structure Swept (t t' : CSessionHashTable) (calls : List ParseCall) (lo n : Nat) : Prop where
  /-- No object is created. -/
  next : t'.next = t.next
  /-- A swept bucket keeps the sessions that did not expire, in order. -/
  bucket_in : ∀ i : UInt16, lo ≤ i.toNat → i.toNat < lo + n →
    t'.cseshash i = (t.cseshash i).filter fun a => !sweepExpires e.timeCheck (t.ses a)
  /-- The other buckets stay. -/
  bucket_out : ∀ i : UInt16, ¬ (lo ≤ i.toNat ∧ i.toNat < lo + n) → t'.cseshash i = t.cseshash i
  /-- Every session of a swept bucket is looked at. -/
  ses_in : ∀ i : UInt16, lo ≤ i.toNat → i.toNat < lo + n →
    ∀ a ∈ t.cseshash i, t'.ses a = sweptSes B e (t.ses a)
  /-- The other sessions stay. -/
  ses_out : ∀ a, (∀ i : UInt16, lo ≤ i.toNat → i.toNat < lo + n → a ∉ t.cseshash i) →
    t'.ses a = t.ses a
  /-- The calls of `Parse`, bucket by bucket. -/
  calls_eq : calls = (List.range' lo n).flatMap fun i =>
    (t.cseshash (UInt16.ofNat i)).flatMap fun a => sweptCalls B e a (t.ses a)

variable {B e}

theorem Swept.nil (t : CSessionHashTable) (lo : Nat) : Swept B e t t [] lo 0 where
  next := rfl
  bucket_in i h₁ h₂ := by omega
  bucket_out _ _ := rfl
  ses_in i h₁ h₂ := by omega
  ses_out _ _ := rfl
  calls_eq := rfl

/-- A session is looked at or left as it was. -/
theorem Swept.ses_cases {t t' : CSessionHashTable} {calls : List ParseCall} {lo n : Nat}
    (h : Swept B e t t' calls lo n) (a : Nat) :
    t'.ses a = sweptSes B e (t.ses a) ∨ t'.ses a = t.ses a := by
  by_cases ha : ∃ i : UInt16, lo ≤ i.toNat ∧ i.toNat < lo + n ∧ a ∈ t.cseshash i
  · obtain ⟨i, h₁, h₂, ha⟩ := ha
    exact Or.inl (h.ses_in i h₁ h₂ a ha)
  · exact Or.inr (h.ses_out a fun i h₁ h₂ hi => ha ⟨i, h₁, h₂, hi⟩)

/-- Sweeping keeps the roles of every session. -/
theorem Swept.roles {t t' : CSessionHashTable} {calls : List ParseCall} {lo n : Nat}
    (h : Swept B e t t' calls lo n) (a : Nat) :
    (t'.ses a).server = (t.ses a).server ∧ (t'.ses a).client = (t.ses a).client := by
  rcases h.ses_cases a with ha | ha
  · rw [ha]
    exact sweptSes_roles B e (t.ses a)
  · rw [ha]
    exact ⟨rfl, rfl⟩

/-- Sweeping keeps every key. -/
theorem Swept.key_eq {t t' : CSessionHashTable} {calls : List ParseCall} {lo n : Nat}
    (h : Swept B e t t' calls lo n) : t'.key = t.key := by
  funext a
  obtain ⟨hserver, hclient⟩ := h.roles a
  exact CSession.conn_congr hserver hclient

theorem Swept.sublist {t t' : CSessionHashTable} {calls : List ParseCall} {lo n : Nat}
    (h : Swept B e t t' calls lo n) (i : UInt16) : (t'.cseshash i).Sublist (t.cseshash i) := by
  by_cases hi : lo ≤ i.toNat ∧ i.toNat < lo + n
  · rw [h.bucket_in i hi.1 hi.2]
    exact List.filter_sublist
  · rw [h.bucket_out i hi]

theorem Swept.wf {t t' : CSessionHashTable} {calls : List ParseCall} {lo n : Nat}
    (h : Swept B e t t' calls lo n) (hw : t.WF) : t'.WF where
  lt_next i a ha := by
    rw [h.next]
    exact hw.lt_next i a ((h.sublist i).subset ha)
  placed i a ha := by
    rw [h.key_eq]
    exact hw.placed i a ((h.sublist i).subset ha)
  unique i := by
    rw [h.key_eq]
    exact List.Pairwise.sublist (h.sublist i) (hw.unique i)

/-- One round of the outer loop. -/
theorem swept_one (B : Boost) (e : Env) {t : CSessionHashTable} (hw : t.WF) (lo : Nat)
    (hlo : lo < 65536) : Swept B e t
      { t with
        ses := (sweepBucket B e t.ses (t.cseshash (UInt16.ofNat lo))).ses
        cseshash := Function.update t.cseshash (UInt16.ofNat lo)
          (sweepBucket B e t.ses (t.cseshash (UInt16.ofNat lo))).kept }
      (sweepBucket B e t.ses (t.cseshash (UInt16.ofNat lo))).calls lo 1 := by
  have hnat : (UInt16.ofNat lo).toNat = lo := by
    rw [UInt16.toNat_ofNat', Nat.mod_eq_of_lt hlo]
  have hidx : ∀ i : UInt16, lo ≤ i.toNat → i.toNat < lo + 1 → i = UInt16.ofNat lo := by
    intro i h₁ h₂
    apply UInt16.toNat_inj.mp
    omega
  rw [sweepBucket_eq B e (hw.unique _).nodup]
  refine ⟨rfl, fun i h₁ h₂ => ?_, fun i hi => ?_, fun i h₁ h₂ a ha => ?_, fun a ha => ?_, ?_⟩
  · rw [hidx i h₁ h₂]
    exact Function.update_self ..
  · have hne : i ≠ UInt16.ofNat lo := by
      rintro rfl
      omega
    exact Function.update_of_ne hne _ _
  · rw [hidx i h₁ h₂] at ha
    exact if_pos ha
  · exact if_neg (ha (UInt16.ofNat lo) (by omega) (by omega))
  · simp

/-- Sweeping one range of buckets and then the next sweeps both. -/
theorem Swept.append {t t₁ t₂ : CSessionHashTable} {c₁ c₂ : List ParseCall} {lo m n : Nat}
    (hw : t.WF) (h₁ : Swept B e t t₁ c₁ lo m) (h₂ : Swept B e t₁ t₂ c₂ (lo + m) n)
    (hn : lo + m + n ≤ 65536) : Swept B e t t₂ (c₁ ++ c₂) lo (m + n) := by
  -- a pointer of a bucket outside the first range is not touched by the first sweep
  have hstay : ∀ i : UInt16, ¬ (lo ≤ i.toNat ∧ i.toNat < lo + m) → ∀ a ∈ t.cseshash i,
      t₁.ses a = t.ses a := by
    intro i hi a ha
    refine h₁.ses_out a fun j hj₁ hj₂ haj => hi ?_
    rw [← hw.placed i a ha, hw.placed j a haj]
    exact ⟨hj₁, hj₂⟩
  refine ⟨h₂.next.trans h₁.next, fun i hi₁ hi₂ => ?_, fun i hi => ?_, fun i hi₁ hi₂ a ha => ?_,
    fun a ha => ?_, ?_⟩
  · by_cases him : i.toNat < lo + m
    · rw [h₂.bucket_out i (by omega), h₁.bucket_in i hi₁ him]
    · rw [h₂.bucket_in i (by omega) (by omega), h₁.bucket_out i (by omega)]
      refine List.filter_congr fun a ha => ?_
      rw [hstay i (by omega) a ha]
  · rw [h₂.bucket_out i (by omega), h₁.bucket_out i (by omega)]
  · by_cases him : i.toNat < lo + m
    · rw [← h₁.ses_in i hi₁ him a ha]
      refine h₂.ses_out a fun j hj₁ hj₂ haj => ?_
      have hij : i = j := by
        rw [← hw.placed i a ha, hw.placed j a ((h₁.sublist j).subset haj)]
      rw [hij] at him
      omega
    · rw [h₂.ses_in i (by omega) (by omega) a (by rw [h₁.bucket_out i (by omega)]; exact ha),
        hstay i (by omega) a ha]
  · rw [h₂.ses_out a fun j hj₁ hj₂ haj => ?_, h₁.ses_out a fun j hj₁ hj₂ => ?_]
    · exact ha j hj₁ (by omega)
    · exact ha j (by omega) (by omega) ((h₁.sublist j).subset haj)
  · rw [h₁.calls_eq, h₂.calls_eq, ← List.range'_append_1, List.flatMap_append]
    congr 1
    refine List.flatMap_congr fun i hi => ?_
    have hi' := List.mem_range'_1.mp hi
    have hnat : (UInt16.ofNat i).toNat = i := by
      rw [UInt16.toNat_ofNat', Nat.mod_eq_of_lt (by omega)]
    rw [h₁.bucket_out _ (by omega)]
    refine List.flatMap_congr fun a ha => ?_
    rw [hstay _ (by omega) a ha]

/-- **The outer loop sweeps every bucket of its range.** -/
theorem sweepTable_swept (B : Boost) (e : Env) (n : Nat) : ∀ {t : CSessionHashTable}, t.WF →
    ∀ lo, lo + n ≤ 65536 →
      Swept B e t (sweepTable B e t lo n).1 (sweepTable B e t lo n).2 lo n := by
  induction n with
  | zero => intro t _ lo _; exact Swept.nil t lo
  | succ n ih =>
    intro t hw lo hn
    have hone := swept_one B e hw lo (by omega)
    have hrest := ih (hone.wf hw) (lo + 1) (by omega)
    have hboth := Swept.append hw hone hrest (by omega)
    rw [Nat.add_comm 1 n] at hboth
    exact hboth

/-! ## `TimeOutCheck` -/

/-- The number of buckets the sweep reaches: none before the interval since
`last` is over. -/
def sweepReach (last : Int) (e : Env) : Nat :=
  if e.timeCheck - last < timeoutCheckDur then 0 else 65535

/-- The sweep reaches no more buckets than there are. -/
theorem sweepReach_le (last : Int) (e : Env) : sweepReach last e ≤ 65536 := by
  unfold sweepReach
  split
  · exact Nat.zero_le _
  · norm_num

theorem sweeps_iff {h : CHandle} {e : Env} :
    h.sweeps e = true ↔ ¬ e.timeCheck - h.lastTimeOutCheck < timeoutCheckDur := by
  simp [sweeps]

theorem timeOutCheck_of_not_sweeps {h : CHandle} (hs : h.sweeps e = false) :
    h.timeOutCheck B e = (h, []) := by
  unfold timeOutCheck
  rw [if_neg (by simp [hs])]

/-- The loop of `TimeOutCheck` for any result: its bound is a literal that must not be
counted down. -/
theorem ite_sweeps {b : Bool} (hb : b = true) (h : CHandle)
    (r : CSessionHashTable × List ParseCall) :
    (if b then ({ h with sesHash := r.1 }, r.2) else (h, [])).1.sesHash = r.1 ∧
      (if b then ({ h with sesHash := r.1 }, r.2) else (h, [])).2 = r.2 := by
  rw [if_pos hb]
  exact ⟨rfl, rfl⟩

/-- A due sweep walks the buckets. -/
theorem timeOutCheck_of_sweeps {h : CHandle} (hs : h.sweeps e = true) :
    (h.timeOutCheck B e).1.sesHash = (sweepTable B e h.sesHash 0 65535).1 ∧
      (h.timeOutCheck B e).2 = (sweepTable B e h.sesHash 0 65535).2 :=
  ite_sweeps hs h (sweepTable B e h.sesHash 0 65535)

/-- **`TimeOutCheck` sweeps the buckets below 65535, or none.** -/
theorem timeOutCheck_swept {h : CHandle} (hw : h.sesHash.WF) :
    Swept B e h.sesHash (h.timeOutCheck B e).1.sesHash (h.timeOutCheck B e).2 0
      (sweepReach h.lastTimeOutCheck e) := by
  unfold sweepReach
  by_cases hs : e.timeCheck - h.lastTimeOutCheck < timeoutCheckDur
  · have hquiet : h.sweeps e = false := by
      rw [← Bool.not_eq_true, sweeps_iff, not_not]
      exact hs
    rw [timeOutCheck_of_not_sweeps hquiet, if_pos hs]
    exact Swept.nil _ _
  · obtain ⟨htable, hcalls⟩ := timeOutCheck_of_sweeps (B := B) (sweeps_iff.mpr hs)
    rw [htable, hcalls, if_neg hs]
    exact sweepTable_swept B e 65535 hw 0 (by omega)

variable (B e) in
/-- Only the table of a handle takes part in `TimeOutCheck`. -/
theorem timeOutCheck_eq (h : CHandle) :
    ∃ r : CSessionHashTable × List ParseCall, h.timeOutCheck B e =
      if h.sweeps e then ({ h with sesHash := r.1 }, r.2) else (h, []) :=
  ⟨_, rfl⟩

@[simp] theorem timeOutCheck_lastTimeOutCheck (h : CHandle) :
    (h.timeOutCheck B e).1.lastTimeOutCheck = h.lastTimeOutCheck := by
  obtain ⟨r, hr⟩ := timeOutCheck_eq B e h
  rw [hr]
  split <;> rfl

/-! ## The sweep as one connection sees it -/

/-- What a call of `Parse` shows about connection `c`: the session it was handed
and the record it sent. -/
def obsConn (c : Conn) (k : ParseCall) : Option (CSession × Option Record) :=
  if k.ses.conn = c then some (k.ses, k.sent) else none

/-- The sweep of the buckets below `reach` on the session of one connection. -/
def sweepConn (B : Boost) (e : Env) (reach : Nat) :
    Option CSession → Option CSession × List (CSession × Option Record)
  | none => (none, [])
  | some s =>
    if (hashConn s.conn).toNat < reach then
      (if sweepExpires e.timeCheck s then none else some (sweptSes B e s),
        if sweepParses e.timeCheck s then [(s, (parse B (e.sweep s.server s.client) s).2)] else [])
    else (some s, [])

theorem sweepConn_zero (o : Option CSession) : sweepConn B e 0 o = (o, []) := by
  cases o <;> simp [sweepConn]

/-- What the sweep leaves of a session is the session, parsed or as it was. -/
theorem sweepConn_cases (B : Boost) (e : Env) (reach : Nat) (s : CSession) :
    ∀ s' ∈ (sweepConn B e reach (some s)).1, s' = sweptSes B e s ∨ s' = s := by
  intro s' hs'
  unfold sweepConn at hs'
  by_cases hin : (hashConn s.conn).toNat < reach
  · simp only [if_pos hin] at hs'
    cases hx : sweepExpires e.timeCheck s with
    | true =>
      rw [hx, if_pos rfl] at hs'
      exact absurd hs' (by simp)
    | false =>
      rw [hx, if_neg (by simp)] at hs'
      exact Or.inl (Option.some.inj hs').symm
  · simp only [if_neg hin] at hs'
    exact Or.inr (Option.some.inj hs').symm

variable {t t' : CSessionHashTable} {calls : List ParseCall} {reach : Nat}

/-- The sweep keeps the session of a connection unless it expired. -/
theorem Swept.session_eq (h : Swept B e t t' calls 0 reach) (hw : t.WF) (c : Conn) :
    t'.session c = (sweepConn B e reach (t.session c)).1 := by
  cases hl : t.lookup c with
  | none =>
    have hl' : t'.lookup c = none := by
      refine (h.wf hw).lookup_eq_none_iff.mpr fun i a ha => ?_
      rw [h.key_eq]
      exact hw.lookup_eq_none_iff.mp hl i a ((h.sublist i).subset ha)
    rw [CSessionHashTable.session, CSessionHashTable.session, hl, hl']
    rfl
  | some a =>
    obtain ⟨ha, hk⟩ := CSessionHashTable.mem_of_lookup hl
    have hc : (t.ses a).conn = c := hk
    rw [CSessionHashTable.session_of_lookup hl, sweepConn, hc]
    by_cases hr : (hashConn c).toNat < reach
    · rw [if_pos hr]
      have hin := h.bucket_in (hashConn c) (Nat.zero_le _) (by omega)
      have hses := h.ses_in (hashConn c) (Nat.zero_le _) (by omega) a ha
      cases hx : sweepExpires e.timeCheck (t.ses a) with
      | true =>
        refine CSessionHashTable.session_eq_none_iff.mpr
          (KeyedList.lookup_eq_none_iff.mpr fun b hb hbc => ?_)
        rw [hin] at hb
        obtain ⟨hb, hbx⟩ := List.mem_filter.mp hb
        rw [h.key_eq] at hbc
        have hba : b = a := (hw.unique _).eq_of_mem hb ha (hbc.trans hk.symm)
        rw [hba, hx] at hbx
        exact absurd hbx (by simp)
      | false =>
        have hl' : t'.lookup c = some a := by
          refine (h.wf hw).lookup_iff.mpr ⟨⟨hashConn c, ?_⟩, by rw [h.key_eq]; exact hk⟩
          rw [hin]
          exact List.mem_filter.mpr ⟨ha, by simp [hx]⟩
        rw [CSessionHashTable.session_of_lookup hl', hses]
        rfl
    · rw [if_neg hr]
      have hl' : t'.lookup c = some a := by
        refine (h.wf hw).lookup_iff.mpr ⟨⟨hashConn c, ?_⟩, by rw [h.key_eq]; exact hk⟩
        rw [h.bucket_out _ (by omega)]
        exact ha
      rw [CSessionHashTable.session_of_lookup hl']
      refine congrArg some (h.ses_out a fun i _ hi hai => hr ?_)
      rw [← hk, hw.placed i a hai]
      omega

/-- In one bucket only the session of the connection shows. -/
theorem filterMap_sweptCalls {l : List Nat} (hl : UniqueKeys t.key l) (c : Conn) :
    (l.flatMap fun a => sweptCalls B e a (t.ses a)).filterMap (obsConn c) =
      match KeyedList.lookup t.key c l with
      | none => []
      | some a =>
        if sweepParses e.timeCheck (t.ses a) then
          [(t.ses a, (parse B (e.sweep (t.ses a).server (t.ses a).client) (t.ses a)).2)]
        else [] := by
  induction l with
  | nil => rfl
  | cons a l ih =>
    obtain ⟨hal, hl⟩ := List.pairwise_cons.mp hl
    rw [List.flatMap_cons, List.filterMap_append, ih hl]
    by_cases hc : t.key a = c
    · have hnone : KeyedList.lookup t.key c l = none :=
        KeyedList.lookup_eq_none_iff.mpr fun b hb hbc => hal b hb (hc.trans hbc.symm)
      have hsome : KeyedList.lookup t.key c (a :: l) = some a := by simp [KeyedList.lookup, hc]
      have hconn : (t.ses a).conn = c := hc
      rw [hnone, hsome, List.append_nil]
      unfold sweptCalls
      split
      · rename_i hs
        simp [obsConn, hconn, hs]
      · rename_i hs
        simp [hs]
    · have hskip : KeyedList.lookup t.key c (a :: l) = KeyedList.lookup t.key c l := by
        simp [KeyedList.lookup, hc]
      have hconn : (t.ses a).conn ≠ c := hc
      have hnone : (sweptCalls B e a (t.ses a)).filterMap (obsConn c) = [] := by
        unfold sweptCalls
        split <;> simp [obsConn, hconn]
      rw [hskip, hnone, List.nil_append]

/-- Only one index of a range contributes. -/
theorem flatMap_range'_single {α : Type} (f : Nat → List α) (k n : Nat) :
    ∀ lo, (∀ i, lo ≤ i → i < lo + n → i ≠ k → f i = []) →
      (List.range' lo n).flatMap f = if lo ≤ k ∧ k < lo + n then f k else [] := by
  induction n with
  | zero => intro lo _; simp
  | succ n ih =>
    intro lo hf
    rw [List.range'_succ, List.flatMap_cons, ih (lo + 1) fun i h₁ h₂ => hf i (by omega) (by omega)]
    by_cases hk : lo = k
    · subst hk
      rw [if_neg (by omega), if_pos (by omega), List.append_nil]
    · rw [hf lo (le_refl _) (by omega) hk, List.nil_append]
      by_cases hr : lo + 1 ≤ k ∧ k < lo + 1 + n
      · rw [if_pos hr, if_pos (by omega)]
      · rw [if_neg hr, if_neg (by omega)]

/-- The calls of `Parse` during a sweep, one by one. -/
theorem Swept.mem_calls (h : Swept B e t t' calls 0 reach) (hr : reach ≤ 65536) (k : ParseCall) :
    k ∈ calls ↔ ∃ i : UInt16, i.toNat < reach ∧ ∃ a ∈ t.cseshash i,
      sweepParses e.timeCheck (t.ses a) = true ∧
        k = ⟨a, t.ses a, (parse B (e.sweep (t.ses a).server (t.ses a).client) (t.ses a)).2⟩ := by
  rw [h.calls_eq, List.mem_flatMap]
  constructor
  · rintro ⟨n, hn, hk⟩
    obtain ⟨a, ha, hk⟩ := List.mem_flatMap.mp hk
    have hlt := (List.mem_range'_1.mp hn).2
    refine ⟨UInt16.ofNat n, ?_, a, ha, (mem_sweptCalls B e).mp hk⟩
    rw [UInt16.toNat_ofNat', Nat.mod_eq_of_lt (by omega)]
    omega
  · rintro ⟨i, hi, a, ha, hk⟩
    refine ⟨i.toNat, List.mem_range'_1.mpr ⟨Nat.zero_le _, by omega⟩, ?_⟩
    rw [UInt16.ofNat_toNat]
    exact List.mem_flatMap.mpr ⟨a, ha, (mem_sweptCalls B e).mpr hk⟩

/-- The calls of `Parse` the sweep makes on the session of a connection. -/
theorem Swept.calls_conn (h : Swept B e t t' calls 0 reach) (hw : t.WF) (hr : reach ≤ 65536)
    (c : Conn) : calls.filterMap (obsConn c) = (sweepConn B e reach (t.session c)).2 := by
  have hbucket : ∀ i : UInt16, ((t.cseshash i).flatMap fun a =>
      sweptCalls B e a (t.ses a)).filterMap (obsConn c) =
        match KeyedList.lookup t.key c (t.cseshash i) with
        | none => []
        | some a =>
          if sweepParses e.timeCheck (t.ses a) then
            [(t.ses a, (parse B (e.sweep (t.ses a).server (t.ses a).client) (t.ses a)).2)]
          else [] := fun i => filterMap_sweptCalls (hw.unique i) c
  have hother : ∀ i, 0 ≤ i → i < 0 + reach → i ≠ (hashConn c).toNat →
      ((t.cseshash (UInt16.ofNat i)).flatMap fun a =>
        sweptCalls B e a (t.ses a)).filterMap (obsConn c) = [] := by
    intro i _ hi hne
    have hnat : (UInt16.ofNat i).toNat = i := by
      rw [UInt16.toNat_ofNat', Nat.mod_eq_of_lt (by omega)]
    have hnone : KeyedList.lookup t.key c (t.cseshash (UInt16.ofNat i)) = none := by
      refine KeyedList.lookup_eq_none_iff.mpr fun a ha hk => hne ?_
      rw [← hk, hw.placed _ a ha, hnat]
    rw [hbucket, hnone]
  rw [h.calls_eq, List.filterMap_flatMap, flatMap_range'_single _ _ _ _ hother,
    UInt16.ofNat_toNat, hbucket]
  show (if 0 ≤ (hashConn c).toNat ∧ (hashConn c).toNat < 0 + reach then
    (match t.lookup c with | none => _ | some a => _) else _) = _
  cases hl : t.lookup c with
  | none =>
    rw [CSessionHashTable.session, hl]
    split <;> rfl
  | some a =>
    rw [CSessionHashTable.session_of_lookup hl, sweepConn, CSessionHashTable.key_of_lookup hl]
    by_cases hin : (hashConn c).toNat < reach
    · rw [if_pos hin, if_pos (by omega)]
    · rw [if_neg hin, if_neg (by omega)]

end CHandle

end HttpDecoder
