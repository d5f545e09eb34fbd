import HttpDecoder.Segment

/-!
# Which sessions the sweep erases

`TimeOutCheck` walks the buckets below 65535; `Init` makes 65536 of them and `HashVal`
answers every 16-bit value.

* `sweepTable_cseshash` — a swept bucket keeps the sessions that did not expire, on every
  table whatsoever.
* `ExpiresIdle` — the sweep keeps exactly the sessions that are not idle.
* `expiresIdle_iff` — **when it does**: the last bucket holds no idle session.
-/

namespace HttpDecoder

open CLib CHandle

namespace CHandle

/-! ## One bucket -/

/-- Parsing does not refresh a session. -/
theorem parse_refreshTime (B : Boost) (e : ParseEnv) (s : CSession) :
    (parse B e s).1.refreshTime = s.refreshTime := by
  rw [parse_fst]
  rfl

/-- Expiry hangs on the refresh time only. -/
theorem sweepExpires_congr {tsNow : Int} {s s' : CSession} (h : s'.refreshTime = s.refreshTime) :
    sweepExpires tsNow s' = sweepExpires tsNow s := by
  unfold sweepExpires
  rw [h]

/-- A bucket keeps the sessions that did not expire, in order, and refreshes none. -/
theorem sweepBucket_kept (B : Boost) (e : Env) (l : List Nat) : ∀ ses : Nat → CSession,
    (sweepBucket B e ses l).kept = l.filter (fun a => !sweepExpires e.timeCheck (ses a)) ∧
      ∀ a, ((sweepBucket B e ses l).ses a).refreshTime = (ses a).refreshTime := by
  induction l with
  | nil =>
    intro ses
    exact ⟨rfl, fun _ => rfl⟩
  | cons b l ih =>
    intro ses
    -- the objects after the head of the bucket
    generalize hses₁ : (if sweepParses e.timeCheck (ses b) then
      Function.update ses b (parse B (e.sweep (ses b).server (ses b).client) (ses b)).1
      else ses) = ses₁
    have hrefresh : ∀ a, (ses₁ a).refreshTime = (ses a).refreshTime := by
      intro a
      rw [← hses₁]
      split
      · by_cases hab : a = b
        · rw [hab, Function.update_self, parse_refreshTime]
        · rw [Function.update_of_ne hab]
      · rfl
    obtain ⟨hkept, hrest⟩ := ih ses₁
    have hfilter : (l.filter fun a => !sweepExpires e.timeCheck (ses₁ a)) =
        l.filter fun a => !sweepExpires e.timeCheck (ses a) :=
      List.filter_congr fun a _ => by rw [sweepExpires_congr (hrefresh a)]
    unfold sweepBucket
    simp only [hses₁, hkept, hfilter, sweepExpires_congr (hrefresh b)]
    refine ⟨?_, fun a => (hrest a).trans (hrefresh a)⟩
    cases hx : sweepExpires e.timeCheck (ses b) with
    | true => simp [hx]
    | false => simp [hx]

/-! ## All buckets -/

/-- The loop over the buckets. -/
theorem sweepTable_cseshash (B : Boost) (e : Env) (n : Nat) :
    ∀ (t : CSessionHashTable) (i : Nat), i + n ≤ 65536 →
      (∀ j : UInt16, (sweepTable B e t i n).1.cseshash j =
        if i ≤ j.toNat ∧ j.toNat < i + n then
          (t.cseshash j).filter fun a => !sweepExpires e.timeCheck (t.ses a)
        else t.cseshash j) ∧
      ∀ a, ((sweepTable B e t i n).1.ses a).refreshTime = (t.ses a).refreshTime := by
  induction n with
  | zero =>
    intro t i _
    refine ⟨fun j => ?_, fun _ => rfl⟩
    rw [if_neg (by omega)]
    rfl
  | succ n ih =>
    intro t i hi
    obtain ⟨hkept, hrefresh⟩ := sweepBucket_kept B e (t.cseshash (UInt16.ofNat i)) t.ses
    have hindex : (UInt16.ofNat i).toNat = i := by
      rw [UInt16.toNat_ofNat', Nat.mod_eq_of_lt (by omega)]
    unfold sweepTable
    simp only
    generalize sweepBucket B e t.ses (t.cseshash (UInt16.ofNat i)) = q at hkept hrefresh ⊢
    obtain ⟨hbuckets, hrest⟩ := ih { t with
      ses := q.ses, cseshash := Function.update t.cseshash (UInt16.ofNat i) q.kept } (i + 1)
      (by omega)
    refine ⟨fun j => ?_, fun a => (hrest a).trans (hrefresh a)⟩
    rw [hbuckets j]
    simp only [sweepExpires_congr (hrefresh _)]
    by_cases hj : j = UInt16.ofNat i
    · have hjn : j.toNat = i := by rw [hj, hindex]
      rw [if_neg (by omega), if_pos (by omega), hj, Function.update_self, hkept]
    · have hjn : j.toNat ≠ i := fun heq => hj (by rw [← heq, UInt16.ofNat_toNat])
      rw [Function.update_of_ne hj]
      by_cases hin : i + 1 ≤ j.toNat ∧ j.toNat < i + 1 + n
      · rw [if_pos hin, if_pos (by omega)]
      · rw [if_neg hin, if_neg (by omega)]

/-- What a due sweep leaves in the buckets. -/
theorem timeOutCheck_cseshash (B : Boost) {h : CHandle} {e : Env} (hs : h.sweeps e = true)
    (i : UInt16) : (h.timeOutCheck B e).1.sesHash.cseshash i =
      if i = 65535 then h.sesHash.cseshash i
      else (h.sesHash.cseshash i).filter fun a => !sweepExpires e.timeCheck (h.sesHash.ses a) := by
  obtain ⟨hbuckets, -⟩ := sweepTable_cseshash B e 65535 h.sesHash 0 (by omega)
  have hlt := i.toNat_lt
  rw [(timeOutCheck_of_sweeps hs).1, hbuckets i]
  by_cases hi : i = 65535
  · have hout : ¬ (0 ≤ i.toNat ∧ i.toNat < 0 + 65535) := by
      have htoNat : i.toNat = 65535 := congrArg UInt16.toNat hi
      omega
    rw [if_pos hi, if_neg hout]
  · have hne : i.toNat ≠ 65535 := fun heq => hi (UInt16.toNat_inj.mp heq)
    rw [if_neg hi, if_pos (by omega)]

end CHandle

/-! ## Exactly the idle sessions -/

/-- The sweep at `tsNow` from `t` to `t'` keeps exactly the sessions that are not idle: in
every bucket those with `tsNow - RefreshTime < TIMEOUT`, in their order. -/
def ExpiresIdle (t t' : CSessionHashTable) (tsNow : Int) : Prop :=
  ∀ i : UInt16, t'.cseshash i =
    (t.cseshash i).filter fun a => decide (tsNow - (t.ses a).refreshTime < timeout)

/-- **When the sweep expires exactly the idle sessions.**  For every table and every clock
that passes the interval guard: exactly if bucket 65535 holds no idle session. -/
theorem expiresIdle_iff (B : Boost) {h : CHandle} {e : Env} (hs : h.sweeps e = true) :
    ExpiresIdle h.sesHash (h.timeOutCheck B e).1.sesHash e.timeCheck ↔
      ∀ a ∈ h.sesHash.cseshash 65535,
        e.timeCheck - (h.sesHash.ses a).refreshTime < timeout := by
  have hbuckets := timeOutCheck_cseshash B hs
  have hlive : ∀ a, (!sweepExpires e.timeCheck (h.sesHash.ses a)) =
      decide (e.timeCheck - (h.sesHash.ses a).refreshTime < timeout) := by
    intro a
    rw [sweepExpires, ← decide_not, decide_eq_decide, not_le]
  constructor
  · intro hexact a ha
    have hlast := hexact 65535
    rw [hbuckets, if_pos rfl] at hlast
    exact of_decide_eq_true (List.filter_eq_self.mp hlast.symm a ha)
  · intro hlast i
    rw [hbuckets]
    by_cases hi : i = 65535
    · rw [if_pos hi, hi]
      exact (List.filter_eq_self.mpr fun a ha => decide_eq_true (hlast a ha)).symm
    · rw [if_neg hi]
      exact List.filter_congr fun a _ => hlive a

/-! ## A session in the last bucket -/

/-- The environment at a later time. -/
def Env.at (tsNow : Int) : Env := { Env.granting 0 with timeCheck := tsNow }

/-- After one packet between two ends whose connection has the hash value 65535. -/
def lastBucket : CHandle :=
  ((CHandle.init blankSes 0).process Boost.decimal
    (sends ⟨0xfcba, 1000⟩ ⟨2, 80⟩ 1 [71] false)).handle

theorem lastBucket_cseshash : lastBucket.sesHash.cseshash 65535 = [0] ∧
    (lastBucket.sesHash.ses 0).refreshTime = 0 := by decide +kernel

theorem expiresIdle_iff_lastBucket :
    ExpiresIdle lastBucket.sesHash (lastBucket.timeOutCheck Boost.decimal (Env.at 3599)).1.sesHash
      3599 :=
  (expiresIdle_iff Boost.decimal (h := lastBucket) (e := Env.at 3599) (by decide +kernel)).mpr
    (by decide +kernel)

/-- At 4000 seconds its session is idle and stays. -/
theorem not_expiresIdle_lastBucket : ¬ ExpiresIdle lastBucket.sesHash
    (lastBucket.timeOutCheck Boost.decimal (Env.at 4000)).1.sesHash 4000 := by
  intro hexact
  have hlast := hexact 65535
  rw [timeOutCheck_cseshash Boost.decimal (by decide +kernel), if_pos rfl,
    lastBucket_cseshash.1] at hlast
  have hlive := List.filter_eq_self.mp hlast.symm 0 List.mem_cons_self
  rw [lastBucket_cseshash.2] at hlive
  exact absurd hlive (by decide)

end HttpDecoder
