import HttpDecoder.Segment

/-!
# The session table over whole runs

The invariant of the table in the words of the source, for every state reachable
from `Init`, and what it says about `Find`, `Create` and the closing of a
connection.

* `TableInvariant` — placement by `HashVal` and uniqueness under `IsSameSes`.
* `LookupCorrect` — `Find` finds exactly what is there, from either side, also
  after a `Create`.
* `Closed` — what a FIN or RST leaves.
* `reachable_table` — all three, in every reachable state.
-/

namespace HttpDecoder

open CLib CHandle

/-- The table invariant in the words of the source. -/
structure TableInvariant (t : CSessionHashTable) : Prop where
  /-- Every session lies in the bucket `HashVal` gives for its endpoints. -/
  placed : ∀ i, ∀ a ∈ t.cseshash i, i = hashVal (t.ses a).serverIp (t.ses a).clientIp
    (t.ses a).serverPort (t.ses a).clientPort
  /-- No pointer lies twice in a bucket. -/
  nodup : ∀ i, (t.cseshash i).Nodup
  /-- No two sessions anywhere in the table are the same for `IsSameSes`. -/
  unique : ∀ srcIp dstIp srcPort dstPort, ∀ i, ∀ a ∈ t.cseshash i, ∀ j, ∀ b ∈ t.cseshash j,
    isSameSes srcIp dstIp srcPort dstPort (t.ses a) = true →
    isSameSes srcIp dstIp srcPort dstPort (t.ses b) = true → i = j ∧ a = b

/-- What `Find` and `Create` promise. -/
structure LookupCorrect (t : CSessionHashTable) : Prop where
  /-- `Find` returns the sessions of the table that connect the endpoints. -/
  find_iff : ∀ now srcIp dstIp srcPort dstPort a,
    (t.find now srcIp dstIp srcPort dstPort).2 = some a ↔
      (∃ i, a ∈ t.cseshash i) ∧ isSameSes srcIp dstIp srcPort dstPort (t.ses a) = true
  /-- It fails when no session of the table does. -/
  find_none : ∀ now srcIp dstIp srcPort dstPort,
    (t.find now srcIp dstIp srcPort dstPort).2 = none ↔
      ∀ i, ∀ a ∈ t.cseshash i, isSameSes srcIp dstIp srcPort dstPort (t.ses a) = false
  /-- The swapped endpoints have the same session. -/
  find_swap : ∀ now now' srcIp dstIp srcPort dstPort,
    (t.find now dstIp srcIp dstPort srcPort).2 = (t.find now' srcIp dstIp srcPort dstPort).2
  /-- What `Create` returns after a failed `Find` is found from both sides. -/
  create_find : ∀ now e info (p : CFormatPacket),
    (t.find now p.srcIp p.dstIp p.srcPort p.dstPort).2 = none →
    ∀ now', ((t.create now e p info).1.find now' p.srcIp p.dstIp p.srcPort p.dstPort).2 =
        some (t.create now e p info).2 ∧
      ((t.create now e p info).1.find now' p.dstIp p.srcIp p.dstPort p.srcPort).2 =
        some (t.create now e p info).2

/-- The sweep of call `x` erases the session at `a` from bucket `i`. -/
def sweptOut (h : CHandle) (x : Call) (i : UInt16) (a : Nat) : Bool :=
  h.sweeps x.env && decide (i.toNat < 65535) &&
    sweepExpires x.env.timeCheck (h.sesHash.ses a)

/-- What a FIN or RST packet leaves: no session for its endpoints, and every other
session that the sweep of the same call did not erase, in its place and with its
endpoints. -/
structure Closed (h : CHandle) (x : Call) (h' : CHandle) : Prop where
  /-- No session for the endpoints remains. -/
  gone : ∀ i, ∀ a ∈ h'.sesHash.cseshash i, isSameSes x.packet.srcIp x.packet.dstIp
    x.packet.srcPort x.packet.dstPort (h'.sesHash.ses a) = false
  /-- The other sessions keep their presence and their order. -/
  others : ∀ i, h'.sesHash.cseshash i = (h.sesHash.cseshash i).filter fun a =>
    !isSameSes x.packet.srcIp x.packet.dstIp x.packet.srcPort x.packet.dstPort
      (h.sesHash.ses a) && !sweptOut h x i a
  /-- They keep their endpoints. -/
  ends : ∀ i, ∀ a ∈ h'.sesHash.cseshash i,
    (h'.sesHash.ses a).server = (h.sesHash.ses a).server ∧
      (h'.sesHash.ses a).client = (h.sesHash.ses a).client

/-! ## From the well-formed table -/

section WellFormed

variable {t : CSessionHashTable}

/-- A well-formed table satisfies the invariant of the source. -/
theorem CSessionHashTable.WF.tableInvariant (h : t.WF) : TableInvariant t where
  placed i a ha := (h.placed i a ha).symm
  nodup i := (h.unique i).nodup
  unique srcIp dstIp srcPort dstPort i a ha j b hb hsa hsb := by
    have hka : t.key a = s(⟨srcIp, srcPort⟩, ⟨dstIp, dstPort⟩) := (isSameSes_iff ..).mp hsa
    have hkb : t.key b = s(⟨srcIp, srcPort⟩, ⟨dstIp, dstPort⟩) := (isSameSes_iff ..).mp hsb
    have hij : i = j := by rw [← h.placed i a ha, ← h.placed j b hb, hka, hkb]
    subst hij
    exact ⟨rfl, (h.unique i).eq_of_mem ha hb (hka.trans hkb.symm)⟩

/-- On a well-formed table `Find` and `Create` keep their promises. -/
theorem CSessionHashTable.WF.lookupCorrect (h : t.WF) : LookupCorrect t where
  find_iff now srcIp dstIp srcPort dstPort a := by
    rw [isSameSes_iff]
    have hfind := CSessionHashTable.find_snd (t := t) now ⟨srcIp, srcPort⟩ ⟨dstIp, dstPort⟩
    rw [hfind]
    exact h.lookup_iff
  find_none now srcIp dstIp srcPort dstPort := by
    have hfind := CSessionHashTable.find_snd (t := t) now ⟨srcIp, srcPort⟩ ⟨dstIp, dstPort⟩
    rw [hfind, h.lookup_eq_none_iff]
    refine forall_congr' fun i => forall₂_congr fun a _ => ?_
    rw [← Bool.not_eq_true, isSameSes_iff]
    rfl
  find_swap now now' srcIp dstIp srcPort dstPort := by
    have hfind := CSessionHashTable.find_snd (t := t) now' ⟨srcIp, srcPort⟩ ⟨dstIp, dstPort⟩
    have hswap := CSessionHashTable.find_snd (t := t) now ⟨dstIp, dstPort⟩ ⟨srcIp, srcPort⟩
    rw [Sym2.eq_swap] at hswap
    exact hswap.trans hfind.symm
  create_find now e info p hnone now' := by
    have hl : t.lookup p.conn = none := by
      rw [← hnone]
      exact (CSessionHashTable.find_snd (t := t) now p.src p.dst).symm
    have hnew := h.lookup_create_self now e info hl
    rw [CSessionHashTable.create_snd, ← hnew]
    constructor
    · exact CSessionHashTable.find_snd now' p.src p.dst
    · have hswap := CSessionHashTable.find_snd (t := (t.create now e p info).1) now' p.dst p.src
      rw [Sym2.eq_swap] at hswap
      exact hswap

end WellFormed

/-! ## Closing a connection -/

namespace CHandle

/-- The table after a FIN or RST: the opened session is stored back and removed. -/
theorem process_closes (B : Boost) {h : CHandle} {x : Call} {info : CSharedBehaviorInfo}
    (hinfo : x.info = some info) (hclose : x.packet.closes = true)
    (hw : (h.timeOutCheck B x.env).1.sesHash.WF) :
    ∃ t' a s, Opens (h.timeOutCheck B x.env).1.sesHash t' a x info ∧
      s.server = (t'.ses a).server ∧ s.client = (t'.ses a).client ∧
      (h.process B x).handle.sesHash = (t'.set a s).remove x.packet.srcIp x.packet.dstIp
        x.packet.srcPort x.packet.dstPort := by
  have hopen := findOrCreate_opens hw x info
  have hproc := (process_table B h hinfo).1 hclose
  generalize findOrCreate (h.timeOutCheck B x.env).1.sesHash x info = fc at hopen hproc
  refine ⟨fc.1, fc.2, (parse B x.env.parse (fc.1.ses fc.2)).1, hopen, ?_, ?_, by rw [hproc]⟩
  · rw [parse_fst]
    rfl
  · rw [parse_fst]
    rfl

section Remove

variable {t t' : CSessionHashTable} {a : Nat} {x : Call} {info : CSharedBehaviorInfo}
  {s : CSession}

/-- Removing the opened session takes the connection out of every bucket. -/
theorem Opens.remove_cseshash (h : Opens t t' a x info) (hs : s.conn = (t'.ses a).conn)
    (i : UInt16) :
    ((t'.set a s).remove x.packet.srcIp x.packet.dstIp x.packet.srcPort
      x.packet.dstPort).cseshash i = (t.cseshash i).filter fun q => t.key q ≠ x.packet.conn := by
  rw [← h.bucket_other i, ← CSessionHashTable.key_set hs]
  exact (h.wf.set hs).remove_cseshash (a := x.packet.src) (b := x.packet.dst) i

/-- The objects of the other connections are not touched. -/
theorem Opens.remove_ses (h : Opens t t' a x info) (hs : s.conn = (t'.ses a).conn)
    {i : UInt16} {q : Nat}
    (hq : q ∈ ((t'.set a s).remove x.packet.srcIp x.packet.dstIp x.packet.srcPort
      x.packet.dstPort).cseshash i) : (t'.set a s).ses q = t.ses q := by
  have hne : q ≠ a := by
    rintro rfl
    rw [h.remove_cseshash hs, ← h.bucket_other i] at hq
    have hkey : t'.key q = x.packet.conn := CSessionHashTable.key_of_lookup h.lookup_self
    simp [hkey] at hq
  rw [CSessionHashTable.set_ses_of_ne hne, h.ses_other q hne]

end Remove

/-- The sweep of a call keeps what it does not erase. -/
theorem Swept.cseshash_eq {B : Boost} {h : CHandle} {x : Call} {t' : CSessionHashTable}
    {calls : List ParseCall}
    (hsw : Swept B x.env h.sesHash t' calls 0 (sweepReach h.lastTimeOutCheck x.env))
    (i : UInt16) :
    t'.cseshash i = (h.sesHash.cseshash i).filter fun a => !sweptOut h x i a := by
  by_cases hin : 0 ≤ i.toNat ∧ i.toNat < 0 + sweepReach h.lastTimeOutCheck x.env
  · rw [hsw.bucket_in i hin.1 hin.2]
    refine List.filter_congr fun a _ => ?_
    have hdue : ¬ x.env.timeCheck - h.lastTimeOutCheck < timeoutCheckDur := by
      intro hdue
      rw [sweepReach, if_pos hdue] at hin
      omega
    have hi : i.toNat < 65535 := by
      rw [sweepReach, if_neg hdue] at hin
      omega
    rw [sweptOut, sweeps_iff.mpr hdue, decide_eq_true hi, Bool.true_and, Bool.true_and]
  · rw [hsw.bucket_out i hin]
    refine (List.filter_eq_self.mpr fun a _ => ?_).symm
    by_cases hdue : x.env.timeCheck - h.lastTimeOutCheck < timeoutCheckDur
    · have hs : h.sweeps x.env = false := by
        rw [← Bool.not_eq_true, sweeps_iff, not_not]
        exact hdue
      rw [sweptOut, hs, Bool.false_and, Bool.false_and, Bool.not_false]
    · rw [sweepReach, if_neg hdue] at hin
      rw [sweptOut, decide_eq_false (by omega), Bool.and_false, Bool.false_and, Bool.not_false]

/-- **A FIN or RST removes the session of its endpoints and leaves the others in
place.** -/
theorem process_closed (B : Boost) {h : CHandle} (hw : h.sesHash.WF) {x : Call}
    {info : CSharedBehaviorInfo} (hinfo : x.info = some info) (hclose : x.packet.closes = true) :
    Closed h x (h.process B x).handle := by
  have hsw : Swept B x.env h.sesHash (h.timeOutCheck B x.env).1.sesHash
      (h.timeOutCheck B x.env).2 0 (sweepReach h.lastTimeOutCheck x.env) :=
    timeOutCheck_swept hw
  obtain ⟨t', a, s, hopen, hserver, hclient, hproc⟩ := process_closes B hinfo hclose (hsw.wf hw)
  have hs : s.conn = (t'.ses a).conn := CSession.conn_congr hserver hclient
  have hkept : ∀ i, ∀ q ∈ (h.process B x).handle.sesHash.cseshash i,
      q ∈ (h.timeOutCheck B x.env).1.sesHash.cseshash i ∧ h.sesHash.key q ≠ x.packet.conn ∧
        (h.process B x).handle.sesHash.ses q = (h.timeOutCheck B x.env).1.sesHash.ses q := by
    intro i q hq
    rw [hproc] at hq ⊢
    refine ⟨?_, ?_, hopen.remove_ses hs hq⟩
    · rw [hopen.remove_cseshash hs] at hq
      exact List.mem_of_mem_filter hq
    · rw [hopen.remove_cseshash hs, hsw.key_eq] at hq
      simpa using (List.mem_filter.mp hq).2
  refine ⟨fun i q hq => ?_, fun i => ?_, fun i q hq => ?_⟩
  · obtain ⟨-, hkey, hses⟩ := hkept i q hq
    rw [← Bool.not_eq_true, isSameSes_iff, hses, CSession.conn_congr (hsw.roles q).1
      (hsw.roles q).2]
    exact hkey
  · rw [hproc, hopen.remove_cseshash hs, hsw.key_eq, hsw.cseshash_eq, List.filter_filter]
    refine List.filter_congr fun q _ => ?_
    rw [isSameSes_eq_decide, ← decide_not]
    rfl
  · obtain ⟨-, -, hses⟩ := hkept i q hq
    rw [hses]
    exact hsw.roles q

end CHandle

/-- **The table over whole runs.**  In every reachable state sessions lie where
`HashVal` puts them and are unique under `IsSameSes`, `Find` and `Create` agree on
them from either side, and a FIN or RST removes exactly the session of its
endpoints. -/
theorem reachable_table {B : Boost} {h : CHandle} (hr : Reachable B h) :
    TableInvariant h.sesHash ∧ LookupCorrect h.sesHash ∧
      ∀ x info, x.info = some info → x.packet.closes = true →
        Closed h x (h.process B x).handle :=
  ⟨hr.wf.tableInvariant, hr.wf.lookupCorrect,
    fun _ _ hinfo hclose => process_closed B hr.wf hinfo hclose⟩

/-- The handle after one request segment. -/
def afterRequest : CHandle :=
  ((handleMachine Boost.decimal).run (init blankSes 0)
    [sends ⟨1, 1000⟩ ⟨2, 80⟩ 1 (ascii ['G']) false]).1

/-- The server's FIN on the same connection. -/
def serverFin : Call := sends ⟨2, 80⟩ ⟨1, 1000⟩ 9 [] true

theorem reachable_table_serverFin : TableInvariant afterRequest.sesHash ∧
    LookupCorrect afterRequest.sesHash ∧
      Closed afterRequest serverFin (afterRequest.process Boost.decimal serverFin).handle := by
  have hr : Reachable Boost.decimal afterRequest := ⟨_, _, _, rfl⟩
  obtain ⟨hinv, hlookup, hclosed⟩ := reachable_table hr
  exact ⟨hinv, hlookup, hclosed serverFin _ rfl (segment_closes ..)⟩

end HttpDecoder
