import HttpDecoder.Lib.KeyedList
import HttpDecoder.SessionHash

/-!
# The session table as a map from connections to sessions

`Find`, `Create` and `Remove` work on buckets of pointers.  This file shows that
on a well-formed table they are the operations of a map keyed by connections.

* `hashConn` — `HashVal` does not depend on the direction, so it is a function
  of the connection; `isSameSes_iff` — `IsSameSes` compares connections.
* `CSessionHashTable.WF` — the table invariant: every pointer in use was handed
  out, lies in the bucket of its session's connection, and no two pointers of a
  bucket share a connection.
* `lookup`, `session` — the pointer and the session of a connection, with the
  effect of a store, `Find`, `Create` and `Remove` on them.
-/

namespace HttpDecoder

open CLib KeyedList

/-! ## Direction symmetry -/

/-- **`HashVal` does not depend on the direction.** -/
theorem hashVal_comm (srcIp dstIp : UInt32) (srcPort dstPort : UInt16) :
    hashVal dstIp srcIp dstPort srcPort = hashVal srcIp dstIp srcPort dstPort := by
  unfold hashVal
  rw [UInt32.xor_comm dstIp srcIp, UInt32.xor_comm dstPort.toUInt32 srcPort.toUInt32]

/-- The bucket of a connection. -/
def hashConn : Conn → UInt16 :=
  Sym2.lift ⟨fun a b => hashVal a.ip b.ip a.port b.port,
    fun a b => hashVal_comm b.ip a.ip b.port a.port⟩

@[simp] theorem hashConn_mk (a b : Endpoint) :
    hashConn s(a, b) = hashVal a.ip b.ip a.port b.port := rfl

/-- **`IsSameSes` compares connections.** -/
theorem isSameSes_iff (srcIp dstIp : UInt32) (srcPort dstPort : UInt16) (s : CSession) :
    isSameSes srcIp dstIp srcPort dstPort s = true ↔
      s.conn = s(⟨srcIp, srcPort⟩, ⟨dstIp, dstPort⟩) := by
  simp only [isSameSes, CSession.conn, CSession.server, CSession.client, Sym2.eq_iff,
    Endpoint.mk.injEq, Bool.or_eq_true, Bool.and_eq_true, decide_eq_true_eq]
  tauto

theorem isSameSes_eq_decide (srcIp dstIp : UInt32) (srcPort dstPort : UInt16) (s : CSession) :
    isSameSes srcIp dstIp srcPort dstPort s =
      decide (s.conn = s(⟨srcIp, srcPort⟩, ⟨dstIp, dstPort⟩)) := by
  rw [Bool.eq_iff_iff, isSameSes_iff, decide_eq_true_eq]

namespace CSessionHashTable

variable (t : CSessionHashTable)

/-- The connection of the session behind a pointer. -/
def key (a : Nat) : Conn := (t.ses a).conn

/-- The pointer of a connection. -/
def lookup (c : Conn) : Option Nat := KeyedList.lookup t.key c (t.cseshash (hashConn c))

/-- The session of a connection. -/
def session (c : Conn) : Option CSession := (t.lookup c).map t.ses

/-- The table invariant. -/
structure WF : Prop where
  /-- Pointers in use were handed out. -/
  lt_next : ∀ i, ∀ a ∈ t.cseshash i, a < t.next
  /-- Every session lies in the bucket of its connection. -/
  placed : ∀ i, ∀ a ∈ t.cseshash i, hashConn (t.key a) = i
  /-- No two sessions of a bucket share a connection. -/
  unique : ∀ i, UniqueKeys t.key (t.cseshash i)

variable {t}

theorem wf_init (ses : Nat → CSession) : (init ses).WF where
  lt_next _ _ ha := absurd ha List.not_mem_nil
  placed _ _ ha := absurd ha List.not_mem_nil
  unique _ := uniqueKeys_nil

@[simp] theorem session_init (ses : Nat → CSession) (c : Conn) :
    (init ses).session c = none := rfl

/-- A pointer in the table is the one its connection looks up. -/
theorem WF.lookup_iff (h : t.WF) {c : Conn} {a : Nat} :
    t.lookup c = some a ↔ (∃ i, a ∈ t.cseshash i) ∧ t.key a = c := by
  refine (lookup_eq_some_iff (h.unique _)).trans ⟨fun ⟨ha, hk⟩ => ⟨⟨_, ha⟩, hk⟩, ?_⟩
  rintro ⟨⟨i, ha⟩, rfl⟩
  rw [h.placed i a ha]
  exact ⟨ha, rfl⟩

theorem WF.lookup_eq_none_iff (h : t.WF) {c : Conn} :
    t.lookup c = none ↔ ∀ i, ∀ a ∈ t.cseshash i, t.key a ≠ c := by
  refine ⟨fun hn i a ha hk => ?_, fun hn => KeyedList.lookup_eq_none_iff.mpr (hn _)⟩
  rw [h.lookup_iff.mpr ⟨⟨i, ha⟩, hk⟩] at hn
  exact Option.some_ne_none _ hn

theorem mem_of_lookup {c : Conn} {a : Nat} (h : t.lookup c = some a) :
    a ∈ t.cseshash (hashConn c) ∧ t.key a = c := KeyedList.mem_of_lookup h

theorem key_of_lookup {c : Conn} {a : Nat} (h : t.lookup c = some a) : (t.ses a).conn = c :=
  (KeyedList.mem_of_lookup h).2

theorem session_of_lookup {c : Conn} {a : Nat} (h : t.lookup c = some a) :
    t.session c = some (t.ses a) := by
  rw [session, h, Option.map_some]

theorem conn_of_session {c : Conn} {s : CSession} (h : t.session c = some s) : s.conn = c := by
  obtain ⟨a, ha, rfl⟩ := Option.map_eq_some_iff.mp h
  exact key_of_lookup ha

theorem session_eq_none_iff {c : Conn} : t.session c = none ↔ t.lookup c = none :=
  Option.map_eq_none_iff

/-! ## Stores -/

section Set

variable {a : Nat} {s : CSession}

@[simp] theorem set_cseshash : (t.set a s).cseshash = t.cseshash := rfl

@[simp] theorem set_ses_self : (t.set a s).ses a = s := Function.update_self ..

theorem set_ses_of_ne {b : Nat} (h : b ≠ a) : (t.set a s).ses b = t.ses b :=
  Function.update_of_ne h _ _

/-- A store that keeps the endpoints keeps every key. -/
theorem key_set (h : s.conn = (t.ses a).conn) : (t.set a s).key = t.key := by
  funext b
  by_cases hb : b = a
  · subst hb
    simp [key, h]
  · simp [key, set_ses_of_ne hb]

theorem WF.set (hw : t.WF) (h : s.conn = (t.ses a).conn) : (t.set a s).WF where
  lt_next := hw.lt_next
  placed i b hb := by rw [key_set h]; exact hw.placed i b hb
  unique i := by rw [key_set h]; exact hw.unique i

theorem lookup_set (h : s.conn = (t.ses a).conn) (c : Conn) :
    (t.set a s).lookup c = t.lookup c := by
  rw [lookup, key_set h]
  rfl

theorem session_set_self (h : s.conn = (t.ses a).conn) {c : Conn} (hc : t.lookup c = some a) :
    (t.set a s).session c = some s := by
  rw [session, lookup_set h, hc, Option.map_some, set_ses_self]

/-- A store through the pointer of one connection leaves the others alone. -/
theorem session_set_of_ne (h : s.conn = (t.ses a).conn) {c : Conn}
    (hc : (t.ses a).conn ≠ c) : (t.set a s).session c = t.session c := by
  rw [session, session, lookup_set h]
  cases hl : t.lookup c with
  | none => rfl
  | some b =>
    have hb : b ≠ a := by
      rintro rfl
      exact hc (key_of_lookup hl)
    rw [Option.map_some, Option.map_some, set_ses_of_ne hb]

end Set

/-! ## `Find` -/

/-- `Find` looks the connection up and refreshes the session it finds. -/
theorem find_eq (now : Int) (a b : Endpoint) :
    t.find now a.ip b.ip a.port b.port =
      match t.lookup s(a, b) with
      | some p => (t.set p { t.ses p with refreshTime := now % 2 ^ 32 }, some p)
      | none => (t, none) := by
  unfold find lookup KeyedList.lookup
  simp only [isSameSes_eq_decide, hashConn_mk]
  rfl

/-- **`Find` returns the session of the connection, and nothing else.** -/
theorem find_snd (now : Int) (a b : Endpoint) :
    (t.find now a.ip b.ip a.port b.port).2 = t.lookup s(a, b) := by
  rw [find_eq]
  cases t.lookup s(a, b) <;> rfl

/-! ## `Create` -/

section Create

variable (now : Int) (e : NewSession) (p : CFormatPacket) (info : CSharedBehaviorInfo)

/-- A new session belongs to the connection of the packet that created it,
whichever end becomes the server. -/
theorem newSession_conn : (newSession now e p info).conn = p.conn := by
  unfold newSession
  split
  · rfl
  · exact Sym2.eq_swap

@[simp] theorem create_snd : (t.create now e p info).2 = t.next := rfl

theorem create_ses_self : (t.create now e p info).1.ses t.next = newSession now e p info :=
  Function.update_self ..

theorem create_ses_of_ne {a : Nat} (h : a ≠ t.next) :
    (t.create now e p info).1.ses a = t.ses a := Function.update_of_ne h _ _

theorem create_cseshash (i : UInt16) :
    (t.create now e p info).1.cseshash i =
      if i = hashConn p.conn then t.cseshash i ++ [t.next] else t.cseshash i := by
  have hidx : hashVal (newSession now e p info).serverIp (newSession now e p info).clientIp
      (newSession now e p info).serverPort (newSession now e p info).clientPort =
      hashConn p.conn := by
    rw [← newSession_conn now e p info]
    rfl
  simp only [create, hidx]
  by_cases h : i = hashConn p.conn
  · subst h
    rw [Function.update_self, if_pos rfl]
  · rw [Function.update_of_ne h, if_neg h]

/-- Keys of pointers in use are not touched by a creation. -/
theorem WF.key_create (h : t.WF) {i : UInt16} :
    ∀ a ∈ t.cseshash i, (t.create now e p info).1.key a = t.key a := by
  intro a ha
  have hlt := h.lt_next i a ha
  rw [key, create_ses_of_ne now e p info (by omega), key]

theorem key_create_self : (t.create now e p info).1.key t.next = p.conn := by
  rw [key, create_ses_self, newSession_conn]

/-- A creation leaves the other connections in their places. -/
theorem WF.filter_create (h : t.WF) (i : UInt16) :
    (((t.create now e p info).1.cseshash i).filter fun q =>
        (t.create now e p info).1.key q ≠ p.conn) =
      (t.cseshash i).filter fun q => t.key q ≠ p.conn := by
  have hold : ((t.cseshash i).filter fun q => (t.create now e p info).1.key q ≠ p.conn) =
      (t.cseshash i).filter fun q => t.key q ≠ p.conn := by
    refine List.filter_congr fun q hq => ?_
    rw [h.key_create now e p info q hq]
  rw [create_cseshash]
  split
  · rw [List.filter_append, hold]
    simp [key_create_self now e p info]
  · exact hold

variable {p}

/-- Creating a session for an absent connection keeps the invariant. -/
theorem WF.create (h : t.WF) (hp : t.lookup p.conn = none) : (t.create now e p info).1.WF := by
  have hmem : ∀ i, ∀ a ∈ (t.create now e p info).1.cseshash i,
      a ∈ t.cseshash i ∨ (a = t.next ∧ i = hashConn p.conn) := by
    intro i a ha
    rw [create_cseshash] at ha
    split at ha
    · rcases List.mem_append.mp ha with ha | ha
      · exact Or.inl ha
      · exact Or.inr ⟨List.mem_singleton.mp ha, by assumption⟩
    · exact Or.inl ha
  refine ⟨fun i a ha => ?_, fun i a ha => ?_, fun i => ?_⟩
  · show a < t.next + 1
    rcases hmem i a ha with ha | ⟨rfl, -⟩
    · exact lt_trans (h.lt_next i a ha) (Nat.lt_succ_self _)
    · exact Nat.lt_succ_self _
  · rcases hmem i a ha with ha | ⟨rfl, rfl⟩
    · rw [h.key_create now e p info a ha]
      exact h.placed i a ha
    · rw [key_create_self]
  · have hold : UniqueKeys (t.create now e p info).1.key (t.cseshash i) :=
      (UniqueKeys.congr (h.key_create now e p info)).mpr (h.unique i)
    rw [create_cseshash]
    split
    · rename_i hi
      refine hold.concat ?_
      rw [key_create_self, lookup_congr (h.key_create now e p info), hi]
      exact hp
    · exact hold

/-- The new session is the one its connection looks up. -/
theorem WF.lookup_create_self (h : t.WF) (hp : t.lookup p.conn = none) :
    (t.create now e p info).1.lookup p.conn = some t.next := by
  refine (h.create now e info hp).lookup_iff.mpr ⟨⟨hashConn p.conn, ?_⟩, key_create_self ..⟩
  rw [create_cseshash, if_pos rfl]
  exact List.mem_append_right _ (List.mem_singleton_self _)

/-- The other connections look up what they did. -/
theorem WF.lookup_create_of_ne (h : t.WF) {c : Conn} (hc : p.conn ≠ c) :
    (t.create now e p info).1.lookup c = t.lookup c := by
  have hold : KeyedList.lookup (t.create now e p info).1.key c (t.cseshash (hashConn c)) =
      t.lookup c := lookup_congr (h.key_create now e p info) c
  rw [lookup, create_cseshash]
  split
  · rw [lookup_concat, hold, key_create_self, if_neg hc, Option.or_none]
  · exact hold

theorem WF.session_create_of_ne (h : t.WF) {c : Conn} (hc : p.conn ≠ c) :
    (t.create now e p info).1.session c = t.session c := by
  rw [session, session, h.lookup_create_of_ne now e info hc]
  cases hl : t.lookup c with
  | none => rfl
  | some a =>
    have hlt := h.lt_next _ a (mem_of_lookup hl).1
    rw [Option.map_some, Option.map_some, create_ses_of_ne now e p info (by omega)]

end Create

/-! ## `Remove` -/

section Remove

variable {a b : Endpoint}

/-- On a well-formed table `Remove` takes out every session of the connection. -/
theorem WF.remove_cseshash (h : t.WF) (i : UInt16) :
    (t.remove a.ip b.ip a.port b.port).cseshash i =
      (t.cseshash i).filter fun q => t.key q ≠ s(a, b) := by
  unfold remove
  simp only [isSameSes_eq_decide]
  by_cases hi : i = hashConn s(a, b)
  · subst hi
    rw [hashConn_mk, Function.update_self]
    exact eraseP_eq_filter (h.unique _) s(a, b)
  · rw [Function.update_of_ne (by simpa using hi)]
    refine (List.filter_eq_self.mpr fun q hq => ?_).symm
    have hk : t.key q ≠ s(a, b) := by
      intro hk
      rw [← h.placed i q hq, hk] at hi
      exact hi rfl
    simpa using hk

@[simp] theorem remove_ses : (t.remove a.ip b.ip a.port b.port).ses = t.ses := rfl

theorem key_remove : (t.remove a.ip b.ip a.port b.port).key = t.key := rfl

theorem WF.remove (h : t.WF) : (t.remove a.ip b.ip a.port b.port).WF := by
  refine ⟨fun i q hq => ?_, fun i q hq => ?_, fun i => ?_⟩
  · rw [h.remove_cseshash] at hq
    exact h.lt_next i q (List.mem_of_mem_filter hq)
  · rw [h.remove_cseshash] at hq
    exact h.placed i q (List.mem_of_mem_filter hq)
  · rw [h.remove_cseshash, key_remove]
    exact (h.unique i).filter _

/-- **After `Remove` no session of the connection is left.** -/
theorem WF.lookup_remove_self (h : t.WF) :
    (t.remove a.ip b.ip a.port b.port).lookup s(a, b) = none := by
  refine KeyedList.lookup_eq_none_iff.mpr fun q hq => ?_
  rw [h.remove_cseshash] at hq
  rw [key_remove]
  simpa using (List.mem_filter.mp hq).2

theorem WF.lookup_remove_of_ne (h : t.WF) {c : Conn} (hc : s(a, b) ≠ c) :
    (t.remove a.ip b.ip a.port b.port).lookup c = t.lookup c := by
  rw [lookup, h.remove_cseshash, key_remove]
  refine lookup_filter fun q _ hk => ?_
  rw [hk]
  simpa using hc.symm

theorem WF.session_remove_of_ne (h : t.WF) {c : Conn} (hc : s(a, b) ≠ c) :
    (t.remove a.ip b.ip a.port b.port).session c = t.session c := by
  rw [session, session, h.lookup_remove_of_ne hc, remove_ses]

end Remove

end CSessionHashTable

end HttpDecoder
