import HttpDecoder.Suppression

/-!
# Appends that fail

`Process` stores the numbers of a packet, and perhaps its time stamp, before it calls
`Append`, and returns when `Append` fails.  What the session then knows of the packet is
its number, which is what the repeated-packet test asks for.

* `Refuses` — a packet that gets as far as `Append`, and `Append` returns `false`.
* `Restores` — the session is left as it was, and the segment may come again.
* `refused_session` — what is left instead; `Retransmits.dropped` — what becomes of the
  segment when it comes again.
* `not_restores` — **no failed append leaves the session as it was**.
-/

namespace HttpDecoder

open CLib CHandle

namespace CSession

/-- The numbers and the time stamps. -/
def marks (s : CSession) : UInt32 × UInt32 × UInt64 × UInt64 :=
  (s.seqNo, s.ackSeqNo, s.result.requestTimeStamp, s.result.responseTimeStamp)

/-- The buffer for the packets of a direction. -/
def buffer (s : CSession) (way : UInt32) : CBuffer := if way = c2sMatch then s.reqBuf else s.rspBuf

/-- The time stamp for the packets of a direction. -/
def stamp (s : CSession) (way : UInt32) : UInt64 :=
  if way = c2sMatch then s.result.requestTimeStamp else s.result.responseTimeStamp

end CSession

/-- The session with a finished exchange parsed if the packet goes to the server. -/
def flushed (B : Boost) (x : Call) (info : CSharedBehaviorInfo) (s : CSession) : CSession :=
  if info.matchWay = c2sMatch then (parseFull B x.env.parse s).1 else s

/-- The packet gets as far as `Append`, which returns `false`. -/
structure Refuses (B : Boost) (x : Call) (info : CSharedBehaviorInfo) (s : CSession) : Prop where
  /-- The packet passes the tests before. -/
  accepted : Traced.accepts x.packet s = true
  /-- Its direction is known. -/
  way : info.matchWay = c2sMatch ∨ info.matchWay = s2cMatch
  /-- `Append` fails. -/
  failed : (((flushed B x info s).buffer info.matchWay).append x.env.append
    (some x.packet.data) x.packet.dataSize).1 = false

/-- The same segment again, before the next sweep and with memory to be had. -/
structure Retransmits (h : CHandle) (x y : Call) : Prop where
  /-- Only the time of capture differs. -/
  segment : y.packet = { x.packet with time := y.packet.time }
  info : y.info = x.info
  quiet : y.env.timeCheck - h.lastTimeOutCheck < timeoutCheckDur
  granted : y.env.append.isSome

/-- The segment `y` is accepted and appended to what the session `s` holds, with its own
time stamp if it is the first of its message. -/
structure Takes (B : Boost) (h : CHandle) (y : Call) (info : CSharedBehaviorInfo)
    (s : CSession) : Prop where
  /-- It passes the tests. -/
  accepted : Traced.accepts y.packet (h.meets B y info) = true
  /-- Its payload is appended and its time stamp taken. -/
  filed : ∃ s', (h.process B y).handle.sesHash.session y.packet.conn = some s' ∧
    s'.buffer info.matchWay = ((s.buffer info.matchWay).append y.env.append
      (some y.packet.data) y.packet.dataSize).2 ∧
    ((s.buffer info.matchWay).len = 0 ∧ s.stamp info.matchWay = 0 →
      s'.stamp info.matchWay = y.packet.timeStamp)

/-- The failed append of call `x` leaves the session as it was, but for a flush. -/
structure Restores (B : Boost) (h : CHandle) (x : Call) (info : CSharedBehaviorInfo) :
    Prop where
  /-- The numbers and the time stamps are those before. -/
  marks : ((h.process B x).handle.sesHash.session x.packet.conn).map CSession.marks =
    some (flushed B x info (h.meets B x info)).marks
  /-- A retransmission of the segment is taken. -/
  retried : ∀ y, Retransmits h x y →
    Takes B (h.process B x).handle y info (flushed B x info (h.meets B x info))

/-! ## What a failed append leaves -/

section Refused

variable {B : Boost} {h : CHandle} {x : Call} {info : CSharedBehaviorInfo}

/-- **What a failed append leaves** is a session with the number of the packet. -/
theorem refused_session (hr : Reachable B h) (hinfo : x.info = some info)
    (href : Refuses B x info (h.meets B x info)) :
    ∃ s', (h.process B x).handle.sesHash.session x.packet.conn = some s' ∧
      s'.seqNo = x.packet.seqNo := by
  obtain ⟨hset, -⟩ := process_meets B hr.wf hinfo
  rw [Traced.serve_of_accepts href.accepted] at hset
  exact ⟨_, hset.self, Traced.processData_seqNo ..⟩

theorem Retransmits.conn {y : Call} (hy : Retransmits h x y) : y.packet.conn = x.packet.conn := by
  rw [hy.segment]
  rfl

theorem Retransmits.seqNo {y : Call} (hy : Retransmits h x y) :
    y.packet.seqNo = x.packet.seqNo := by
  rw [hy.segment]
  rfl

/-- The session a retransmission meets is the one that was left. -/
theorem Retransmits.meets {y : Call} (hy : Retransmits h x y) (hr : Reachable B h) {s' : CSession}
    (hs' : (h.process B x).handle.sesHash.session x.packet.conn = some s') :
    (h.process B x).handle.meets B y info = { s' with refreshTime := y.env.timeFind % 2 ^ 32 } := by
  have hlast : (h.process B x).handle.lastTimeOutCheck = h.lastTimeOutCheck :=
    (process_conn B hr.wf x).2.1
  rw [meets_quiet (hlast ▸ hy.quiet), hy.conn, hs']
  rfl

/-- **A retransmission is dropped**: its number is that of the session. -/
theorem Retransmits.dropped {y : Call} (hy : Retransmits h x y) (hr : Reachable B h)
    (hinfo : x.info = some info) (href : Refuses B x info (h.meets B x info)) :
    Traced.accepts y.packet ((h.process B x).handle.meets B y info) = false ∧
      ∃ s', (h.process B x).handle.sesHash.session x.packet.conn = some s' ∧
        ((h.process B x).handle.process B y).handle.sesHash.session x.packet.conn =
          some { s' with refreshTime := y.env.timeFind % 2 ^ 32 } := by
  obtain ⟨s', hs', hnumber⟩ := refused_session hr hinfo href
  have hmeets : (h.process B x).handle.meets B y info =
      { s' with refreshTime := y.env.timeFind % 2 ^ 32 } := hy.meets hr hs'
  have hopen : y.packet.closes = false := by
    rw [hy.segment]
    exact (Traced.accepts_iff.mp href.accepted).1
  have hsame : ((h.process B x).handle.meets B y info).seqNo = y.packet.seqNo := by
    rw [hmeets, hy.seqNo]
    exact hnumber
  have hrefused : Traced.accepts y.packet ((h.process B x).handle.meets B y info) = false := by
    rw [← Bool.not_eq_true, Traced.accepts_iff]
    exact fun hacc => hacc.2.1 hsame
  obtain ⟨hset, -⟩ := process_meets B (process_conn B hr.wf x).1 (hy.info.trans hinfo)
  have hself := hset.self
  rw [Traced.serve_of_not_accepts hopen hrefused, hmeets, hy.conn] at hself
  exact ⟨hrefused, s', hs', hself⟩

/-- The segment may come again. -/
theorem retransmits_again (h : CHandle) (x : Call) : Retransmits h x
    { x with env := { x.env with timeCheck := h.lastTimeOutCheck, append := some fun _ => 0 } } where
  segment := rfl
  info := rfl
  quiet := by
    show h.lastTimeOutCheck - h.lastTimeOutCheck < timeoutCheckDur
    rw [sub_self]
    decide
  granted := rfl

end Refused

/-- **No failed append leaves the session as it was.**  In every reachable state, for
every packet whose `Append` fails: the number of the session becomes another one, and
each retransmission before the next sweep is dropped as repeated. -/
theorem not_restores {B : Boost} {h : CHandle} (hr : Reachable B h) {x : Call}
    {info : CSharedBehaviorInfo} (hinfo : x.info = some info)
    (href : Refuses B x info (h.meets B x info)) :
    ¬ Restores B h x info ∧
      (∃ s', (h.process B x).handle.sesHash.session x.packet.conn = some s' ∧
        s'.seqNo = x.packet.seqNo ∧ s'.seqNo ≠ (h.meets B x info).seqNo) ∧
      ∀ y, Retransmits h x y →
        ¬ Takes B (h.process B x).handle y info (flushed B x info (h.meets B x info)) := by
  obtain ⟨s', hs', hnumber⟩ := refused_session hr hinfo href
  have hchanged : s'.seqNo ≠ (h.meets B x info).seqNo := by
    rw [hnumber]
    exact (Traced.accepts_iff.mp href.accepted).2.1.symm
  have hlost : ∀ y, Retransmits h x y →
      ¬ Takes B (h.process B x).handle y info (flushed B x info (h.meets B x info)) := by
    intro y hy htake
    have hdrop := (hy.dropped hr hinfo href).1
    rw [htake.accepted] at hdrop
    cases hdrop
  refine ⟨fun hrest => ?_, ⟨s', hs', hnumber, hchanged⟩, hlost⟩
  exact hlost _ (retransmits_again h x) (hrest.retried _ (retransmits_again h x))

/-! ## A segment for which there is no memory -/

/-- A segment that fills a new buffer, while no memory is to be had. -/
def unfiled : Call :=
  { sends ⟨1, 1000⟩ ⟨2, 80⟩ 5 (List.replicate 2048 65) false with
    env := { Env.granting 0 with append := none } }

/-- What is said about it. -/
def unfiledInfo : CSharedBehaviorInfo := behavior unfiled.packet

theorem refuses_unfiled : Refuses Boost.decimal unfiled unfiledInfo
    ((init blankSes 0).meets Boost.decimal unfiled unfiledInfo) where
  accepted := by decide +kernel
  way := Or.inl (by decide +kernel)
  failed := by decide +kernel

theorem not_restores_unfiled :
    ¬ Restores Boost.decimal (init blankSes 0) unfiled unfiledInfo ∧
      (∃ s', ((init blankSes 0).process Boost.decimal unfiled).handle.sesHash.session
          unfiled.packet.conn = some s' ∧ s'.seqNo = unfiled.packet.seqNo ∧
        s'.seqNo ≠ ((init blankSes 0).meets Boost.decimal unfiled unfiledInfo).seqNo) ∧
      ∀ y, Retransmits (init blankSes 0) unfiled y →
        ¬ Takes Boost.decimal ((init blankSes 0).process Boost.decimal unfiled).handle y
          unfiledInfo (flushed Boost.decimal unfiled unfiledInfo
            ((init blankSes 0).meets Boost.decimal unfiled unfiledInfo)) := by
  have hr : Reachable Boost.decimal (init blankSes 0) := ⟨blankSes, 0, [], rfl⟩
  have hinfo : unfiled.info = some unfiledInfo := rfl
  exact not_restores hr hinfo refuses_unfiled

theorem not_restores_numbers :
    ¬ Restores Boost.decimal (init blankSes 0) unfiled unfiledInfo ∧
      (((init blankSes 0).process Boost.decimal unfiled).handle.sesHash.session
        unfiled.packet.conn).map CSession.marks = some (5, 0, 1000000, 0) := by
  have hmarks : (((init blankSes 0).process Boost.decimal unfiled).handle.sesHash.session
      unfiled.packet.conn).map CSession.marks = some (5, 0, 1000000, 0) := by
    decide +kernel
  refine ⟨fun hrest => ?_, hmarks⟩
  have hbefore : (flushed Boost.decimal unfiled unfiledInfo
      ((init blankSes 0).meets Boost.decimal unfiled unfiledInfo)).marks = (0, 0, 0, 0) := by
    decide +kernel
  have hsame := hrest.marks
  rw [hmarks, hbefore] at hsame
  exact absurd hsame (by decide)

end HttpDecoder
