import HttpDecoder.Suppression

/-!
# Whose time a session keeps

A message is reported with the time of its first packet.  `Process` sets a time stamp before
it appends, if the buffer is empty and no time stamp is set; only the `Reset` at the end of
`Parse` takes it back.  To say which packet a byte came with, the machine of a connection is
run with the packets whose payload the two buffers hold (`Origin`).

* `originMachine_view` — the packets do not disturb the machine.
* `Supplied` — a buffer holds the payload of some packets and shows the time of the first;
  `Supplied.join` — one packet joins.
* `Flow.Stamped` — both directions; `Flow.Stamped.file` — filing a packet keeps it.
* `stamped_run` — **along every run the time stamps are those of the first bytes.**
-/

namespace HttpDecoder

open CLib CHandle

/-! ## The machine with the packets it holds -/

/-- A session with the packets whose payload its buffers hold, the oldest first. -/
structure Origin where
  ses : CSession
  /-- The packets in `ReqBuf`. -/
  req : List CFormatPacket
  /-- The packets in `RspBuf`. -/
  rsp : List CFormatPacket

namespace Origin

/-- The session is opened; a new one holds nothing. -/
def opened (x : Call) (info : CSharedBehaviorInfo) : Option Origin → Origin
  | some o => { o with ses := CHandle.opened x info (some o.ses) }
  | none => ⟨CHandle.opened x info none, [], []⟩

/-- The sweep looks at a session; a call of `Parse` takes what it holds. -/
def sweep (B : Boost) (e : Env) (reach : Nat) : Option Origin → Option Origin
  | none => none
  | some o =>
    let q := sweepConn B e reach (some o.ses)
    q.1.map fun s => if q.2.isEmpty then { o with ses := s } else ⟨s, [], []⟩

/-- A packet is filed: after a call of `Parse`, if one is made, its payload is appended. -/
def file (B : Boost) (x : Call) (info : CSharedBehaviorInfo) (o : Origin) : Origin :=
  let q := processData B x.env x.packet info.matchWay o.ses
  { ses := q.ses
    req := (if q.calls.isEmpty then o.req else []) ++
      if info.matchWay = c2sMatch ∧ q.done = true then [x.packet] else []
    rsp := (if q.calls.isEmpty then o.rsp else []) ++
      if info.matchWay = s2cMatch ∧ q.done = true then [x.packet] else [] }

/-- `Process` from the FIN/RST test on. -/
def serve (B : Boost) (x : Call) (info : CSharedBehaviorInfo) (o : Origin) : Option Origin :=
  if x.packet.closes then none
  else if Traced.accepts x.packet o.ses then some (o.file B x info)
  else some o

/-- One call of `Process` as connection `c` sees it. -/
def step (B : Boost) (last : Int) (c : Conn) (o : Option Origin) (x : Call) : Option Origin :=
  let o₁ := sweep B x.env (sweepReach last x.env) o
  match x.info with
  | none => o₁
  | some info => if x.packet.conn = c then serve B x info (opened x info o₁) else o₁

theorem opened_ses (x : Call) (info : CSharedBehaviorInfo) (o : Option Origin) :
    (opened x info o).ses = CHandle.opened x info (o.map Origin.ses) := by
  cases o <;> rfl

theorem sweep_ses (B : Boost) (e : Env) (reach : Nat) (o : Option Origin) :
    (sweep B e reach o).map Origin.ses = (sweepConn B e reach (o.map Origin.ses)).1 := by
  cases o with
  | none => rfl
  | some o =>
    unfold sweep
    rw [Option.map_some, Option.map_map]
    refine (Option.map_congr fun s _ => ?_).trans Option.map_id'
    show Origin.ses (if _ then _ else _) = s
    split <;> rfl

theorem serve_ses (B : Boost) (x : Call) (info : CSharedBehaviorInfo) (o : Origin) :
    (serve B x info o).map Origin.ses = (CHandle.serve B x info o.ses).1 := by
  unfold serve
  by_cases hclose : x.packet.closes
  · rw [if_pos hclose, serve_closing hclose]
    rfl
  rw [if_neg hclose]
  by_cases hacc : Traced.accepts x.packet o.ses = true
  · rw [if_pos hacc, Traced.serve_of_accepts hacc]
    rfl
  · rw [if_neg hacc, Traced.serve_of_not_accepts (Bool.eq_false_iff.mpr hclose)
      (Bool.eq_false_iff.mpr hacc)]
    rfl

/-- Forgetting the packets gives the step of the connection. -/
theorem step_ses (B : Boost) (last : Int) (c : Conn) (o : Option Origin) (x : Call) :
    (step B last c o x).map Origin.ses = (connStep B last c (o.map Origin.ses) x).1 := by
  have hsweep := sweep_ses B x.env (sweepReach last x.env) o
  unfold step connStep
  cases x.info with
  | none => exact hsweep
  | some info =>
    by_cases hc : x.packet.conn = c
    · simp only [if_pos hc]
      rw [serve_ses, opened_ses, hsweep]
    · simp only [if_neg hc]
      exact hsweep

end Origin

/-- The machine of connection `c` with the packets it holds. -/
def originMachine (B : Boost) (last : Int) (c : Conn) :
    Machine (Option Origin) Call (CSession × Option Record) where
  step o x := (Origin.step B last c o x, (connStep B last c (o.map Origin.ses) x).2)

/-- **The packets do not disturb the machine.** -/
theorem originMachine_view (B : Boost) (last : Int) (c : Conn) (xs : List Call)
    (o : Option Origin) : ((originMachine B last c).run o xs).1.map Origin.ses =
      ((connMachine B last c).run (o.map Origin.ses) xs).1 := by
  refine ((originMachine B last c).run_view (connMachine B last c) (Option.map Origin.ses) some
    (I := fun _ => True) (A := fun _ => True) (fun _ _ _ _ => trivial) ?_ ?_ xs o trivial
      fun _ _ => trivial).1
  · intro o x _ _
    exact Origin.step_ses B last c o x
  · intro o x _ _
    exact List.filterMap_some

/-! ## One direction -/

/-- A buffer shows the payload of some packets, of which none is empty, and its time stamp is
that of the first, 0 if there is none. -/
structure Supplied (bs : Bytes) (stamp : UInt64) (ps : List CFormatPacket) : Prop where
  /-- The bytes. -/
  bytes : bs = ps.flatMap CFormatPacket.payload
  /-- The time stamp. -/
  stamp : stamp = (ps.head?.map CFormatPacket.timeStamp).getD 0
  /-- The packets carry bytes. -/
  payload : ∀ p ∈ ps, p.payload ≠ []
  /-- They have a time. -/
  time : ∀ p ∈ ps, p.timeStamp ≠ 0

theorem supplied_nil : Supplied [] 0 [] :=
  ⟨rfl, rfl, fun _ hp => absurd hp List.not_mem_nil, fun _ hp => absurd hp List.not_mem_nil⟩

namespace Supplied

variable {bs : Bytes} {stamp : UInt64} {ps : List CFormatPacket}

/-- There are no bytes without packets and no packets without bytes. -/
theorem bytes_eq_nil_iff (h : Supplied bs stamp ps) : bs = [] ↔ ps = [] := by
  rw [h.bytes, List.flatMap_eq_nil_iff]
  constructor
  · intro hnone
    apply List.eq_nil_iff_forall_not_mem.mpr
    exact fun p hp => h.payload p hp (hnone p hp)
  · rintro rfl p hp
    cases hp

/-- The same goes for the time stamp. -/
theorem stamp_eq_zero_iff (h : Supplied bs stamp ps) : stamp = 0 ↔ ps = [] := by
  cases ps with
  | nil => simp [h.stamp]
  | cons p ps =>
    have htime := h.time p List.mem_cons_self
    simp [h.stamp, htime]

/-- The guard of the time stamp asks the same thing twice. -/
theorem guard_iff (h : Supplied bs stamp ps) : (bs = [] ∧ stamp = 0) ↔ ps = [] := by
  rw [h.bytes_eq_nil_iff, h.stamp_eq_zero_iff, and_self]

/-- **A packet joins**, and stamps the buffer if it is the first. -/
theorem join (h : Supplied bs stamp ps) {p : CFormatPacket} (hdata : p.payload ≠ [])
    (htime : p.timeStamp ≠ 0) :
    Supplied (bs ++ p.payload) (if bs = [] ∧ stamp = 0 then p.timeStamp else stamp)
      (ps ++ [p]) where
  bytes := by rw [h.bytes, List.flatMap_append, List.flatMap_singleton]
  stamp := by
    cases ps with
    | nil =>
      rw [if_pos (h.guard_iff.mpr rfl)]
      rfl
    | cons q ps =>
      rw [if_neg (fun hnone => by cases h.guard_iff.mp hnone), h.stamp]
      rfl
  payload q hq := by
    rcases List.mem_append.mp hq with hq | hq
    · exact h.payload q hq
    · rwa [List.mem_singleton.mp hq]
  time q hq := by
    rcases List.mem_append.mp hq with hq | hq
    · exact h.time q hq
    · rwa [List.mem_singleton.mp hq]

end Supplied

/-! ## Both directions -/

/-- Both buffers of a flow are supplied, with the time stamps of the result. -/
structure Flow.Stamped (f : Flow) (req rsp : List CFormatPacket) : Prop where
  req : Supplied f.req f.result.requestTimeStamp req
  rsp : Supplied f.rsp f.result.responseTimeStamp rsp

namespace Flow

variable {f : Flow} {req rsp : List CFormatPacket} {p : CFormatPacket}

/-- What `Parse` leaves. -/
theorem stamped_reset (f : Flow) : f.reset.Stamped [] [] := ⟨supplied_nil, supplied_nil⟩

/-- What `Create` leaves. -/
theorem stamped_create (e : NewSession) (p : CFormatPacket) (info : CSharedBehaviorInfo) :
    (create e p info).Stamped [] [] := ⟨supplied_nil, supplied_nil⟩

namespace Stamped

/-- The sequence numbers do not matter. -/
theorem setSeq (h : f.Stamped req rsp) (n m : UInt32) : (f.setSeq n m).Stamped req rsp :=
  ⟨h.req, h.rsp⟩

/-- A finished exchange is parsed and takes its packets along. -/
theorem parseFull (h : f.Stamped req rsp) :
    f.parseFull.1.Stamped (if f.parseFull.2.isEmpty then req else [])
      (if f.parseFull.2.isEmpty then rsp else []) := by
  unfold Flow.parseFull
  by_cases hfull : f.req ≠ [] ∧ f.rsp ≠ []
  · rw [if_pos hfull]
    exact stamped_reset f
  · rw [if_neg hfull]
    exact h

/-- A packet to the server is stamped and joins the request. -/
theorem joinRequest (h : f.Stamped req rsp) (hdata : p.payload ≠ []) (htime : p.timeStamp ≠ 0) :
    ((f.stampRequest p).appendRequest p).Stamped (req ++ [p]) rsp := by
  have hjoin := h.req.join hdata htime
  unfold stampRequest
  by_cases hfirst : f.req = [] ∧ f.result.requestTimeStamp = 0
  · rw [if_pos hfirst] at hjoin ⊢
    exact ⟨hjoin, h.rsp⟩
  · rw [if_neg hfirst] at hjoin ⊢
    exact ⟨hjoin, h.rsp⟩

/-- A packet to the client is stamped and joins the response. -/
theorem joinResponse (h : f.Stamped req rsp) (hdata : p.payload ≠ []) (htime : p.timeStamp ≠ 0) :
    ((f.stampResponse p).appendResponse p).Stamped req (rsp ++ [p]) := by
  have hjoin := h.rsp.join hdata htime
  unfold stampResponse
  by_cases hfirst : f.rsp = [] ∧ f.result.responseTimeStamp = 0
  · rw [if_pos hfirst] at hjoin ⊢
    exact ⟨h.req, hjoin⟩
  · rw [if_neg hfirst] at hjoin ⊢
    exact ⟨h.req, hjoin⟩

/-- **Filing a packet keeps the time stamps**, whichever way it goes. -/
theorem file (h : f.Stamped req rsp) (hdata : p.payload ≠ []) (htime : p.timeStamp ≠ 0)
    (way : UInt32) : (f.file p way).1.Stamped
      ((if (f.file p way).2.isEmpty then req else []) ++ if way = c2sMatch then [p] else [])
      ((if (f.file p way).2.isEmpty then rsp else []) ++ if way = s2cMatch then [p] else []) := by
  have h₀ := h.setSeq p.seqNo p.ackSeqNo
  unfold Flow.file
  generalize f.setSeq p.seqNo p.ackSeqNo = f₀ at h₀ ⊢
  by_cases hunk : way = unkMatch
  · have hreq : ¬ way = c2sMatch := by rw [hunk]; decide
    have hrsp : ¬ way = s2cMatch := by rw [hunk]; decide
    simp only [if_pos hunk, if_neg hreq, if_neg hrsp, List.append_nil]
    exact h₀
  by_cases hreq : way = c2sMatch
  · have hrsp : ¬ way = s2cMatch := by rw [hreq]; decide
    simp only [if_neg hunk, if_pos hreq, if_neg hrsp, List.append_nil]
    exact h₀.parseFull.joinRequest hdata htime
  by_cases hrsp : way = s2cMatch
  · simp only [if_neg hunk, if_neg hreq, if_pos hrsp, List.append_nil]
    exact h₀.joinResponse hdata htime
  · simp only [if_neg hunk, if_neg hreq, if_neg hrsp, List.append_nil]
    exact h₀

end Stamped

end Flow

/-! ## One call -/

/-- A packet with its time and a length that is not negative. -/
structure CFormatPacket.Timed (p : CFormatPacket) : Prop where
  /-- The time of capture is not 0. -/
  time : p.timeStamp ≠ 0
  lower : 0 ≤ p.dataLen
  upper : p.dataLen < 2 ^ 15

theorem CFormatPacket.Timed.dataSize_lt {p : CFormatPacket} (h : p.Timed) :
    p.dataSize < 2 ^ 15 := by
  have hlower := h.lower
  have hupper := h.upper
  unfold dataSize sizeT
  omega

/-- A packet whose length is not 0 carries bytes. -/
theorem CFormatPacket.Timed.payload_ne_nil {p : CFormatPacket} (h : p.Timed)
    (hne : p.dataLen ≠ 0) : p.payload ≠ [] := by
  have hsize : p.dataSize ≠ 0 := by
    have hlower := h.lower
    have hupper := h.upper
    unfold dataSize sizeT
    omega
  intro hnil
  apply hsize
  rw [← Mem.length_read p.data 0 p.dataSize]
  exact congrArg List.length hnil

namespace Origin

/-- The bytes held can be counted. -/
structure Counted (o : Origin) : Prop where
  req : (o.req.flatMap CFormatPacket.payload).length < 2 ^ 32
  rsp : (o.rsp.flatMap CFormatPacket.payload).length < 2 ^ 32

/-- The time stamps are those of the first packets. -/
structure Stamped (o : Origin) : Prop where
  wf : o.ses.WF
  flow : o.ses.flow.Stamped o.req o.rsp

variable {B : Boost} {x : Call} {info : CSharedBehaviorInfo}

/-- If the allocator answers, `Append` succeeds. -/
theorem processData_done_of_granted (B : Boost) {e : Env} (he : e.Granted) {p : CFormatPacket}
    (hp : p.Timed) {way : UInt32} (hway : way = c2sMatch ∨ way = s2cMatch) {s : CSession}
    (hs : s.WF) : (processData B e p way s).done = true := by
  have hs₀ := hs.setSeq p.seqNo p.ackSeqNo
  have hsize : p.dataSize < 2 ^ 32 := hp.dataSize_lt.trans (by norm_num)
  rcases hway with rfl | rfl
  · have hwf := stampRequest_wf p (parseFull_wf B hs₀ he.parse)
    exact CBuffer.append_fst he.append _ (hwf.req.not_frees hsize)
  · exact CBuffer.append_fst he.append _ ((stampResponse_wf p hs₀).rsp.not_frees hsize)

/-- The calls of `Parse` are those of the flow, also when the bytes cannot be counted. -/
theorem processData_calls_flow (B : Boost) (e : Env) (p : CFormatPacket) (way : UInt32)
    {s : CSession} (h : s.WF) :
    (processData B e p way s).calls.isEmpty = (s.flow.file p way).2.isEmpty := by
  have h₀ := h.setSeq p.seqNo p.ackSeqNo
  have hflow₀ := CSession.flow_setSeq s p.seqNo p.ackSeqNo
  unfold processData Flow.file
  rw [← hflow₀]
  generalize s.setSeq p.seqNo p.ackSeqNo = s₀ at h₀ ⊢
  by_cases hunk : way = unkMatch
  · simp only [if_pos hunk]
    rfl
  by_cases hreq : way = c2sMatch
  · simp only [if_neg hunk, if_pos hreq]
    rw [← (parseFull_flow B e.parse h₀).2, List.isEmpty_map]
  by_cases hrsp : way = s2cMatch
  · simp only [if_neg hunk, if_neg hreq, if_pos hrsp]
    rfl
  · simp only [if_neg hunk, if_neg hreq, if_neg hrsp]
    rfl

/-- **Filing a packet keeps the time stamps.** -/
theorem Stamped.file {o : Origin} (h : o.Stamped) (he : x.env.Granted) (hx : x.packet.Timed)
    (hne : x.packet.dataLen ≠ 0) (hcount : (o.file B x info).Counted) :
    (o.file B x info).Stamped := by
  have hfile := h.flow.file (hx.payload_ne_nil hne) hx.time info.matchWay
  have hreq : (info.matchWay = c2sMatch ∧
      (processData B x.env x.packet info.matchWay o.ses).done = true) ↔
      info.matchWay = c2sMatch :=
    and_iff_left_of_imp fun hway =>
      processData_done_of_granted B he hx (Or.inl hway) h.wf
  have hrsp : (info.matchWay = s2cMatch ∧
      (processData B x.env x.packet info.matchWay o.ses).done = true) ↔
      info.matchWay = s2cMatch :=
    and_iff_left_of_imp fun hway =>
      processData_done_of_granted B he hx (Or.inr hway) h.wf
  rw [← processData_calls_flow B x.env x.packet info.matchWay h.wf] at hfile
  have hlists : (o.ses.flow.file x.packet info.matchWay).1.Stamped (o.file B x info).req
      (o.file B x info).rsp := by
    simp only [Origin.file, hreq, hrsp]
    exact hfile
  -- the bytes that can be counted are those of the flow
  have hfit : (o.ses.flow.file x.packet info.matchWay).1.Fits :=
    ⟨by rw [hlists.req.bytes]; exact hcount.req, by rw [hlists.rsp.bytes]; exact hcount.rsp⟩
  have hflow := processData_flow B he x.packet info.matchWay h.wf hfit
  refine ⟨hflow.wf _ rfl, ?_⟩
  have hsame : (o.file B x info).ses.flow = (o.ses.flow.file x.packet info.matchWay).1 :=
    Option.some.inj hflow.flow
  rw [hsame]
  exact hlists

theorem Stamped.opened (he : x.env.Granted) {o : Option Origin} (h : ∀ o' ∈ o, o'.Stamped) :
    (Origin.opened x info o).Stamped := by
  cases o with
  | none =>
    obtain ⟨hflow, hwf⟩ := opened_flow he info (o := none) fun s hs => by cases hs
    refine ⟨hwf, ?_⟩
    show (CHandle.opened x info none).flow.Stamped [] []
    rw [hflow]
    exact Flow.stamped_create ..
  | some o =>
    have ho := h o rfl
    exact ⟨⟨ho.wf.req, ho.wf.rsp⟩, ho.flow⟩

theorem Stamped.sweep {e : Env} (he : e.Granted) (reach : Nat) {o : Option Origin}
    (h : ∀ o' ∈ o, o'.Stamped) : ∀ o' ∈ Origin.sweep B e reach o, o'.Stamped := by
  cases o with
  | none => exact fun o' ho' => by cases ho'
  | some o =>
    have ho := h o rfl
    have hflow := sweepConn_flow B he reach (o := some o.ses)
      fun s hs => Option.some.inj hs ▸ ho.wf
    intro o' ho'
    obtain ⟨s, hs, hnew⟩ := Option.map_eq_some_iff.mp ho'
    have hwf := hflow.wf s hs
    have hses := hflow.flow
    have hcalls := hflow.calls
    generalize sweepConn B e reach (some o.ses) = q at hs hnew hses hcalls
    generalize due e reach (some o.ses) = d at hses hcalls
    rw [hs, Option.map_some, Option.map_some, Flow.sweep] at hses
    rw [Option.map_some, Flow.sweep] at hcalls
    have hempty : q.2.isEmpty = !d.parse := by
      rw [← List.isEmpty_map (f := fun k : CSession × Option Record => k.1.flow), hcalls]
      cases d.parse <;> rfl
    have hkept : d.erase = false := by
      cases herase : d.erase with
      | false => rfl
      | true =>
        rw [herase] at hses
        cases hses
    rw [hkept] at hses
    have hflow : s.flow = if d.parse then o.ses.flow.reset else o.ses.flow := Option.some.inj hses
    rw [hempty] at hnew
    cases hparse : d.parse with
    | true =>
      rw [hparse] at hnew hflow
      rw [← hnew]
      exact ⟨hwf, hflow ▸ Flow.stamped_reset _⟩
    | false =>
      rw [hparse] at hnew hflow
      rw [← hnew]
      refine ⟨hwf, ?_⟩
      show s.flow.Stamped o.req o.rsp
      rw [hflow]
      exact ho.flow

/-- **One call keeps the time stamps.** -/
theorem Stamped.step (last : Int) (c : Conn) (he : x.env.Granted) (hx : x.packet.Timed)
    {o : Option Origin} (h : ∀ o' ∈ o, o'.Stamped)
    (hcount : ∀ o' ∈ Origin.step B last c o x, o'.Counted) :
    ∀ o' ∈ Origin.step B last c o x, o'.Stamped := by
  have hswept := Stamped.sweep (B := B) he (sweepReach last x.env) h
  unfold Origin.step at *
  cases hinfo : x.info with
  | none => exact hswept
  | some info =>
    simp only [hinfo] at hcount ⊢
    by_cases hc : x.packet.conn = c
    · simp only [if_pos hc] at hcount ⊢
      have hopened : (Origin.opened x info _).Stamped := Stamped.opened he hswept
      generalize Origin.opened x info _ = o₁ at hcount hopened ⊢
      unfold Origin.serve at hcount ⊢
      by_cases hclose : x.packet.closes
      · rw [if_pos hclose]
        exact fun o' ho' => by cases ho'
      rw [if_neg hclose] at hcount ⊢
      by_cases hacc : Traced.accepts x.packet o₁.ses = true
      · rw [if_pos hacc] at hcount ⊢
        intro o' ho'
        rw [← Option.some.inj ho']
        exact hopened.file he hx (Traced.accepts_iff.mp hacc).2.2 (hcount _ rfl)
      · rw [if_neg hacc]
        intro o' ho'
        rwa [← Option.some.inj ho']
    · simp only [if_neg hc]
      exact hswept

end Origin

/-! ## Whole runs -/

/-- The buffer `b` is not empty if and only if the time stamp is set, and then that is the
time of the packet whose payload comes first of those in the buffer. -/
structure TimeOfFirstByte (b : CBuffer) (stamp : UInt64) (ps : List CFormatPacket) : Prop where
  /-- Bytes and time stamp come and go together. -/
  nonempty_iff : b.len ≠ 0 ↔ stamp ≠ 0
  /-- The first byte is the first of the first packet. -/
  first : b.len ≠ 0 → ∃ p rest, ps = p :: rest ∧ p.payload ≠ [] ∧
    b.contents = p.payload ++ rest.flatMap CFormatPacket.payload ∧ stamp = p.timeStamp

theorem Supplied.timeOfFirstByte {b : CBuffer} {stamp : UInt64} {ps : List CFormatPacket}
    (hb : b.WF) (h : Supplied b.contents stamp ps) : TimeOfFirstByte b stamp ps where
  nonempty_iff := by rw [Ne, hb.len_eq_zero_iff, h.bytes_eq_nil_iff, Ne, h.stamp_eq_zero_iff]
  first := by
    intro hne
    rw [Ne, hb.len_eq_zero_iff, h.bytes_eq_nil_iff] at hne
    obtain ⟨p, rest, rfl⟩ := List.exists_cons_of_ne_nil hne
    exact ⟨p, rest, rfl, h.payload p List.mem_cons_self, h.bytes, h.stamp⟩

/-- The packets in the buffers of connection `c` after the run. -/
def originOf (B : Boost) (now : Int) (c : Conn) (xs : List Call) : Option Origin :=
  ((originMachine B now c).run none xs).1

theorem originOf_concat (B : Boost) (now : Int) (c : Conn) (xs : List Call) (x : Call) :
    originOf B now c (xs ++ [x]) = Origin.step B now c (originOf B now c xs) x := by
  unfold originOf
  rw [Machine.run_concat]
  rfl

/-- **Along every run the time stamps are those of the first bytes.**  Sweeps may come at any
time; the allocator answers and the bytes held at once can be counted. -/
theorem stamped_run (B : Boost) (ses : Nat → CSession) (now : Int) (c : Conn) {xs : List Call}
    (hgrant : ∀ x ∈ xs, x.env.Granted) (htimed : ∀ x ∈ xs, x.packet.Timed)
    (hcount : ∀ pre, pre <+: xs → ∀ o ∈ originOf B now c pre, o.Counted) {s : CSession}
    (hs : ((handleMachine B).run (init ses now) xs).1.sesHash.session c = some s) :
    ∃ o, originOf B now c xs = some o ∧ o.ses = s ∧
      TimeOfFirstByte s.reqBuf s.result.requestTimeStamp o.req ∧
      TimeOfFirstByte s.rspBuf s.result.responseTimeStamp o.rsp := by
  have hstamped : ∀ o ∈ originOf B now c xs, o.Stamped := by
    clear hs
    induction xs using List.reverseRecOn with
    | nil => exact fun o ho => by cases ho
    | append_singleton xs x ih =>
      have hlast := hcount _ (List.prefix_refl _)
      rw [originOf_concat] at hlast ⊢
      apply Origin.Stamped.step now c (hgrant x (by simp)) (htimed x (by simp)) _ hlast
      apply ih (fun y hy => hgrant y (by simp [hy])) fun y hy => htimed y (by simp [hy])
      exact fun pre hpre => hcount pre (hpre.trans (List.prefix_append _ _))
  have hview := originMachine_view B now c xs none
  have hrun := (run_conn B (CSessionHashTable.wf_init ses) c xs (h := init ses now)).1
  have hnone : (init ses now).sesHash.session c = none := CSessionHashTable.session_init ses c
  rw [hnone, hs] at hrun
  have hses : (originOf B now c xs).map Origin.ses = some s := hview.trans hrun.symm
  obtain ⟨o, ho, rfl⟩ := Option.map_eq_some_iff.mp hses
  obtain ⟨hwf, hreq, hrsp⟩ := hstamped o ho
  exact ⟨o, ho, rfl, hreq.timeOfFirstByte hwf.req, hrsp.timeOfFirstByte hwf.rsp⟩

/-! ## A request in two segments -/

/-- A request that comes in two segments. -/
def stampedCalls : List Call :=
  [sends ⟨1, 1000⟩ ⟨2, 80⟩ 1 [71, 69] false, sends ⟨1, 1000⟩ ⟨2, 80⟩ 3 [84] false]

/-- The connection they come on. -/
def stampedConn : Conn := s(⟨1, 1000⟩, ⟨2, 80⟩)

theorem counted_stampedCalls {pre : List Call} (hpre : pre <+: stampedCalls) :
    ∀ o ∈ originOf Boost.decimal 0 stampedConn pre, o.Counted := by
  have hall : ∀ pre ∈ stampedCalls.inits,
      (originOf Boost.decimal 0 stampedConn pre).all (fun o =>
        decide ((o.req.flatMap CFormatPacket.payload).length < 2 ^ 32 ∧
          (o.rsp.flatMap CFormatPacket.payload).length < 2 ^ 32)) = true := by
    decide +kernel
  intro o ho
  have hcount := of_decide_eq_true
    (Option.all_eq_true _ _ |>.mp (hall pre ((List.mem_inits _ _).mpr hpre)) o ho)
  exact ⟨hcount.1, hcount.2⟩

theorem stamped_run_stampedCalls : ∃ s,
    ((handleMachine Boost.decimal).run (init blankSes 0) stampedCalls).1.sesHash.session
        stampedConn = some s ∧ s.result.requestTimeStamp = 1000000 := by
  have hlen : (((handleMachine Boost.decimal).run (init blankSes 0)
      stampedCalls).1.sesHash.session stampedConn).map (fun s => s.reqBuf.len) = some 3 := by
    decide +kernel
  obtain ⟨s, hs, hlen⟩ := Option.map_eq_some_iff.mp hlen
  have hgrant : ∀ x ∈ stampedCalls, x.env.Granted := by
    intro x hx
    rcases List.mem_pair.mp hx with rfl | rfl <;> exact Env.granted_granting 0
  have htimed : ∀ x ∈ stampedCalls, x.packet.Timed := by
    intro x hx
    rcases List.mem_pair.mp hx with rfl | rfl <;>
      exact ⟨by decide +kernel, by decide +kernel, by decide +kernel⟩
  obtain ⟨o, ho, -, hreq, -⟩ := stamped_run Boost.decimal blankSes 0 stampedConn hgrant htimed
    (fun pre hpre => counted_stampedCalls hpre) hs
  have hfirst : (originOf Boost.decimal 0 stampedConn stampedCalls).bind
      (fun o => o.req.head?.map CFormatPacket.timeStamp) = some 1000000 := by decide +kernel
  obtain ⟨p, rest, hp, -, -, hstamp⟩ := hreq.first (by rw [hlen]; decide)
  rw [ho, Option.bind_some, hp] at hfirst
  exact ⟨s, hs, hstamp.trans (Option.some.inj hfirst)⟩

end HttpDecoder
