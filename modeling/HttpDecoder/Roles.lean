import HttpDecoder.Trace

/-!
# Who sent a byte

`HandleMessage` takes a packet to port 80 for a packet to the server, `Create` fixes
the roles of a session once and `IsSameSes` matches both orientations.  The three
agree on connections with exactly one end on port 80.

* `Sided` — the invariant of a session: the server is the end on port 80, and each
  buffer holds payloads of packets from its own side.
* `roles_swap_iff` — the roles do not depend on the direction of the first packet
  exactly if one end has port 80 and the other has not.
* `guarded_sided` — **every byte is filed under the side that sent it**, in every run
  over such packets.
-/

namespace HttpDecoder

open CLib CHandle

/-! ## Roles -/

/-- Exactly one end of the packet has port 80. -/
def OneServer (p : CFormatPacket) : Prop := ¬ (p.src.port = 80 ↔ p.dst.port = 80)

/-- **The roles of a session `HandleMessage` opens.**  The receiver is the server when it
has port 80, and the sender otherwise. -/
theorem newSession_behavior (now : Int) (e : NewSession) (p : CFormatPacket) :
    (CSessionHashTable.newSession now e p (behavior p)).server =
        (if p.dst.port = 80 then p.dst else p.src) ∧
      (CSessionHashTable.newSession now e p (behavior p)).client =
        (if p.dst.port = 80 then p.src else p.dst) := by
  unfold CSessionHashTable.newSession
  by_cases hport : p.dst.port = 80
  · have hinfo : behavior p = ⟨p.dstIp, p.dstPort.toUInt32, p.iphdr.protocol.toUInt32, c2sMatch⟩ :=
      if_pos hport
    rw [hinfo, if_pos hport, if_pos hport]
    simp only
    split
    · -- both ends are the same
      rename_i hsame
      have hports : p.dstPort = p.srcPort := by
        have htoNat := congrArg UInt32.toNat hsame.2
        rw [UInt16.toNat_toUInt32, UInt16.toNat_toUInt32] at htoNat
        exact UInt16.toNat_inj.mp htoNat
      have hends : p.src = p.dst := by
        rw [CFormatPacket.src, CFormatPacket.dst, hsame.1, hports]
      exact ⟨hends, hends.symm⟩
    · exact ⟨rfl, rfl⟩
  · have hinfo : behavior p = ⟨p.srcIp, p.srcPort.toUInt32, p.iphdr.protocol.toUInt32, s2cMatch⟩ :=
      if_neg hport
    rw [hinfo, if_neg hport, if_neg hport]
    simp only [and_self, if_true]
    exact ⟨rfl, rfl⟩

/-- **When the roles do not depend on the direction.**  A packet and one the other way
open sessions with the same roles exactly if one end has port 80 and the other has
not. -/
theorem roles_swap_iff {now now' : Int} {e e' : NewSession} {p q : CFormatPacket}
    (hne : p.src ≠ p.dst) (hsrc : q.src = p.dst) (hdst : q.dst = p.src) :
    ((CSessionHashTable.newSession now e p (behavior p)).server =
        (CSessionHashTable.newSession now' e' q (behavior q)).server ∧
      (CSessionHashTable.newSession now e p (behavior p)).client =
        (CSessionHashTable.newSession now' e' q (behavior q)).client) ↔ OneServer p := by
  obtain ⟨hserver, hclient⟩ := newSession_behavior now e p
  obtain ⟨hserver', hclient'⟩ := newSession_behavior now' e' q
  rw [hserver, hclient, hserver', hclient', hsrc, hdst, OneServer]
  by_cases hs : p.src.port = 80
  · by_cases hd : p.dst.port = 80
    · simp [hs, hd, hne.symm]
    · simp [hs, hd]
  · by_cases hd : p.dst.port = 80
    · simp [hs, hd]
    · simp [hs, hd, hne]

/-! ## The invariant of a session -/

/-- `bs` is the payloads of some of the packets `ps`, all sent by `a`. -/
def SentBy (ps : List CFormatPacket) (a : Endpoint) (bs : Bytes) : Prop :=
  ∃ qs : List CFormatPacket, qs.Sublist ps ∧ (∀ q ∈ qs, q.src = a) ∧ bs = qs.flatMap CFormatPacket.payload

theorem sentBy_nil (ps : List CFormatPacket) (a : Endpoint) : SentBy ps a [] :=
  ⟨[], List.nil_sublist _, by simp, rfl⟩

theorem SentBy.mono {ps : List CFormatPacket} {a : Endpoint} {bs : Bytes} (h : SentBy ps a bs)
    (p : CFormatPacket) : SentBy (ps ++ [p]) a bs := by
  obtain ⟨qs, hsub, hsrc, hbs⟩ := h
  exact ⟨qs, hsub.trans (List.sublist_append_left _ _), hsrc, hbs⟩

theorem SentBy.concat {ps : List CFormatPacket} {a : Endpoint} {bs : Bytes} (h : SentBy ps a bs)
    {p : CFormatPacket} (hp : p.src = a) : SentBy (ps ++ [p]) a (bs ++ p.payload) := by
  obtain ⟨qs, hsub, hsrc, hbs⟩ := h
  refine ⟨qs ++ [p], hsub.append (List.Sublist.refl _), ?_, by rw [hbs]; simp⟩
  intro q hq
  rcases List.mem_append.mp hq with hq | hq
  · exact hsrc q hq
  · rwa [List.mem_singleton.mp hq]

/-- The payload can be counted with what is buffered. -/
structure Room (p : CFormatPacket) (s : CSession) : Prop where
  req : s.reqBuf.len + p.dataSize < 2 ^ 32
  rsp : s.rspBuf.len + p.dataSize < 2 ^ 32

theorem Room.reset {p : CFormatPacket} {s : CSession} (h : Room p s) (e : SesAlloc) :
    Room p (s.reset e) := by
  have hreq := h.req
  have hrsp := h.rsp
  refine ⟨?_, ?_⟩
  · show 0 + p.dataSize < 2 ^ 32
    omega
  · show 0 + p.dataSize < 2 ^ 32
    omega

theorem Room.sweptSes {p : CFormatPacket} {s : CSession} (h : Room p s) (B : Boost) (e : Env) :
    Room p (CHandle.sweptSes B e s) := by
  unfold CHandle.sweptSes
  split
  · rw [parse_fst]
    exact h.reset _
  · exact h

theorem Room.parseFull {p : CFormatPacket} {s : CSession} (h : Room p s) (B : Boost)
    (e : ParseEnv) : Room p (CHandle.parseFull B e s).1 := by
  unfold CHandle.parseFull
  split
  · rw [parse_fst]
    exact h.reset _
  · exact h

/-- The invariant of a session after the packets `ps`. -/
structure Sided (ps : List CFormatPacket) (s : CSession) : Prop where
  wf : s.WF
  /-- The server is the end on port 80. -/
  server_port : s.server.port = 80
  /-- The client is not. -/
  client_port : s.client.port ≠ 80
  /-- The request was sent by the client. -/
  req : SentBy ps s.client s.reqBuf.contents
  /-- The response was sent by the server. -/
  rsp : SentBy ps s.server s.rspBuf.contents

namespace Sided

variable {ps : List CFormatPacket} {s : CSession}

theorem mono (h : Sided ps s) (p : CFormatPacket) : Sided (ps ++ [p]) s :=
  ⟨h.wf, h.server_port, h.client_port, h.req.mono p, h.rsp.mono p⟩

/-- Only the ends and the buffers take part. -/
theorem congr (h : Sided ps s) {s' : CSession} (hserver : s'.server = s.server)
    (hclient : s'.client = s.client) (hreq : s'.reqBuf = s.reqBuf) (hrsp : s'.rspBuf = s.rspBuf) :
    Sided ps s' := by
  refine ⟨⟨?_, ?_⟩, ?_, ?_, ?_, ?_⟩
  · rw [hreq]; exact h.wf.req
  · rw [hrsp]; exact h.wf.rsp
  · rw [hserver]; exact h.server_port
  · rw [hclient]; exact h.client_port
  · rw [hclient, hreq]; exact h.req
  · rw [hserver, hrsp]; exact h.rsp

theorem reset (h : Sided ps s) {e : SesAlloc} (he : e.Granted) : Sided ps (s.reset e) := by
  refine ⟨h.wf.reset he, h.server_port, h.client_port, ?_, ?_⟩
  · show SentBy ps s.client (s.reqBuf.reset e.req).contents
    rw [CBuffer.contents_reset]
    exact sentBy_nil ps _
  · show SentBy ps s.server (s.rspBuf.reset e.rsp).contents
    rw [CBuffer.contents_reset]
    exact sentBy_nil ps _

theorem sweptSes (h : Sided ps s) (B : Boost) {e : Env} (he : ∀ a b, (e.sweep a b).reset.Granted) :
    Sided ps (CHandle.sweptSes B e s) := by
  unfold CHandle.sweptSes
  split
  · rw [parse_fst]
    exact h.reset (he _ _)
  · exact h

/-- A session a packet opens. -/
theorem newSession {x : Arrival} (hone : OneServer x.packet) (he : x.env.Resets) (now : Int) :
    Sided ps (CSessionHashTable.newSession now x.env.new x.packet (behavior x.packet)) := by
  obtain ⟨hserver, hclient⟩ := newSession_behavior now x.env.new x.packet
  have hwf := CSessionHashTable.newSession_wf now x.packet (behavior x.packet) he.bufs he.reset
  have hflow := CSessionHashTable.newSession_flow now x.env.new x.packet (behavior x.packet)
  refine ⟨hwf, ?_, ?_, ?_, ?_⟩
  · rw [hserver]
    by_cases hport : x.packet.dst.port = 80
    · rwa [if_pos hport]
    · rw [if_neg hport]
      by_contra hs
      exact hone (iff_of_false hs hport)
  · rw [hclient]
    by_cases hport : x.packet.dst.port = 80
    · rw [if_pos hport]
      exact fun hs => hone (iff_of_true hs hport)
    · rwa [if_neg hport]
  · rw [show (CSessionHashTable.newSession ..).reqBuf.contents = [] from
      congrArg Flow.req hflow]
    exact sentBy_nil ps _
  · rw [show (CSessionHashTable.newSession ..).rspBuf.contents = [] from
      congrArg Flow.rsp hflow]
    exact sentBy_nil ps _

theorem parseFull (h : Sided ps s) (B : Boost) {e : ParseEnv} (he : e.reset.Granted) :
    Sided ps (CHandle.parseFull B e s).1 := by
  unfold CHandle.parseFull
  split
  · rw [parse_fst]
    exact h.reset he
  · exact h

theorem stampRequest (h : Sided ps s) (p : CFormatPacket) :
    Sided ps (CHandle.stampRequest p s) := by
  obtain ⟨hserver, hclient, -, hreq, hrsp⟩ := stampRequest_fields p s
  exact h.congr hserver hclient hreq hrsp

theorem stampResponse (h : Sided ps s) (p : CFormatPacket) :
    Sided ps (CHandle.stampResponse p s) := by
  obtain ⟨hserver, hclient, -, hreq, hrsp⟩ := stampResponse_fields p s
  exact h.congr hserver hclient hreq hrsp

theorem appendRequest (h : Sided ps s) (e : Env) {p : CFormatPacket} (hsrc : p.src = s.client)
    (hfit : s.reqBuf.len + p.dataSize < 2 ^ 32) :
    Sided (ps ++ [p]) (CHandle.appendRequest e p s).2 := by
  obtain ⟨hwf, hcontents⟩ := h.wf.req.append_answer e.append p.data (fun _ => hfit)
    (CBuffer.not_frees_of_lt (by omega))
  refine ⟨⟨hwf, h.wf.rsp⟩, h.server_port, h.client_port, ?_, h.rsp.mono p⟩
  show SentBy _ s.client (s.reqBuf.append e.append (some p.data) p.dataSize).2.contents
  rw [hcontents]
  split
  · exact h.req.concat hsrc
  · rw [List.append_nil]
    exact h.req.mono p

theorem appendResponse (h : Sided ps s) (e : Env) {p : CFormatPacket} (hsrc : p.src = s.server)
    (hfit : s.rspBuf.len + p.dataSize < 2 ^ 32) :
    Sided (ps ++ [p]) (CHandle.appendResponse e p s).2 := by
  obtain ⟨hwf, hcontents⟩ := h.wf.rsp.append_answer e.append p.data (fun _ => hfit)
    (CBuffer.not_frees_of_lt (by omega))
  refine ⟨⟨h.wf.req, hwf⟩, h.server_port, h.client_port, h.req.mono p, ?_⟩
  show SentBy _ s.server (s.rspBuf.append e.append (some p.data) p.dataSize).2.contents
  rw [hcontents]
  split
  · exact h.rsp.concat hsrc
  · rw [List.append_nil]
    exact h.rsp.mono p

/-- A packet to port 80 comes from the client, every other one from the server. -/
theorem sender (h : Sided ps s) {p : CFormatPacket} (hconn : s.conn = p.conn) :
    (p.dst.port = 80 → p.src = s.client) ∧ (p.dst.port ≠ 80 → p.src = s.server) := by
  have hends : s(s.server, s.client) = s(p.src, p.dst) := hconn
  rcases Sym2.eq_iff.mp hends with ⟨hs, hc⟩ | ⟨hs, hc⟩
  · exact ⟨fun hport => absurd (hc ▸ hport) h.client_port, fun _ => hs.symm⟩
  · exact ⟨fun _ => hc.symm, fun hport => absurd (hs ▸ h.server_port) hport⟩

/-- **Filing a packet of the connection** adds its payload to the buffer of its sender's
side. -/
theorem processData (h : Sided ps s) (B : Boost) {x : Arrival} (hconn : s.conn = x.packet.conn)
    (he : x.env.Resets) (hroom : Room x.packet s) :
    Sided (ps ++ [x.packet])
      (CHandle.processData B x.env x.packet (behavior x.packet).matchWay s).ses := by
  have h₀ : Sided ps (s.setSeq x.packet.seqNo x.packet.ackSeqNo) :=
    h.congr (s.setSeq_server _ _) (s.setSeq_client _ _) (s.setSeq_reqBuf _ _) (s.setSeq_rspBuf _ _)
  have hroom₀ : Room x.packet (s.setSeq x.packet.seqNo x.packet.ackSeqNo) :=
    ⟨by rw [s.setSeq_reqBuf]; exact hroom.req, by rw [s.setSeq_rspBuf]; exact hroom.rsp⟩
  have hconn₀ := s.setSeq_conn x.packet.seqNo x.packet.ackSeqNo
  by_cases hport : x.packet.dst.port = 80
  · rw [processData_of_port B hport]
    generalize s.setSeq x.packet.seqNo x.packet.ackSeqNo = s₀ at h₀ hconn₀ hroom₀ ⊢
    have h₁ := h₀.parseFull B he.parse
    have hconn₁ := (parseFull_conn B x.env.parse s₀).1
    obtain ⟨-, hclient, -, hreqBuf, -⟩ :=
      stampRequest_fields x.packet (CHandle.parseFull B x.env.parse s₀).1
    refine (h₁.stampRequest x.packet).appendRequest x.env ?_ ?_
    · rw [hclient]
      exact (h₁.sender (hconn₁.trans (hconn₀.trans hconn))).1 hport
    · rw [hreqBuf]
      exact (hroom₀.parseFull B x.env.parse).req
  · rw [processData_of_port_ne B hport]
    generalize s.setSeq x.packet.seqNo x.packet.ackSeqNo = s₀ at h₀ hconn₀ hroom₀ ⊢
    obtain ⟨hserver, -, -, -, hrspBuf⟩ := stampResponse_fields x.packet s₀
    refine (h₀.stampResponse x.packet).appendResponse x.env ?_ ?_
    · rw [hserver]
      exact (h₀.sender (hconn₀.trans hconn)).2 hport
    · rw [hrspBuf]
      exact hroom₀.rsp

/-- Serving a packet of the connection. -/
theorem serve (h : Sided ps s) (B : Boost) {x : Arrival} (hconn : s.conn = x.packet.conn)
    (he : x.env.Resets) (hroom : Room x.packet s) :
    ∀ s' ∈ (CHandle.serve B x.call (behavior x.packet) s).1, Sided (ps ++ [x.packet]) s' := by
  intro s' hs'
  rcases serve_cases B x.call (behavior x.packet) s s' hs' with rfl | rfl
  · exact h.mono x.packet
  · exact h.processData B hconn he hroom

end Sided

/-! ## Runs -/

/-- What is asked of a packet that arrives at the handle: one end of it has port 80, no
`Reset` is refused its memory, and the bytes buffered with it can be counted. -/
structure Admissible (h : CHandle) (x : Arrival) : Prop where
  one : OneServer x.packet
  resets : x.env.Resets
  /-- The payload can be counted. -/
  small : x.packet.dataSize < 2 ^ 32
  /-- So can the payload with what is buffered. -/
  fits : ∀ s ∈ h.sesHash.session x.packet.conn, Room x.packet s

/-- `Guarded B h ps`: `h` is reached from `Init` over the packets `ps`, each of them
admissible where it arrived. -/
inductive Guarded (B : Boost) : CHandle → List CFormatPacket → Prop
  | init (ses now) : Guarded B (CHandle.init ses now) []
  | step {h ps} (x : Arrival) : Guarded B h ps → Admissible h x →
      Guarded B (h.process B x.call).handle (ps ++ [x.packet])

/-- The session a packet meets is on its sides, and there is room for the packet. -/
theorem opened_sided {x : Arrival} {o : Option CSession} {ps : List CFormatPacket}
    (hone : OneServer x.packet) (he : x.env.Resets) (hsmall : x.packet.dataSize < 2 ^ 32)
    (h : ∀ s ∈ o, Sided ps s ∧ Room x.packet s) :
    Sided ps (opened x.call (behavior x.packet) o) ∧
      Room x.packet (opened x.call (behavior x.packet) o) := by
  cases o with
  | none =>
    refine ⟨Sided.newSession hone he _, ?_⟩
    have hflow := CSessionHashTable.newSession_flow x.env.timeCreate x.env.new x.packet
      (behavior x.packet)
    have hwf := CSessionHashTable.newSession_wf x.env.timeCreate x.packet (behavior x.packet)
      he.bufs he.reset
    refine ⟨?_, ?_⟩
    · rw [show (opened x.call (behavior x.packet) none).reqBuf.len = 0 from
        hwf.req.len_eq_zero_iff.mpr (congrArg Flow.req hflow), Nat.zero_add]
      exact hsmall
    · rw [show (opened x.call (behavior x.packet) none).rspBuf.len = 0 from
        hwf.rsp.len_eq_zero_iff.mpr (congrArg Flow.rsp hflow), Nat.zero_add]
      exact hsmall
  | some s =>
    obtain ⟨hs, hroom⟩ := h s rfl
    exact ⟨hs.congr rfl rfl rfl rfl, ⟨hroom.req, hroom.rsp⟩⟩

/-- **One call keeps every session on its sides.** -/
theorem connStep_sided (B : Boost) (last : Int) (c : Conn) {x : Arrival} {o : Option CSession}
    {ps : List CFormatPacket} (hone : OneServer x.packet) (he : x.env.Resets)
    (hconn : ∀ s ∈ o, s.conn = c) (hsmall : x.packet.dataSize < 2 ^ 32)
    (hfits : x.packet.conn = c → ∀ s ∈ o, Room x.packet s) (h : ∀ s ∈ o, Sided ps s) :
    ∀ s ∈ (connStep B last c o x.call).1, Sided (ps ++ [x.packet]) s := by
  have hswept : ∀ s' ∈ (CHandle.sweepConn B x.env (sweepReach last x.env) o).1,
      s'.conn = c ∧ Sided ps s' ∧ (x.packet.conn = c → Room x.packet s') := by
    intro s' hs'
    cases o with
    | none => exact absurd hs' (by simp [sweepConn])
    | some s =>
      rcases sweepConn_cases B x.env _ s s' hs' with rfl | rfl
      · obtain ⟨hserver, hclient⟩ := sweptSes_roles B x.env s
        exact ⟨(CSession.conn_congr hserver hclient).trans (hconn s rfl),
          (h s rfl).sweptSes B he.sweep, fun hc => (hfits hc s rfl).sweptSes B x.env⟩
      · exact ⟨hconn s' rfl, h s' rfl, fun hc => hfits hc s' rfl⟩
  unfold connStep
  by_cases hc : x.packet.conn = c
  · simp only [Arrival.call_info, if_pos (show x.call.packet.conn = c from hc)]
    obtain ⟨hsided, hroom⟩ := opened_sided hone he hsmall
      fun s hs => ⟨(hswept s hs).2.1, (hswept s hs).2.2 hc⟩
    refine hsided.serve B (opened_conn x.call _ fun s hs => ?_) he hroom
    exact (hswept s hs).1.trans hc.symm
  · simp only [Arrival.call_info, if_neg (show ¬ x.call.packet.conn = c from hc)]
    intro s hs
    exact (hswept s hs).2.1.mono x.packet

namespace Guarded

variable {B : Boost} {h : CHandle} {ps : List CFormatPacket}

theorem wf (hg : Guarded B h ps) : h.sesHash.WF := by
  induction hg with
  | init ses now => exact CSessionHashTable.wf_init ses
  | step x _ _ ih => exact (process_conn B ih x.call).1

/-- Every session of a run is on its sides. -/
theorem sided (hg : Guarded B h ps) : ∀ c, ∀ s ∈ h.sesHash.session c, Sided ps s := by
  induction hg with
  | init ses now =>
    intro c s hs
    exact absurd hs (by simp [CHandle.init])
  | @step h ps x hg hadm ih =>
    intro c
    rw [((process_conn B hg.wf x.call).2.2 c).1]
    refine connStep_sided B _ c hadm.one hadm.resets ?_ hadm.small ?_ (ih c)
    · exact fun _ hs => CSessionHashTable.conn_of_session hs
    · rintro rfl
      exact hadm.fits

end Guarded

/-- **Every byte is filed under the side that sent it**, in every run over packets with
exactly one end on port 80.  What a session shows as the request is payloads of packets
from its client, what it shows as the response payloads of packets from its server; and
its server is the end on port 80 whichever direction opened it. -/
theorem guarded_sided {B : Boost} {h : CHandle} {ps : List CFormatPacket} (hg : Guarded B h ps)
    (c : Conn) (s : CSession) (hs : h.sesHash.session c = some s) :
    SentBy ps s.client s.reqBuf.contents ∧ SentBy ps s.server s.rspBuf.contents ∧
      s(s.server, s.client) = c ∧ s.server.port = 80 ∧ s.client.port ≠ 80 := by
  have hsided := hg.sided c s hs
  exact ⟨hsided.req, hsided.rsp, CSessionHashTable.conn_of_session hs, hsided.server_port,
    hsided.client_port⟩

/-! ## Two connections -/

/-- Of the bytes shown by a session, the ends and the contents of the buffers. -/
def sidesAfter (xs : List Arrival) (c : Conn) : Option (Endpoint × Endpoint × Bytes × Bytes) :=
  (((handleMachine Boost.decimal).run (CHandle.init blankSes 0)
    (xs.map Arrival.call)).1.sesHash.session c).map fun s =>
      (s.server, s.client, s.reqBuf.contents, s.rspBuf.contents)

/-- A request to port 80. -/
def toServer : Arrival := arrival ⟨1, 1000⟩ ⟨2, 80⟩ 5 [71] false

/-- Its response. -/
def toClient : Arrival := arrival ⟨2, 80⟩ ⟨1, 1000⟩ 7 [72] false

/-- The handle after both. -/
def bothServed : CHandle :=
  (((CHandle.init blankSes 0).process Boost.decimal toServer.call).handle.process Boost.decimal
    toClient.call).handle

theorem admissible_toServer : Admissible (CHandle.init blankSes 0) toServer where
  one := by simp [OneServer, toServer, arrival]
  resets := (Env.granted_granting 0).toResets
  small := by decide
  fits s hs := absurd hs (by simp [CHandle.init])

theorem admissible_toClient :
    Admissible ((CHandle.init blankSes 0).process Boost.decimal toServer.call).handle toClient where
  one := by simp [OneServer, toClient, arrival]
  resets := (Env.granted_granting 0).toResets
  small := by decide
  fits s hs := by
    have hlens : (((CHandle.init blankSes 0).process Boost.decimal toServer.call).handle.sesHash.session
        toClient.packet.conn).map (fun s => (s.reqBuf.len, s.rspBuf.len)) = some (1, 0) := by
      decide +kernel
    rw [hs] at hlens
    have hpair := Prod.mk.inj (Option.some.inj hlens)
    exact ⟨by rw [hpair.1]; decide, by rw [hpair.2]; decide⟩

theorem guarded_bothServed :
    Guarded Boost.decimal bothServed [toServer.packet, toClient.packet] :=
  (Guarded.init blankSes 0).step toServer admissible_toServer |>.step toClient admissible_toClient

theorem guarded_sided_bothServed :
    Guarded Boost.decimal bothServed [toServer.packet, toClient.packet] ∧
      ∃ s, bothServed.sesHash.session s(⟨1, 1000⟩, ⟨2, 80⟩) = some s ∧
        SentBy [toServer.packet, toClient.packet] s.client s.reqBuf.contents ∧
        SentBy [toServer.packet, toClient.packet] s.server s.rspBuf.contents ∧
        s.server.port = 80 := by
  refine ⟨guarded_bothServed, ?_⟩
  obtain ⟨s, hs⟩ := Option.isSome_iff_exists.mp (show (bothServed.sesHash.session
    s(⟨1, 1000⟩, ⟨2, 80⟩)).isSome from by decide +kernel)
  obtain ⟨hreq, hrsp, -, hport, -⟩ := guarded_sided guarded_bothServed _ s hs
  exact ⟨s, hs, hreq, hrsp, hport⟩

/-- A packet between two ends of which none has port 80. -/
def thither : Arrival := arrival ⟨1, 1000⟩ ⟨2, 2000⟩ 5 [65] false

/-- The answer to it. -/
def hither : Arrival := arrival ⟨2, 2000⟩ ⟨1, 1000⟩ 6 [66] false

/-- Neither end has port 80: the sender of the first packet becomes the server, and the
answer is filed as bytes of its own. -/
theorem not_sided_thither :
    sidesAfter [thither, hither] s(⟨1, 1000⟩, ⟨2, 2000⟩) =
        some (⟨1, 1000⟩, ⟨2, 2000⟩, [], [65, 66]) ∧
      ¬ SentBy [thither.packet, hither.packet] ⟨1, 1000⟩ [65, 66] ∧
      sidesAfter [hither, thither] s(⟨1, 1000⟩, ⟨2, 2000⟩) =
        some (⟨2, 2000⟩, ⟨1, 1000⟩, [], [66, 65]) := by
  refine ⟨by decide +kernel, ?_, by decide +kernel⟩
  rintro ⟨qs, hsub, hsrc, hbs⟩
  have hmem : (66 : UInt8) ∈ qs.flatMap CFormatPacket.payload := by
    rw [← hbs]
    simp
  obtain ⟨q, hq, hbyte⟩ := List.mem_flatMap.mp hmem
  rcases List.mem_cons.mp (hsub.subset hq) with rfl | hq'
  · rw [show thither.packet.payload = [65] from payload_arrival _ _ _ _ (by decide)] at hbyte
    exact absurd hbyte (by decide)
  · have hback := hsrc q hq
    rw [List.mem_singleton.mp hq', show hither.packet.src = ⟨2, 2000⟩ from segment_src ..] at hback
    exact absurd hback (by decide)

end HttpDecoder
