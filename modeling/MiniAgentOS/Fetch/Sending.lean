import MiniAgentOS.Fetch.Destination
import MiniAgentOS.Fetch.Outgoing

/-! The fetch engine with the TLS library at its side, and the streams that its connections carry. -/
namespace MiniAgentOS.Fetch
open Checked Net Http Wire

/-- The fetch engine, and the session of the TLS library on the last connection. -/
structure Sending where
  kernel : Kernel := {}
  session : Option Session := none
  deriving DecidableEq, Repr

/-- The session after a step that leads to `kernel`. A new connection has none until the library is
configured for it. -/
def Sending.nextSession (s : Sending) (kernel : Kernel) : Event → Option Session
  | .segment _ _ =>
    if kernel.conn.state = .tlsHandshake ∧ s.kernel.conn.state ≠ .tlsHandshake then some {}
    else if s.kernel.conn.state = .syn ∧ kernel.conn.state ≠ .syn then none
    else s.session
  | .tick env =>
    sessionAfter s.session (s.kernel.conn.callsTls s.kernel.request env) env.tlsSends
  | _ => s.session

def Sending.step (config : Config) (s : Sending) (event : Event) : Checked Sending := do
  let kernel ← s.kernel.step config event
  pure ⟨kernel, s.nextSession kernel event⟩

/-- The TLS library goes on where its output buffer stands. -/
def Sending.resumes (s : Sending) : Event → Prop
  | .tick env => s.kernel.conn.callsTls s.kernel.request env →
      ∀ out ∈ s.session, out.Resumes env.tlsSends
  | _ => True

/-- The kernel with any order of events, and a TLS library that resumes its output. -/
def sendingMachine (config : Config) : Machine Sending Event :=
  Machine.ofChecked (fun s => (kernelMachine config).init s.kernel ∧ s.session = none) Sending.resumes
    (Sending.step config)

/-- A step in which the data of a connection keeps its order: a tick meets what it must, the proxy does
not answer what it was not told, and a connection that is kept open has its TLS session. -/
def KeepsOrder (config : Config) (s : Sending) (event : Event) : Prop :=
  (config.nativeOpenaiReuse → s.kernel.conn.openaiReusable ∨ s.kernel.LeftOpen → s.session.isSome) ∧
    match event with
    | .tick env => s.kernel.conn.works env → InOrder s.kernel.request s.kernel.conn env
    | .segment seg _ =>
      (s.kernel.conn.state = .socksHello ∨ s.kernel.conn.state = .socksConnect) ∧
        s.kernel.conn.accepts seg ∧ seg.payload ≠ [] → s.kernel.conn.socksSent
    | _ => True

/-- The kernel stands to its last connection. -/
structure Aligned (s : Sending) : Prop where
  stands : match lastConnection s.kernel.trace with
    | none => s.session = none ∧ s.kernel.conn.state.still
    | some (base, log) => Standing s.kernel.trace base log s.session s.kernel.conn
  built : Built s.kernel.trace s.kernel.conn.httpBuf

variable {config : Config} {s : Sending} {k' : Kernel} {session : Option Session}
  {new : List Action}

theorem Aligned.onWire (h : Aligned s) : OnWire s.kernel.trace s.session s.kernel.conn := by
  have hstands := h.stands
  unfold OnWire
  cases hlast : lastConnection s.kernel.trace with
  | none =>
    rw [hlast] at hstands
    exact pointer_still hstands.2
  | some last =>
    rw [hlast] at hstands
    exact hstands.onWire h.built

/-- A step over the last connection. -/
theorem Aligned.after (h : Aligned s) (htrace : k'.trace = s.kernel.trace ++ new)
    (hopened : ∀ action ∈ new, action.opened = none)
    (hnone : lastConnection s.kernel.trace = none → s.session = none → s.kernel.conn.state.still →
      session = none ∧ k'.conn.state.still ∧ Built (s.kernel.trace ++ new) k'.conn.httpBuf)
    (hstands : ∀ base log, Stands s.kernel.trace base log s.session s.kernel.conn →
      Stands (s.kernel.trace ++ new) base (log ++ new.filterMap Action.handed) session k'.conn) :
    Aligned ⟨k', session⟩ := by
  have hbefore := h.stands
  have hlast := lastConnection_append hopened s.kernel.trace
  rw [← htrace] at hlast
  cases hconn : lastConnection s.kernel.trace with
  | none =>
    rw [hconn] at hbefore hlast
    obtain ⟨hsession, hstill, hbuilt⟩ := hnone hconn hbefore.1 hbefore.2
    constructor
    · rw [hlast]
      exact ⟨hsession, hstill⟩
    · rw [htrace]
      exact hbuilt
  | some last =>
    rw [hconn] at hbefore hlast
    have hafter := hstands last.1 last.2 ⟨hbefore, h.built⟩
    rw [← htrace] at hafter
    constructor
    · rw [hlast]
      exact hafter.standing
    · exact hafter.built

/-- A step that gives the connection up. -/
theorem Aligned.leave (h : Aligned s) (htrace : k'.trace = s.kernel.trace ++ new)
    (hopened : ∀ action ∈ new, action.opened = none)
    (hleave : Leaves s.kernel.conn k'.conn new) : Aligned ⟨k', s.session⟩ := by
  apply h.after htrace hopened
  · intro _ hsession _
    refine ⟨hsession, hleave.still, ?_⟩
    rcases hleave.httpBuf with hsame | hnil
    · rw [hsame]
      exact h.built.append new
    · exact .inl hnil
  · intro base log hstands
    exact hstands.leave hleave

/-- A step that sends nothing over the connection. -/
theorem Aligned.quiet (h : Aligned s) (htrace : k'.trace = s.kernel.trace ++ new)
    (hopened : ∀ action ∈ new, action.opened = none) (hsend : SameSend s.kernel.conn k'.conn)
    (hstate : k'.conn.state = s.kernel.conn.state)
    (hhanded : new.filterMap Action.handed = []) : Aligned ⟨k', s.session⟩ := by
  apply h.after htrace hopened
  · intro _ hsession hstill
    refine ⟨hsession, hstate ▸ hstill, ?_⟩
    rw [hsend.httpBuf]
    exact h.built.append new
  · intro base log hstands
    exact hstands.quiet hsend (.inl hstate) hhanded

/-- A step that changes the connection only, and sends nothing over it. -/
theorem Aligned.conn (h : Aligned s) {conn : Conn} (hsend : SameSend s.kernel.conn conn)
    (hstate : conn.state = s.kernel.conn.state ∨ conn.state.still) :
    Aligned ⟨{ s.kernel with conn }, s.session⟩ := by
  have hnil : s.kernel.trace = s.kernel.trace ++ [] := (List.append_nil _).symm
  rcases hstate with hsame | hstill
  · exact h.quiet hnil (fun _ h => absurd h List.not_mem_nil) hsend hsame rfl
  · exact h.leave hnil (fun _ h => absurd h List.not_mem_nil) (hsend.leaves hstill rfl)

section Packets

theorem aligned_arp (h : Aligned s) (gateway dns : Bool) :
    Aligned ⟨s.kernel.receiveArp gateway dns, s.session⟩ := by
  unfold Kernel.receiveArp
  split_ifs with harp hgateway
  · apply h.conn
    · exact ⟨rfl, rfl, rfl, rfl, rfl, rfl, rfl, rfl, id⟩
    · right
      rcases resumeAfterGateway_state { s.kernel.conn with haveGw := true } with hsyn | hdns
      · exact hsyn ▸ rfl
      · exact hdns ▸ rfl
  · exact h.conn ⟨rfl, rfl, rfl, rfl, rfl, rfl, rfl, rfl, id⟩ (.inl rfl)
  · exact h

theorem aligned_dns {datagram : Bytes} {now : ℕ} (h : Aligned s)
    (hstep : DnsStep s.kernel datagram now k') : Aligned ⟨k', s.session⟩ := by
  cases hstep with
  | ignored => exact h
  | resolved state answer =>
    apply h.leave rfl
    · simp [Action.opened]
    · exact ⟨rfl, rfl, .inl rfl, fun hup => ⟨hup, rfl⟩, rfl⟩
  | tooLarge reason => exact h.conn ⟨rfl, rfl, rfl, rfl, rfl, rfl, rfl, rfl, id⟩ (.inl rfl)

theorem feeds_opened {pieces : List Bytes} :
    ∀ action ∈ pieces.map Action.feed, action.opened = none := by
  intro action hmem
  obtain ⟨piece, -, rfl⟩ := List.mem_map.mp hmem
  rfl

theorem feeds_handed (pieces : List Bytes) :
    (pieces.map Action.feed).filterMap Action.handed = [] := by
  induction pieces with
  | nil => rfl
  | cons piece pieces ih => exact ih

/-- Pieces of the response are read, and the fetch may end. -/
theorem aligned_feeds {pieces : List Bytes} {last : Kernel} {conn : Conn} (h : Aligned s)
    (hfeeds : Feeds s.kernel pieces last) (hcore : conn.core = last.conn.core)
    (hstate : conn.state = last.conn.state ∨ conn.state = .done) :
    Aligned ⟨{ last with conn }, s.session⟩ := by
  have hsend := sameSend_core (hcore.trans hfeeds.core)
  have hsame : conn.state = s.kernel.conn.state ∨ conn.state = .done := by
    rcases hstate with hsame | hdone
    · rw [hsame]
      exact hfeeds.state
    · exact .inr hdone
  rcases hsame with hsame | hdone
  · exact h.quiet hfeeds.trace feeds_opened hsend hsame (feeds_handed pieces)
  · have hstill : conn.state.still = true := by
      rw [hdone]
      rfl
    exact h.leave hfeeds.trace feeds_opened (hsend.leaves hstill (feeds_handed pieces))

/-- A connection is opened. -/
theorem aligned_opened {conn : Conn} {seq : UInt32} (ack : UInt32) (h : Aligned s)
    (hbuf : conn.httpBuf = s.kernel.conn.httpBuf)
    (hstanding : ∀ trace, Standing trace seq [] session conn) :
    Aligned ⟨{ s.kernel with
      conn, trace := s.kernel.trace ++ [.established seq ack] }, session⟩ := by
  constructor
  · dsimp only
    rw [lastConnection_opened]
    exact hstanding _
  · rw [hbuf]
    exact h.built.append _

/-- The connection that a SYN-ACK opens. -/
def Conn.connected (c : Conn) (seg : TcpSegment) (env : SegmentEnv) : Conn :=
  { c with
    ack := seg.seq + 1
    seq := c.seq + 1
    txInflight := true
    ackSent := !(c.txInflight && !env.txDone)
    established := true
    httpSent := false
    httpRetry := 0
    httpOff := 0
    gotResp := false
    nextMs := env.now + 50 }

theorem synAck_eq (c : Conn) (https : Bool) (seg : TcpSegment) (env : SegmentEnv) :
    c.synAck https seg env =
      if c.proxy then
        { c.connected seg env with state := .socksHello, retry := 0, socksSent := false }
      else if https then (c.connected seg env).configureTls env
      else { c.connected seg env with state := .http } := rfl

theorem configureTls_eq (c : Conn) (env : SegmentEnv) : c.configureTls env =
    if env.tlsConfigured then { c with tlsSeq := c.seq, state := .tlsHandshake }
    else ({ c with tlsSeq := c.seq }.fail (ascii "tls configure failed")).finish := rfl

/-- The session when the TLS library was configured for a connection or not. -/
def sessionOf (c : Conn) : Option Session := if c.state = .tlsHandshake then some {} else none

variable {trace : List Action} {base : UInt32} {log : List (UInt32 × Bytes)} {front : Bytes} {c : Conn}

theorem configureTls_standing (env : SegmentEnv) (hproxied : Proxied c.proxy front)
    (hsent : Sent (seqAt base) log front front.length) (hseq : c.seq = seqAt base front.length) :
    Standing trace base log (sessionOf (c.configureTls env)) (c.configureTls env) := by
  rw [configureTls_eq]
  cases env.tlsConfigured with
  | true =>
    have hstream : front ++ ({} : Session).stream = front := List.append_nil front
    have haccepted : front ++ ({} : Session).accepted = front := List.append_nil front
    refine .records (.inr rfl) ⟨hproxied, ?_, ?_, fun _ => rfl⟩
    · rw [hstream, haccepted]
      exact hsent
    · rw [haccepted]
      exact hseq
  | false =>
    have hintended : Intended trace none c.proxy front :=
      ⟨front, [], hproxied, .nothing, (List.append_nil front).symm⟩
    exact .ended rfl hintended hsent

theorem http_standing (hproxied : Proxied c.proxy front)
    (hsent : Sent (seqAt base) log front front.length) (hseq : c.seq = seqAt base front.length)
    (hunsent : c.httpOff = 0 ∧ c.httpSent = false) :
    Standing trace base log none { c with state := .http } := by
  obtain ⟨hoff, hflag⟩ := hunsent
  refine .request (c := { c with state := .http }) rfl hproxied ?_ ?_ ?_ ?_ ?_
  · rw [hoff]
    exact hsent.extend (List.prefix_append _ _)
  · rw [hoff]
    exact hseq
  · intro hpos
    exact absurd hpos (by simp [hoff])
  · intro hsent
    exact absurd hsent (by simp [hflag])
  · rw [hoff]
    exact Nat.zero_le _

/-- A SYN-ACK begins a stream. -/
theorem synAck_standing (trace : List Action) (c : Conn) (https : Bool) (seg : TcpSegment) (env : SegmentEnv) :
    Standing trace (c.seq + 1) [] (sessionOf (c.synAck https seg env)) (c.synAck https seg env) := by
  have hstart : c.seq + 1 = seqAt (c.seq + 1) 0 := (seqAt_zero _).symm
  have hnil := sent_nil (seqAt (c.seq + 1)) ([] : Bytes)
  have hgreeted : Greeted .socksHello false [] := rfl
  have hdirect : ¬ c.proxy = true → Proxied c.proxy [] := by
    intro hno
    rw [Bool.eq_false_of_not_eq_true hno]
    rfl
  rw [synAck_eq]
  split_ifs with hproxy hhttps
  · exact .socks (c := { c.connected seg env with
      state := .socksHello, retry := 0, socksSent := false }) hproxy hgreeted hnil hstart ⟨rfl, rfl⟩
  · exact configureTls_standing (c := c.connected seg env) env (hdirect hproxy) hnil hstart
  · exact http_standing (c := c.connected seg env) (hdirect hproxy) hnil hstart ⟨rfl, rfl⟩

theorem Stands.fails (h : Stands trace base log session c) {ack : UInt32} (reason : Bytes) :
    Standing trace base log session (Conn.fail { c with ack } reason).finish := by
  have hnone : ([] : List Action).filterMap Action.handed = [] := rfl
  have hleave : Leaves c (Conn.fail { c with ack } reason).finish [] :=
    ⟨rfl, rfl, .inl rfl, fun hup => ⟨hup, rfl⟩, rfl⟩
  have hstands := (h.leave hleave).standing
  rw [hnone, List.append_nil, List.append_nil] at hstands
  exact hstands

theorem socksHelloReply_state (hstate : c.state = .socksHello) (seg : TcpSegment) :
    (c.socksHelloReply seg).state ≠ .tlsHandshake := by
  unfold Conn.socksHelloReply
  split
  · dsimp only
    split_ifs <;> exact fun h => FetchState.noConfusion h
  · rw [hstate]
    decide

/-- The proxy answers the hello. -/
theorem socksHelloReply_standing {seg : TcpSegment} (h : Stands trace base log session c)
    (hstate : c.state = .socksHello) (hsocks : seg.payload ≠ [] → c.socksSent = true) :
    Standing trace base log session (c.socksHelloReply seg) ∧
      (c.socksHelloReply seg).httpBuf = c.httpBuf := by
  unfold Conn.socksHelloReply
  split
  · rename_i hpayload
    dsimp only
    split_ifs
    · obtain ⟨rfl, hproxy, hunsent, front, hgreeted, hsent, hseq⟩ := h.standing.of_socks (.inl hstate)
      rw [hstate, hsocks (by simp [hpayload])] at hgreeted
      have hnext : Greeted .socksConnect false front := hgreeted
      exact ⟨.socks (c := { c with
        ack := seg.seq + UInt32.ofNat seg.payload.length
        state := .socksConnect
        retry := 0
        nextMs := 0
        socksSent := false }) hproxy hnext hsent hseq hunsent, rfl⟩
    · exact ⟨h.fails _, rfl⟩
  · exact ⟨h.standing, rfl⟩

/-- The proxy answers the connect request. -/
theorem socksConnectReply_standing {seg : TcpSegment} (h : Stands trace base log session c)
    (hstate : c.state = .socksConnect) (hsocks : seg.payload ≠ [] → c.socksSent = true) (https : Bool)
    (env : SegmentEnv) :
    Standing trace base log (sessionOf (c.socksConnectReply https seg env))
        (c.socksConnectReply https seg env) ∧
      (c.socksConnectReply https seg env).httpBuf = c.httpBuf := by
  obtain ⟨rfl, hproxy, hunsent, front, hgreeted, hsent, hseq⟩ := h.standing.of_socks (.inr hstate)
  have hsame : sessionOf c = none := by
    rw [sessionOf, hstate]
    rfl
  unfold Conn.socksConnectReply
  split
  · rename_i hpayload
    rw [hstate, hsocks (by simp [hpayload])] at hgreeted
    have hproxied : Proxied c.proxy front := by
      rw [hproxy]
      exact hgreeted
    dsimp only
    split_ifs
    · constructor
      · exact configureTls_standing (c := { c with
          ack := seg.seq + UInt32.ofNat seg.payload.length }) env hproxied hsent hseq
      · rw [configureTls_eq]
        split_ifs <;> rfl
    · exact ⟨http_standing (c := { c with
        ack := seg.seq + UInt32.ofNat seg.payload.length }) hproxied hsent hseq hunsent, rfl⟩
    · exact ⟨h.fails _, rfl⟩
  · rw [hsame]
    exact ⟨h.standing, rfl⟩

theorem synAck_state (c : Conn) (https : Bool) (seg : TcpSegment) (env : SegmentEnv) :
    (c.synAck https seg env).state ≠ .syn ∧ (c.synAck https seg env).httpBuf = c.httpBuf := by
  rw [synAck_eq, configureTls_eq]
  split_ifs <;> exact ⟨fun h => FetchState.noConfusion h, rfl⟩

/-- What a segment leads to over the connection that is there. -/
theorem Aligned.reply (h : Aligned s) {conn : Conn} (hbusy : s.kernel.conn.state.still = false)
    (hreply : ∀ base log, Stands s.kernel.trace base log s.session s.kernel.conn →
      Standing s.kernel.trace base log session conn ∧ conn.httpBuf = s.kernel.conn.httpBuf) :
    Aligned ⟨{ s.kernel with conn }, session⟩ := by
  have hnil : ({ s.kernel with conn } : Kernel).trace = s.kernel.trace ++ [] :=
    (List.append_nil _).symm
  apply h.after hnil (fun _ h => absurd h List.not_mem_nil)
  · intro _ _ hstill
    rw [hbusy] at hstill
    cases hstill
  · intro base log hstands
    obtain ⟨hstanding, hbuf⟩ := hreply base log hstands
    have hnone : ([] : List Action).filterMap Action.handed = [] := rfl
    rw [hnone, List.append_nil, List.append_nil]
    constructor
    · exact hstanding
    · rw [hbuf]
      exact h.built

/-- A segment that neither opens a connection nor begins a handshake. -/
theorem nextSession_keeps {seg : TcpSegment} {env : SegmentEnv}
    (hother : k'.conn.state ≠ .tlsHandshake) (hsyn : s.kernel.conn.state ≠ .syn) :
    s.nextSession k' (.segment seg env) = s.session := by
  unfold Sending.nextSession
  dsimp only
  rw [if_neg (fun h => hother h.1), if_neg (fun h => hsyn h.1)]

theorem aligned_segment {seg : TcpSegment} {env : SegmentEnv} (h : Aligned s)
    (hanswer : (s.kernel.conn.state = .socksHello ∨ s.kernel.conn.state = .socksConnect) ∧
      s.kernel.conn.accepts seg ∧ seg.payload ≠ [] → s.kernel.conn.socksSent)
    (hstep : SegmentStep s.kernel seg env k') :
    Aligned ⟨k', s.nextSession k' (.segment seg env)⟩ := by
  cases hstep with
  | ignored =>
    have hsame : s.nextSession s.kernel (.segment seg env) = s.session := by
      simp [Sending.nextSession]
    rw [hsame]
    exact h
  | synAck state =>
    obtain ⟨hsyn, hbuf⟩ := synAck_state s.kernel.conn s.kernel.request.https seg env
    have hopened := aligned_opened seg.ack h hbuf fun trace =>
      synAck_standing trace s.kernel.conn s.kernel.request.https seg env
    simpa [Sending.nextSession, state, hsyn, sessionOf] using hopened
  | socksHello state accepts =>
    have hsyn : s.kernel.conn.state ≠ .syn := by
      rw [state]
      decide
    rw [nextSession_keeps (socksHelloReply_state state seg) hsyn]
    apply h.reply
    · rw [state]
      rfl
    · intro base log hstands
      exact socksHelloReply_standing hstands state fun hne => hanswer ⟨.inl state, accepts, hne⟩
  | socksConnect state accepts =>
    have hsocks : seg.payload ≠ [] → s.kernel.conn.socksSent = true :=
      fun hne => hanswer ⟨.inr state, accepts, hne⟩
    have hbusy : s.kernel.conn.state.still = false := by
      rw [state]
      rfl
    apply h.reply hbusy
    intro base log hstands
    obtain ⟨hstanding, hbuf⟩ :=
      socksConnectReply_standing hstands state hsocks s.kernel.request.https env
    obtain ⟨hnone, -⟩ := hstands.standing.of_socks (.inr state)
    refine ⟨?_, hbuf⟩
    simpa [Sending.nextSession, state, hnone, sessionOf] using hstanding
  | @http state _ last feeds =>
    have hsyn : s.kernel.conn.state ≠ .syn := by
      rw [state]
      decide
    have hother : (if seg.fin then FetchState.done else last.conn.state) ≠ .tlsHandshake := by
      split_ifs
      · decide
      · rcases feeds.state with hsame | hdone
        · rw [hsame, state]
          decide
        · rw [hdone]
          decide
    rw [nextSession_keeps hother hsyn]
    apply aligned_feeds h feeds
    · rfl
    · dsimp only
      split_ifs
      · exact .inr rfl
      · exact .inl rfl

end Packets

section Ticks

variable {env : TickEnv}

theorem tickConn_opened (request : Request) (c : Conn) (env : TickEnv) :
    ∀ action ∈ (tickConn request c env).actions, action.opened = none := by
  intro action hmem
  have hstep := tickConn_step request c env
  generalize tickConn request c env = r at hstep hmem
  cases hstep with
  | restart =>
    rw [List.mem_singleton.mp hmem]
    rfl
  | progress hprogress =>
    have hemits := hprogress.actions action hmem
    cases action with
    | established => cases hemits
    | _ => rfl

theorem tlsSendAll_opened (c : Conn) (sends : List TlsSend) :
    ∀ action ∈ (tlsSendAll c sends).2, action.opened = none := by
  intro action hmem
  obtain ⟨seq, data, queued, rfl⟩ := tlsSendAll_sendData c sends action hmem
  rfl

/-- The TLS library is called before it reads. -/
theorem aligned_calls {c : Conn} (h : Aligned s) (hstate : c.state = .tlsRead)
    (hsend : SameSend s.kernel.conn c) (hsame : c.state = s.kernel.conn.state)
    (hresume : ∀ out ∈ s.session, out.Resumes env.tlsSends) (haccepts : Accepts env.tlsSends) :
    Aligned ⟨{ s.kernel with
      conn := (tlsSendAll c env.tlsSends).1
      trace := s.kernel.trace ++ (tlsSendAll c env.tlsSends).2 },
      sessionAfter s.session true env.tlsSends⟩ := by
  have htls : c.state.tls = true := by
    rw [hstate]
    rfl
  apply h.after rfl (tlsSendAll_opened c env.tlsSends)
  · intro _ _ hstill
    rw [← hsame, hstate] at hstill
    cases hstill
  · intro base log hstands
    have hafter : StandsAfter s.kernel.trace base log (sessionAfter s.session true env.tlsSends)
        ⟨(tlsSendAll c env.tlsSends).1, (tlsSendAll c env.tlsSends).2, true⟩ :=
      calls_stands (hstands.congr hsend hsame) htls hresume haccepts rfl rfl rfl
        (.inr (tlsSendAll_tls htls _))
    exact hafter

/-- A tick. -/
theorem aligned_tick (h : Aligned s) (hresume : s.resumes (.tick env))
    (horder : s.kernel.conn.works env → InOrder s.kernel.request s.kernel.conn env)
    (hstep : s.kernel.tick env = .ok k') : Aligned ⟨k', s.nextSession k' (.tick env)⟩ := by
  change Aligned ⟨k', sessionAfter s.session (s.kernel.conn.callsTls s.kernel.request env)
    env.tlsSends⟩
  rcases tick_eq_ok hstep with ⟨hreads, rfl⟩ |
    ⟨hreads, start, last, pieces, conn, rfl, hfeeds, hstop, -, -, rfl⟩
  · apply h.after rfl (tickConn_opened _ _ _)
    · intro _ hsession hstill
      have hleave : Leaves s.kernel.conn (tickConn s.kernel.request s.kernel.conn env).conn
          (tickConn s.kernel.request s.kernel.conn env).actions := tickConn_leaves hstill
      refine ⟨?_, hleave.still, ?_⟩
      · simp [Conn.callsTls, needsTls_still hstill, sessionAfter, hsession]
      · rcases hleave.httpBuf with hsame | hnil
        · dsimp only
          rw [hsame]
          exact h.built.append _
        · exact .inl hnil
    · intro base log hstands
      exact tickConn_stands hstands horder hresume hreads
  · obtain ⟨hstate, hworks, hsend, hread⟩ := tickConn_reads hreads
    have hneeds : s.kernel.conn.needsTls s.kernel.request = true := by
      simp [Conn.needsTls, hstate]
    have hcalls : s.kernel.conn.callsTls s.kernel.request env = true := by
      rw [Conn.callsTls, hworks, hneeds]
      rfl
    have hstart := aligned_calls h hread hsend (hread.trans hstate.symm) (hresume hcalls)
      ((horder hworks).tls hneeds)
    rw [hcalls]
    exact aligned_feeds hstart hfeeds hstop.core hstop.state

end Ticks

section Outcomes

theorem sameSend_transport {c d : Conn} (h : d.transport = c.transport)
    (hup : d.established → c.established) : SameSend c d := by
  have htransport : SameSend c.transport d.transport := h ▸ SameSend.refl c.transport
  exact ⟨htransport.1, htransport.2, htransport.3, htransport.4, htransport.5, htransport.6,
    htransport.7, htransport.8, hup⟩

theorem told_opened {k : Kernel} {done : List Action} (h : Told k done) :
    ∀ action ∈ done, action.opened = none := by
  intro action hmem
  rcases h with rfl | ⟨-, -, rfl⟩
  · exact absurd hmem List.not_mem_nil
  · rw [List.mem_singleton.mp hmem]
    rfl

theorem told_handed {k : Kernel} {done : List Action} (h : Told k done) :
    done.filterMap Action.handed = [] := by
  rcases h with rfl | ⟨-, -, rfl⟩ <;> rfl

theorem aligned_prepared (h : Aligned s) {p : Kernel} (hp : Prepared s.kernel p) :
    Aligned ⟨p, s.session⟩ := by
  obtain ⟨done, htrace, htold⟩ := hp.trace
  have hsend := sameSend_transport hp.transport hp.established
  rcases hp.state with hsame | hidle
  · exact h.quiet htrace (told_opened htold) hsend hsame (told_handed htold)
  · have hstill : p.conn.state.still = true := by
      rw [hidle]
      rfl
    exact h.leave htrace (told_opened htold) (hsend.leaves hstill (told_handed htold))

theorem destination_still (c : Conn) (cached : Option Ipv4) :
    (c.destination cached).2.still = true := by
  unfold Conn.destination
  cases cached with
  | none => split_ifs <;> rfl
  | some ip => split_ifs <;> rfl

theorem reuseCandidate_open {target : Target} {k : Kernel} (h : reuseCandidate config target k = true) :
    config.nativeOpenaiReuse = true ∧ k.conn.openaiReusable = true ∧ k.conn.established = true ∧
      k.conn.proxy = true := by
  unfold reuseCandidate at h
  simp only [Bool.and_eq_true] at h
  obtain ⟨⟨⟨⟨⟨⟨⟨⟨⟨hreuse, -⟩, hreusable⟩, hup⟩, -⟩, hproxy⟩, -⟩, -⟩, -⟩, -⟩ := h
  exact ⟨hreuse, hreusable, hup, hproxy⟩

/-- A fetch is started, over a new connection or over the one that was kept open. -/
theorem aligned_launch (h : Aligned s) (owner : Owner) (env : StartEnv) {target : Target}
    (reply : ReplyTo) (redirectStart : Bool)
    (hkept : reuseCandidate config target s.kernel = true → s.session.isSome) :
    Aligned ⟨s.kernel.launch config owner env target reply redirectStart, s.session⟩ := by
  have hopened : ∀ action ∈ [Action.start owner (s.kernel.request.aim target) s.kernel.dnsCache env.now],
      action.opened = none := by
    intro action hmem
    rw [List.mem_singleton.mp hmem]
    rfl
  rcases launch_conn s.kernel config owner env target reply redirectStart with
    ⟨hconn, hcandidate⟩ | ⟨c, cached, hc, hconn⟩
  · obtain ⟨out, hsession⟩ := Option.isSome_iff_exists.mp (hkept hcandidate)
    obtain ⟨-, -, hup, hproxy⟩ := reuseCandidate_open hcandidate
    apply h.after rfl hopened
    · intro _ hnone _
      rw [hnone] at hsession
      cases hsession
    · intro base log hstands
      have hstanding := hstands.standing
      rw [hconn, hsession]
      rw [hsession] at hstanding
      cases hstanding with
      | records state records =>
        have hnone : [Action.start owner (s.kernel.request.aim target) s.kernel.dnsCache env.now].filterMap
            Action.handed = [] := rfl
        rw [hnone, List.append_nil]
        refine ⟨.records (.inr rfl) ⟨records.proxied, records.sent, records.seq, ?_⟩, .inl rfl⟩
        intro _
        exact (records.same (.inr hup)).trans hproxy
  · apply h.leave rfl hopened
    have htls : c.transport.tlsSeq = s.kernel.conn.transport.tlsSeq := congrArg Conn.tlsSeq hc
    rw [hconn]
    exact ⟨destination_still _ _, htls, .inr rfl, fun hup => Bool.noConfusion hup, rfl⟩

/-- What is done with a request. -/
theorem aligned_outcome {attempt : Option (StartEnv × Target)} {command : Option Command}
    (h : Aligned s) (hkept : config.nativeOpenaiReuse →
      s.kernel.conn.openaiReusable ∨ s.kernel.LeftOpen → s.session.isSome)
    (hout : Outcome config attempt command s.kernel k') : Aligned ⟨k', s.session⟩ := by
  cases hout with
  | settled hs => exact aligned_prepared h hs.toPrepared
  | launched hl =>
    apply aligned_launch (aligned_prepared h hl.toPrepared)
    intro hcandidate
    obtain ⟨hreuse, hreusable, -, -⟩ := reuseCandidate_open hcandidate
    exact hkept hreuse (hl.reusable hreusable)

end Outcomes

section Runs

/-- An event that is neither a segment nor a tick leaves the session alone. -/
theorem aligned_event {event : Event} (h : Aligned s) (hkept : config.nativeOpenaiReuse →
      s.kernel.conn.openaiReusable ∨ s.kernel.LeftOpen → s.session.isSome)
    (hstep : KernelStep config s.kernel event k') (hsegment : ∀ seg env, event ≠ .segment seg env)
    (htick : ∀ env, event ≠ .tick env) : Aligned ⟨k', s.session⟩ := by
  cases hstep with
  | arp gateway dns => exact aligned_arp h gateway dns
  | dns hdns => exact aligned_dns h hdns
  | segment => exact absurd rfl (hsegment _ _)
  | outcome hout => exact aligned_outcome h hkept hout
  | tick => exact absurd rfl (htick _)
  | read => exact absurd rfl (htick _)
  | reply reply => exact ⟨h.stands, h.built⟩

theorem aligned_step {event : Event} (h : Aligned s) (hresume : s.resumes event)
    (horder : KeepsOrder config s event) (hstep : s.kernel.step config event = .ok k') :
    Aligned ⟨k', s.nextSession k' event⟩ := by
  have hevent := aligned_event h horder.1 (kernel_step hstep)
  cases event with
  | segment seg env => exact aligned_segment h horder.2 (receiveSegment_step hstep)
  | tick env => exact aligned_tick h hresume horder.2 hstep
  | _ => exact hevent (fun _ _ h => Event.noConfusion h) (fun _ h => Event.noConfusion h)

/-- A step is one of the kernel. -/
theorem sending_step {event : Event} (h : (sendingMachine config).allowed s event) :
    s.resumes event ∧ ∃ kernel, s.kernel.step config event = .ok kernel ∧
      (sendingMachine config).step s event = ⟨kernel, s.nextSession kernel event⟩ := by
  obtain ⟨hresume, hstep⟩ := Machine.ofChecked_step h
  unfold Sending.step at hstep
  cases hkernel : s.kernel.step config event with
  | error trap =>
    rw [hkernel] at hstep
    cases hstep
  | ok kernel =>
    rw [hkernel, ok_bind] at hstep
    exact ⟨hresume, kernel, rfl, (Except.ok.inj hstep).symm⟩

/-- The kernel of a run is one that the kernel reaches by itself. -/
theorem kernel_reachable (hs : (sendingMachine config).Reachable s) :
    (kernelMachine config).Reachable s.kernel := by
  apply hs.invariant
  · rintro _ ⟨hinit, -⟩
    exact .init hinit
  · intro s event h hallowed
    obtain ⟨-, kernel, hkernel, hnext⟩ := sending_step hallowed
    have hstep : (kernelMachine config).step s.kernel event = kernel := by
      change (s.kernel.step config event).toOption.getD s.kernel = kernel
      rw [hkernel]
      rfl
    rw [hnext, ← hstep]
    apply h.step
    refine ⟨trivial, ?_⟩
    rw [hkernel]
    rfl

instance (s : Sending) : ∀ event, Decidable (s.resumes event)
  | .tick env => inferInstanceAs (Decidable (_ → ∀ out ∈ s.session, out.Resumes env.tlsSends))
  | .arp _ _ | .dnsReply _ _ | .segment _ _ | .udp _ _ _ | .line _ _ | .reply _ | .done _ => isTrue trivial

instance (config : Config) (s : Sending) (event : Event) :
    Decidable ((sendingMachine config).allowed s event) :=
  inferInstanceAs (Decidable (s.resumes event ∧ _))

instance (config : Config) (s : Sending) : ∀ event, Decidable (KeepsOrder config s event)
  | .tick _ | .segment _ _ | .arp _ _ | .dnsReply _ _ | .udp _ _ _ | .line _ _ | .reply _ | .done _ =>
    inferInstanceAs (Decidable (_ ∧ _))

def proxyConfig : Config := ⟨true, false, 1080, 8090⟩

/-- A connection to the proxy. -/
def proxyRun : List Event :=
  [urlLine "https://a.com/" 0 true,
    plainTick 10,
    .segment ⟨hostIp, 1080, 40000, 7, 0x1001, 0x12, []⟩ ⟨20, true, true⟩]

end Runs

end MiniAgentOS.Fetch
