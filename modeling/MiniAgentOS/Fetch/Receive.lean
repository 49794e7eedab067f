import MiniAgentOS.Fetch.Tick
import MiniAgentOS.Net.Dns
import MiniAgentOS.Net.InputSafety

/-! What packets do to a fetch: an ARP or DNS reply, a segment of the connection, and the bytes of the
response on their way through the parser. -/
namespace MiniAgentOS.Fetch
open Checked Net Http

section Feed

/-- Size of `AGENT_OUTPUT_TEXT`. -/
def agentOutputTextLen : ℕ := 16384

/-- The phases in which the agent keeps the body of the response. -/
def AgentPhase.captures : AgentPhase → Bool
  | .idle | .postResult => false
  | _ => true

/-- The phases in which the response is one of the model. -/
def AgentPhase.openai : AgentPhase → Bool
  | .callModel | .interpretGoal | .m4Model | .m4SummaryModel => true
  | _ => false

def Agent.capturing (agent : Agent) : Bool := agent.taskActive && agent.phase.captures

def statusSuccess (status : ℕ) : Bool := 200 ≤ status && status < 300

/-- Append to the body what fits. -/
def Capture.append (c : Capture) (data : Bytes) : Capture :=
  let remain := agentResponseBodyLen - c.body.length
  { c with
    body := c.body ++ data.take remain
    truncated := c.truncated || remain < data.length }

/-- `agent_capture_response_body` in a phase that captures. -/
def captureBody (phase : AgentPhase) (status : ℕ) (c : Capture) (data : Bytes) : Checked Capture :=
  let c := if c.body = [] then { c with truncated := false, outputText := [] } else c
  if phase.openai ∧ c.outputText ≠ [] ∧ statusSuccess status then pure c
  else if phase.openai ∧ statusSuccess status then do
    let c := c.append data
    match ← extractOpenaiNestedOutputText c.body agentOutputTextLen with
    | some text => pure { c with outputText := if text = [] then c.outputText else text }
    | none => pure c
  else pure (c.append data)

/-- What `send_body_chunks` hands to the agent. -/
def captureEffect (phase : AgentPhase) (status : ℕ) (c : Capture) : HttpEffect → Checked Capture
  | .body data _ => captureBody phase status c data
  | _ => pure c

/-- `capture_redirect` for a target that was found. -/
def captureRedirect (oauth : Bool) (target : RedirectTarget) (c : Conn) (r : Redirect) :
    Conn × Redirect :=
  if oauth ∨ fetchMaxRedirects ≤ r.count ∨ r.pending then (c, r)
  else if fetchDomainLen < target.domain.length ∨ fetchPathLen < target.path.length then
    (c.fail (ascii "redirect url too long"), r)
  else (c, { count := r.count + 1, pending := true, target, suppressOk := true })

/-- What `http_feed` does to the connection and to the redirect. -/
def applyEffect (oauth : Bool) (state : Conn × Redirect) : HttpEffect → Conn × Redirect
  | .body _ _ => ({ state.1 with gotResp := true }, state.2)
  | .headersTooLarge =>
    ({ (state.1.fail (ascii "http headers too large")).finish with gotResp := false }, state.2)
  | .redirect target => captureRedirect oauth target state.1 state.2
  | .headerBytes _ | .status _ | .setTime _ => state

/-- The parser and the capture of the agent, fed with a piece of the response. -/
def feedCapture (agent : Agent) (http : HttpParser) (data : Bytes) :
    Checked (HttpParser × Capture × List HttpEffect) := do
  let (http, effects) ← httpFeed http data
  if agent.capturing then
    let capture ← effects.foldlM (captureEffect agent.phase http.status) agent.capture
    pure (http, capture, effects)
  else pure (http, agent.capture, effects)

/-- `http_feed` with all that it does. -/
def Kernel.feed (k : Kernel) (data : Bytes) : Checked Kernel := do
  let (http, capture, effects) ← feedCapture k.agent k.http data
  let (conn, redirect) := effects.foldl (applyEffect k.request.oauthActive) (k.conn, k.redirect)
  pure
    { k with
      http
      agent := { k.agent with capture }
      conn
      redirect
      trace := k.trace ++ [.feed data] }

end Feed

section TlsRead

def tlsReadBurstMax : ℕ := 64

/-- After a piece was read, a reply to the command is due. -/
def Kernel.readPiece (k : Kernel) (now : ℕ) : Kernel :=
  { k with
    conn := { k.conn with gotResp := true, nextMs := now + 3000 }
    reply :=
      { k.reply with
        pending :=
          k.reply.pending || (!k.reply.sent && !k.redirect.suppressOk && k.reply.srcPort != 0) } }

/-- `FETCH_TLS_READ`: at most `burst` more pieces in this tick. Where the list of results ends, the
library wants to be called again. -/
def Kernel.tlsRead (k : Kernel) (now : ℕ) : ℕ → List TlsRead → Checked Kernel
  | 0, _ => pure k
  | burst + 1, reads =>
    if k.http.state = .complete then pure { k with conn := k.conn.finish }
    else if k.conn.nextMs < now ∧ k.conn.gotResp then pure { k with conn := k.conn.finish }
    else
      match reads with
      | [] | .retry :: _ => pure k
      | .data [] :: _ | .closed :: _ =>
        pure { k with conn := { k.conn.finish with peerClosed := true } }
      | .data plain :: reads => do
        let k ← k.feed (plain.take httpBufLen)
        (k.readPiece now).tlsRead now burst reads
      | .failed :: _ => pure { k with conn := (k.conn.fail (ascii "tls read failed")).finish }

/-- `fetch_tick`. -/
def Kernel.tick (k : Kernel) (env : TickEnv) : Checked Kernel :=
  let result := tickConn k.request k.conn env
  let k := { k with conn := result.conn, trace := k.trace ++ result.actions }
  if result.reads then
    let (conn, actions) := tlsSendAll k.conn env.tlsSends
    Kernel.tlsRead { k with conn, trace := k.trace ++ actions } env.now tlsReadBurstMax env.reads
  else pure k

end TlsRead

section Packets

/-- A TCP segment that `parse_rx_tcp` accepted. -/
structure TcpSegment where
  srcIp : Ipv4
  srcPort : ℕ
  dstPort : ℕ
  seq : UInt32
  ack : UInt32
  flags : UInt8
  payload : Bytes
  deriving DecidableEq, Repr

def TcpSegment.fin (seg : TcpSegment) : Bool := seg.flags &&& 0x01 != 0

/-- What the handler of a SYN-ACK meets: the clock, whether the used index of the transmit ring has
moved, and whether the TLS library could be configured. -/
structure SegmentEnv where
  now : ℕ
  txDone : Bool
  tlsConfigured : Bool
  deriving DecidableEq, Repr

/-- The segment belongs to the connection. -/
def Conn.accepts (c : Conn) (seg : TcpSegment) : Bool :=
  seg.srcIp == c.dstIp && seg.srcPort == c.dstPort && seg.dstPort == c.tcpSrcPort

/-- Configure the TLS library for the connection. -/
def Conn.configureTls (c : Conn) (env : SegmentEnv) : Conn :=
  if env.tlsConfigured then { c with tlsSeq := c.seq, state := .tlsHandshake }
  else ({ c with tlsSeq := c.seq }.fail (ascii "tls configure failed")).finish

/-- A SYN-ACK in `FETCH_SYN`. Its acknowledgement number is not looked at. -/
def Conn.synAck (c : Conn) (https : Bool) (seg : TcpSegment) (env : SegmentEnv) : Conn :=
  let txBusy := c.txInflight && !env.txDone
  let c :=
    { c with
      ack := seg.seq + 1
      seq := c.seq + 1
      txInflight := true
      ackSent := !txBusy
      established := true
      httpSent := false
      httpRetry := 0
      httpOff := 0
      gotResp := false
      nextMs := env.now + 50 }
  if c.proxy then { c with state := .socksHello, retry := 0, socksSent := false }
  else if https then c.configureTls env
  else { c with state := .http }

/-- The answer to the hello of the proxy protocol. -/
def Conn.socksHelloReply (c : Conn) (seg : TcpSegment) : Conn :=
  match seg.payload with
  | version :: method :: _ =>
    let c := { c with ack := seg.seq + UInt32.ofNat seg.payload.length }
    if version = 5 ∧ method = 0 then
      { c with state := .socksConnect, retry := 0, nextMs := 0, socksSent := false }
    else (c.fail (ascii "proxy handshake rejected")).finish
  | _ => c

/-- The answer to the connect request of the proxy protocol. -/
def Conn.socksConnectReply (c : Conn) (https : Bool) (seg : TcpSegment) (env : SegmentEnv) : Conn :=
  match seg.payload with
  | version :: result :: _ :: _ :: _ :: _ =>
    let c := { c with ack := seg.seq + UInt32.ofNat seg.payload.length }
    if version = 5 ∧ result = 0 then
      if https then c.configureTls env else { c with state := .http }
    else (c.fail (ascii "proxy connect rejected")).finish
  | _ => c

/-- `FETCH_ACK` after a segment in `FETCH_HTTP`. -/
def segmentAck (ack : UInt32) (seg : Segment) : UInt32 :=
  let fed := if newPayload ack seg = [] then ack else seg.stop
  if seg.fin ∧ 0 < tcpSeqCmp (seg.stop + 1) fed then seg.stop + 1 else fed

/-- A segment in `FETCH_HTTP`. -/
def Kernel.receiveHttp (k : Kernel) (seg : Segment) : Checked Kernel := do
  let ack := segmentAck k.conn.ack seg
  let k ← (feedChunks (newPayload k.conn.ack seg)).foldlM Kernel.feed k
  pure { k with conn := { k.conn with ack, state := if seg.fin then .done else k.conn.state } }

/-- A segment that `parse_rx_tcp` accepted. In the TLS states it goes to the library only. -/
def Kernel.receiveSegment (k : Kernel) (seg : TcpSegment) (env : SegmentEnv) : Checked Kernel :=
  if !k.conn.accepts seg then pure k
  else
    match k.conn.state with
    | .syn =>
      if seg.flags &&& 0x12 = 0x12 then
        pure
          { k with
            conn := k.conn.synAck k.request.https seg env
            trace := k.trace ++ [.established (k.conn.seq + 1) seg.ack] }
      else pure k
    | .socksHello => pure { k with conn := k.conn.socksHelloReply seg }
    | .socksConnect => pure { k with conn := k.conn.socksConnectReply k.request.https seg env }
    | .http => k.receiveHttp ⟨seg.seq, seg.payload, seg.fin⟩
    | _ => pure k

/-- An ARP packet in `FETCH_ARP`, with which the gateway or the name server may get known. -/
def Kernel.receiveArp (k : Kernel) (gateway dns : Bool) : Kernel :=
  if k.conn.state = .arp then
    let conn :=
      if gateway then
        { { k.conn with haveGw := true }.resumeAfterGateway with retry := 0, nextMs := 0 }
      else k.conn
    { k with conn := { conn with haveDns := conn.haveDns || dns } }
  else k

/-- A datagram of the name server in `FETCH_DNS`. -/
def Kernel.receiveDns (k : Kernel) (datagram : Bytes) (now : ℕ) : Checked Kernel :=
  if k.conn.state = .dns then do
    let reply := datagram.take dnsBufLen
    match ← dnsParseResponse reply reply.length dnsQueryId with
    | .address ip =>
      pure
        { k with
          conn := { k.conn with dstIp := ip, retry := 0, nextMs := 0, state := .syn }
          dnsCache := dnsCacheStore now k.request.domain ip k.dnsCache
          trace := k.trace ++ [.resolved k.request.domain ip reply] }
    | .tooLarge => pure { k with conn := k.conn.fail (ascii "dns response too large") }
    | .rejected => pure k
  else pure k

end Packets

end MiniAgentOS.Fetch
