import MiniAgentOS.Fetch.Start

/-! `fetch_tick`: what the passing of time does to a fetch. All states but `FETCH_TLS_READ` change the
connection only. -/
namespace MiniAgentOS.Fetch
open Net Http

/-- What a call of the TLS library returns: it is done, it wants to be called again, or it failed. -/
inductive TlsResult where
  | ok (count : ℕ)
  | retry
  | failed
  deriving DecidableEq, Repr

/-- What one `tls::read_step` returns. -/
inductive TlsRead where
  | data (plain : Bytes)
  | closed
  | retry
  | failed
  deriving DecidableEq, Repr

/-- One call of `tls_send`: the record, whether `send_tcp` queued it and whether the used index of the
transmit ring moved before the wait was given up. -/
structure TlsSend where
  record : Bytes
  queued : Bool
  used : Bool
  deriving DecidableEq, Repr

/-- What a tick meets: the clock, whether the used index of the transmit ring has moved, whether
`send_tcp` queues the frame, and what the TLS library does. -/
structure TickEnv where
  now : ℕ
  txDone : Bool
  queued : Bool
  tlsSends : List TlsSend
  tls : TlsResult
  reads : List TlsRead
  deriving DecidableEq, Repr

/-- The connection after a tick, what was done, and whether the fetch goes on to read over TLS. -/
structure TickResult where
  conn : Conn
  actions : List Action := []
  reads : Bool := false
  deriving DecidableEq, Repr

def stay (c : Conn) : TickResult := ⟨c, [], false⟩

/-- The fetch is over without further actions. -/
def Conn.finish (c : Conn) : Conn := { c with state := .done }

def fetchRoundMs : ℕ := 30000

/-- Out of retries: a new round if there is one left, else the end of the fetch. -/
def retryRound (c : Conn) (reason : Bytes) : TickResult :=
  if c.rounds < fetchMaxRounds then ⟨c.restartRound, [.restart], false⟩
  else stay (c.failIfEmpty reason).finish

/-- A packet was sent that is sent again at `nextMs`. -/
def Conn.sent (c : Conn) (nextMs : ℕ) : Conn :=
  { c with retry := c.retry + 1, nextMs, txInflight := true }

def tickArp (c : Conn) (env : TickEnv) : TickResult :=
  if c.haveGw then stay c.resumeAfterGateway
  else if env.now < c.nextMs then stay c
  else if fetchMaxRetry ≤ c.retry then retryRound c (ascii "gateway arp timed out")
  else ⟨c.sent (env.now + 200), [.sendArp], false⟩

def dnsQueryId : ℕ := 0x1234

def tickDns (domain : Bytes) (c : Conn) (env : TickEnv) : TickResult :=
  if env.now < c.nextMs then stay c
  else if fetchMaxRetry ≤ c.retry then retryRound c (ascii "dns lookup timed out")
  else
    let c := { c with haveDns := c.haveDns || c.haveGw }
    if !c.haveDns then ⟨c.sent (env.now + 200), [.sendArp], false⟩
    else
      let query := dnsBuildQuery dnsBufLen domain dnsQueryId
      if query = [] then stay (c.fail (ascii "dns request build failed")).finish
      else ⟨c.sent (env.now + 2000), [.sendDnsQuery query], false⟩

def tickSyn (c : Conn) (env : TickEnv) : TickResult :=
  if env.now < c.nextMs then stay c
  else if fetchMaxRetry ≤ c.retry then retryRound c (ascii "tcp connect timed out")
  else ⟨c.sent (env.now + 2000), [.sendSyn c.dstIp c.seq c.direct], false⟩

def socksHello : Bytes := [5, 1, 0]

def socksConnect (request : Request) : Bytes :=
  [5, 1, 0, 3, UInt8.ofNat request.domain.length] ++ request.domain ++
    [UInt8.ofNat (request.targetPort / 256), UInt8.ofNat (request.targetPort % 256)]

/-- Send a message to the proxy; the send pointer moves on whether it was queued or not. -/
def sendSocks (c : Conn) (env : TickEnv) (message : Bytes) : TickResult :=
  ⟨Conn.sent { c with seq := c.seq + UInt32.ofNat message.length, socksSent := true }
      (env.now + 2000),
    [.sendData c.seq message env.queued], false⟩

def tickSocksHello (c : Conn) (env : TickEnv) : TickResult :=
  if env.now < c.nextMs then stay c
  else if fetchMaxRetry ≤ c.retry then
    stay (c.failIfEmpty (ascii "proxy handshake timed out")).finish
  else sendSocks c env socksHello

def tickSocksConnect (request : Request) (c : Conn) (env : TickEnv) : TickResult :=
  if env.now < c.nextMs then stay c
  else if fetchMaxRetry ≤ c.retry then
    stay (c.failIfEmpty (ascii "proxy connect timed out")).finish
  else if 255 < request.domain.length then
    stay (c.fail (ascii "proxy request host too long")).finish
  else sendSocks c env (socksConnect request)

/-- Send the next piece of the request, which was built before. -/
def sendPiece (c : Conn) (env : TickEnv) : TickResult :=
  if c.httpOff = 0 ∧ fetchMaxRetry ≤ c.httpRetry then
    stay (c.failIfEmpty (ascii "http send retries exhausted")).finish
  else
    let c :=
      if c.httpOff = 0 then
        { c with httpSeq := c.seq, httpRetry := c.httpRetry + 1, gotResp := false }
      else c
    if c.httpBuf.length ≤ c.httpOff then
      stay { c with httpSent := true, nextMs := env.now + 5000 }
    else
      let piece := (c.httpBuf.drop c.httpOff).take maxTcpPayloadLen
      let seq := c.httpSeq + UInt32.ofNat c.httpOff
      let off := c.httpOff + piece.length
      let httpSent : Bool := c.httpBuf.length ≤ off
      ⟨{ c with
          seq := seq + UInt32.ofNat piece.length
          httpOff := off
          httpSent
          txInflight := true
          nextMs := if httpSent then env.now + 5000 else env.now + 1 },
        [.sendData seq piece env.queued], false⟩

/-- Build the request if it was not built yet, and send. -/
def sendRequest (request : Request) (c : Conn) (env : TickEnv) : TickResult :=
  if c.httpBuf = [] then
    let message := buildHttpRequest httpBufLen request
    let c := { c with httpBuf := message, httpOff := 0 }
    if message = [] then
      ⟨(c.fail (ascii "http request build failed")).finish, [.buildRequest request], false⟩
    else
      let result := sendPiece c env
      { result with actions := .buildRequest request :: result.actions }
  else sendPiece c env

def tickHttp (request : Request) (c : Conn) (env : TickEnv) : TickResult :=
  if env.now < c.nextMs then stay c
  else if !c.ackSent then
    stay { c with txInflight := true, ackSent := true, nextMs := env.now + 50 }
  else if !c.httpSent then sendRequest request c env
  else if fetchMaxRetry ≤ c.httpRetry then
    stay (c.failIfEmpty (ascii "http response timed out")).finish
  else stay { c with httpSent := false, httpOff := 0, seq := c.httpSeq, nextMs := 0 }

def tlsTxChunkLen : ℕ := 1400

/-- `tls_send`: the number that the library is told depends on the ring only, not on `send_tcp`. -/
def tlsSend (c : Conn) (send : TlsSend) : Conn × List Action :=
  let piece := send.record.take (min tlsTxChunkLen maxTcpPayloadLen)
  (if send.used then { c with tlsSeq := c.tlsSeq + UInt32.ofNat piece.length } else c,
    [.sendData c.tlsSeq piece send.queued])

def tlsSendAll (c : Conn) : List TlsSend → Conn × List Action
  | [] => (c, [])
  | send :: sends =>
    let (next, actions) := tlsSend c send
    let (last, more) := tlsSendAll next sends
    (last, actions ++ more)

def tickTlsHandshake (c : Conn) (env : TickEnv) : TickResult :=
  let (c, actions) := tlsSendAll c env.tlsSends
  match env.tls with
  | .ok _ => ⟨{ c with state := .tlsHttp, tlsHttpOff := 0, tlsHttpBuf := [] }, actions, false⟩
  | .retry => ⟨c, actions, false⟩
  | .failed => ⟨(c.fail (ascii "tls handshake failed")).finish, actions, false⟩

/-- Write what is left of the request, which was built before. -/
def writeRequest (c : Conn) (env : TickEnv) : TickResult :=
  if c.tlsHttpBuf.length ≤ c.tlsHttpOff then
    stay { c with state := .tlsRead, nextMs := env.now + 5000 }
  else
    let (c, actions) := tlsSendAll c env.tlsSends
    match env.tls with
    | .ok count => ⟨{ c with tlsHttpOff := c.tlsHttpOff + count }, actions, false⟩
    | .retry => ⟨c, actions, false⟩
    | .failed => ⟨(c.fail (ascii "tls write failed")).finish, actions, false⟩

def tickTlsHttp (request : Request) (c : Conn) (env : TickEnv) : TickResult :=
  if c.tlsHttpBuf = [] then
    let message := buildHttpRequest httpBufLen request
    let c := { c with tlsHttpBuf := message }
    if message = [] then
      ⟨(c.fail (ascii "https request build failed")).finish, [.buildRequest request], false⟩
    else
      let result := writeRequest c env
      { result with actions := .buildRequest request :: result.actions }
  else writeRequest c env

/-- The dispatch of `fetch_tick` on the state it began with. -/
def tickState (request : Request) (c : Conn) (env : TickEnv) : TickResult :=
  match c.state with
  | .arp => tickArp c env
  | .dns => tickDns request.domain c env
  | .syn => tickSyn c env
  | .socksHello => tickSocksHello c env
  | .socksConnect => tickSocksConnect request c env
  | .http => tickHttp request c env
  | .tlsHandshake => tickTlsHandshake c env
  | .tlsHttp => tickTlsHttp request c env
  | .tlsRead => ⟨c, [], true⟩
  | .idle | .done => stay c

/-- `fetch_tick` up to the reading over TLS. -/
def tickConn (request : Request) (c : Conn) (env : TickEnv) : TickResult :=
  if c.state = .idle then stay c
  else if c.deadlineMs ≠ 0 ∧ c.deadlineMs < env.now then
    if c.rounds < fetchMaxRounds then
      ⟨{ c.restartRound with deadlineMs := env.now + fetchRoundMs }, [.restart], false⟩
    else stay (c.failIfEmpty (ascii "network request timed out")).finish
  else
    let c := if c.deadlineMs = 0 then { c with deadlineMs := env.now + fetchRoundMs } else c
    if c.state ≠ .arp ∧ !c.haveGw then stay { c with state := .arp }
    else if c.txInflight ∧ !env.txDone then stay c
    else tickState request { c with txInflight := false } env

end MiniAgentOS.Fetch
