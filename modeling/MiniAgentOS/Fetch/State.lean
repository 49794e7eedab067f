import MiniAgentOS.Fetch.HttpSegment
import MiniAgentOS.Net.DnsCache
import MiniAgentOS.Text.Json

/-! The globals of the fetch engine, in groups, and the request that they make. -/
namespace MiniAgentOS.Fetch
open Net Http

/-- `FETCH_STATE`. -/
inductive FetchState where
  | idle
  | arp
  | dns
  | syn
  | http
  | tlsHandshake
  | tlsHttp
  | tlsRead
  | done
  | socksHello
  | socksConnect
  deriving DecidableEq, Repr

/-- What the build sets: whether requests over TLS go through the proxy, whether its connection to
the model is kept open, and the ports on the host. -/
structure Config where
  proxySocks5 : Bool
  nativeOpenaiReuse : Bool
  proxyPort : ℕ
  m5BridgePort : ℕ
  deriving DecidableEq, Repr

def fetchMaxRetry : ℕ := 5

def fetchMaxRounds : ℕ := 2

def fetchMaxRedirects : ℕ := 3

def fetchDomainLen : ℕ := 512

def fetchPathLen : ℕ := 2048

def fetchBodyLen : ℕ := 65536

def httpBufLen : ℕ := 98304

def dnsBufLen : ℕ := 1536

/-- `max_tcp_payload_len`: the transmit buffer without the headers of a frame. -/
def maxTcpPayloadLen : ℕ := 8192 - (virtioNetHdrLen + ethHdrLen + 20 + 20)

def noIp : Ipv4 := ⟨0, 0, 0, 0⟩

/-- The gateway, which is also the proxy and the bridge on the host. -/
def hostIp : Ipv4 := ⟨10, 0, 2, 2⟩

/-- Whose secret a header field holds. -/
inductive CredentialKind where
  | openai
  | x
  deriving DecidableEq, Repr

/-- A line of `FETCH_EXTRA_HEADER` as one of the builders of authorization headers left it. -/
structure Credential where
  kind : CredentialKind
  header : Bytes
  deriving DecidableEq, Repr

/-- What `build_http_request` reads, and whom the request is for. There is no extra header when
`FETCH_EXTRA_HEADER_LEN` is 0. -/
structure Request where
  domain : Bytes := []
  path : Bytes := []
  https : Bool := false
  targetPort : ℕ := 0
  methodPost : Bool := false
  body : Bytes := []
  extraHeader : Option Credential := none
  oauthActive : Bool := false
  deriving DecidableEq, Repr

/-- The state of the connection. `httpBuf` and `tlsHttpBuf` are the request as it was built, empty
before that; `tlsSeq` is the sequence number of the TLS library. -/
structure Conn where
  state : FetchState := .idle
  proxy : Bool := false
  haveFixedIp : Bool := false
  fixedIp : Ipv4 := noIp
  dstIp : Ipv4 := noIp
  dstPort : ℕ := 80
  tcpSrcPort : ℕ := 40000
  haveGw : Bool := false
  haveDns : Bool := false
  seq : UInt32 := 0
  ack : UInt32 := 0
  established : Bool := false
  ackSent : Bool := false
  socksSent : Bool := false
  peerClosed : Bool := false
  txInflight : Bool := false
  retry : ℕ := 0
  rounds : ℕ := 0
  nextMs : ℕ := 0
  deadlineMs : ℕ := 0
  gotResp : Bool := false
  httpSent : Bool := false
  httpRetry : ℕ := 0
  httpSeq : UInt32 := 0
  httpBuf : Bytes := []
  httpOff : ℕ := 0
  tlsHttpBuf : Bytes := []
  tlsHttpOff : ℕ := 0
  tlsSeq : UInt32 := 0
  openaiRequest : Bool := false
  openaiReusable : Bool := false
  errorReason : Bytes := []
  deriving DecidableEq, Repr

/-- A redirect that was captured, and how many were followed. -/
structure Redirect where
  count : ℕ := 0
  pending : Bool := false
  target : RedirectTarget := ⟨[], [], false⟩
  suppressOk : Bool := false
  deriving DecidableEq, Repr

/-- Who gets the replies of a command, and which of them were sent. -/
structure Reply where
  ip : Ipv4 := noIp
  srcPort : ℕ := 0
  sent : Bool := false
  pending : Bool := false
  donePrinted : Bool := false
  deriving DecidableEq, Repr

/-- `AGENT_PHASE`. -/
inductive AgentPhase where
  | idle
  | fetchSource
  | callModel
  | postResult
  | interpretGoal
  | m4Model
  | m4FetchUrl
  | m4PostUrl
  | m4PostTweet
  | m4SearchRecent
  | m4GetUserPosts
  | m4SummaryModel
  | m5BridgeTool
  deriving DecidableEq, Repr

/-- `AGENT_RESPONSE_BODY` with its flag, and `AGENT_OUTPUT_TEXT`. -/
structure Capture where
  body : Bytes := []
  truncated : Bool := false
  outputText : Bytes := []
  deriving DecidableEq, Repr

/-- What the fetch engine reads and writes of the agent. -/
structure Agent where
  taskActive : Bool := false
  phase : AgentPhase := .idle
  capture : Capture := {}
  deriving DecidableEq, Repr

/-- Who started a fetch: the agent, or a command (a redirect is followed for the command). -/
inductive Owner where
  | agent
  | command
  deriving DecidableEq, Repr

/-- What the engine does, in the order in which it does it. A start shows the request, the name cache
and the time at which it was looked up; data for the peer shows its sequence number and whether
`send_tcp` queued it. -/
inductive Action where
  | start (owner : Owner) (request : Request) (cache : DnsCache) (now : ℕ)
  | restart
  | sendArp
  | sendDnsQuery (query : Bytes)
  | resolved (domain : Bytes) (ip : Ipv4) (reply : Bytes)
  | sendSyn (ip : Ipv4) (seq : UInt32) (direct : Bool)
  | established (seq ack : UInt32)
  | buildRequest (request : Request)
  | sendData (seq : UInt32) (data : Bytes) (queued : Bool)
  | feed (data : Bytes)
  | agentDone (ok : Bool)
  deriving DecidableEq, Repr

/-- The fetch engine. `trace` is no global: it lists what was done so far. -/
structure Kernel where
  request : Request := {}
  conn : Conn := {}
  http : HttpParser := httpReset
  redirect : Redirect := {}
  reply : Reply := {}
  agent : Agent := {}
  dnsCache : DnsCache := {}
  nextTcpPort : ℕ := 40000
  trace : List Action := []
  deriving DecidableEq, Repr

/-- A fetch is in flight. -/
def Kernel.busy (k : Kernel) : Bool := k.conn.state != .idle

/-- The connection goes to an address that belongs to the host itself. -/
def Conn.direct (c : Conn) : Bool := !c.proxy && !c.haveFixedIp

section BuildRequest

def decimal (n : ℕ) : Bytes := ascii (String.ofList (Nat.toDigits 10 n))

def crlf : Bytes := [cr, lf]

/-- `build_http_request` into a buffer with `room` bytes, empty when it fails. -/
def buildHttpRequest (room : ℕ) (request : Request) : Bytes :=
  let method := if request.methodPost then ascii "POST " else ascii "GET "
  let path := if request.path = [] then ascii "/" else request.path
  let host := method ++ path ++ ascii " HTTP/1.1" ++ crlf ++ ascii "Host: " ++ request.domain ++ crlf
  let extra := (request.extraHeader.map Credential.header).getD []
  let common := ascii "User-Agent: minios" ++ crlf ++ ascii "Accept: */*" ++ crlf ++
    ascii "Accept-Encoding: identity" ++ crlf
  let rest :=
    if request.methodPost then
      ascii "Content-Type: application/json" ++ crlf ++ ascii "Content-Length: " ++
        decimal request.body.length ++ crlf ++ crlf ++ request.body
    else ascii "Connection: close" ++ crlf ++ crlf
  let message := host ++ extra ++ common ++ rest
  if request.domain = [] ∨ room < message.length then [] else message

end BuildRequest

end MiniAgentOS.Fetch
