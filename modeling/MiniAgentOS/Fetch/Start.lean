import MiniAgentOS.Fetch.State
import MiniAgentOS.Net.AgentUrl

/-! Starting a fetch, and what a new round of a fetch does to its connection. -/
namespace MiniAgentOS.Fetch
open Net Http

def Kernel.emit (k : Kernel) (actions : List Action) : Kernel :=
  { k with trace := k.trace ++ actions }

/-- `set_fetch_error_reason` and `set_fetch_error_reason_if_empty`. -/
def Conn.fail (c : Conn) (reason : Bytes) : Conn := { c with errorReason := reason }

def Conn.failIfEmpty (c : Conn) (reason : Bytes) : Conn :=
  if c.errorReason = [] then c.fail reason else c

structure Target where
  domain : Bytes
  path : Bytes
  https : Bool
  port : ℕ
  fixedIp : Option Ipv4
  deriving DecidableEq, Repr

/-- What a start reads besides the globals: the clock, whether the gateway and the name server are in
the ARP cache, and the cool-down of the transport. -/
structure StartEnv where
  now : ℕ
  gatewayPeer : Bool
  dnsPeer : Bool
  cooldownUntil : ℕ
  deriving DecidableEq, Repr

/-- The address and port that the replies of a command go to; the port is 0 when there is none. -/
structure ReplyTo where
  ip : Ipv4
  srcPort : ℕ
  deriving DecidableEq, Repr

def noReply : ReplyTo := ⟨noIp, 0⟩

def openaiResponsesHost : Bytes := ascii "api.openai.com"

def openaiResponsesPath : Bytes := ascii "/v1/responses"

def isResponsesTarget (target : Target) : Bool :=
  target.https && target.port == 443 &&
    target.domain.map asciiLower == openaiResponsesHost.map asciiLower &&
    target.path == openaiResponsesPath

/-- `fetch_openai_reuse_candidate`: whether the connection to the model is still open. -/
def reuseCandidate (config : Config) (target : Target) (k : Kernel) : Bool :=
  config.nativeOpenaiReuse && isResponsesTarget target && k.conn.openaiReusable &&
    k.conn.established && k.request.https && k.conn.proxy && !k.conn.peerClosed &&
    k.conn.dstIp == hostIp && k.conn.dstPort == config.proxyPort && k.request.targetPort == 443

/-- `fetch_close_current_transport`. -/
def Conn.close (c : Conn) : Conn :=
  { c with
    openaiReusable := false
    openaiRequest := false
    established := false
    peerClosed := false }

def useProxy (config : Config) (target : Target) : Bool := config.proxySocks5 && target.https

/-- The connection of a fetch that goes on over the connection that is open. -/
def Conn.reuse (c : Conn) (config : Config) : Conn :=
  { c with
    state := .tlsHttp
    proxy := true
    dstPort := config.proxyPort
    haveFixedIp := false
    openaiRequest := true
    openaiReusable := false
    peerClosed := false
    retry := 0
    nextMs := 0
    gotResp := false
    txInflight := false
    httpSent := false
    httpRetry := 0
    httpSeq := 0
    httpBuf := []
    httpOff := 0
    ackSent := true
    deadlineMs := 0
    rounds := 0
    errorReason := []
    tlsHttpBuf := []
    tlsHttpOff := 0 }

/-- Where a new connection goes, and the state in which the fetch begins. With neither a proxy nor a
known address `FETCH_DST_IP` stays what it was. -/
def Conn.destination (c : Conn) (cached : Option Ipv4) : Ipv4 × FetchState :=
  if c.haveFixedIp ∧ ¬ c.proxy then (c.fixedIp, .syn)
  else
    match cached with
    | some ip => (ip, if c.haveGw then .syn else .arp)
    | none => if c.proxy then (hostIp, .syn) else (c.dstIp, if c.haveGw then .dns else .arp)

/-- The connection of a fetch that opens a new one. -/
def Conn.start (c : Conn) (config : Config) (env : StartEnv) (target : Target)
    (cached : Option Ipv4) (tcpPort : ℕ) : Conn :=
  let proxy := useProxy config target
  let fresh : Conn :=
    { proxy
      haveFixedIp := target.fixedIp.isSome
      fixedIp := target.fixedIp.getD noIp
      dstIp := c.dstIp
      dstPort := if proxy then config.proxyPort else target.port
      tcpSrcPort := tcpPort
      haveGw := env.gatewayPeer || (proxy && c.haveGw)
      haveDns := env.dnsPeer || env.gatewayPeer
      seq := 0x1000
      nextMs := if env.now < env.cooldownUntil then env.cooldownUntil else 0
      tlsSeq := c.tlsSeq
      openaiRequest := isResponsesTarget target }
  { fresh with
    dstIp := (fresh.destination cached).1
    state := (fresh.destination cached).2 }

def nextPort (port : ℕ) : ℕ := if (port + 1) % 65536 = 0 then 40000 else (port + 1) % 65536

def Redirect.start (r : Redirect) (redirectStart : Bool) : Redirect :=
  { r with
    count := if redirectStart then r.count else 0
    pending := false
    suppressOk := false }

def Request.aim (request : Request) (target : Target) : Request :=
  { request with
    domain := target.domain
    path := target.path
    https := target.https
    targetPort := target.port }

/-- The rest of `fetch_start_ex`, for a target that fits the buffers. -/
def Kernel.launch (k : Kernel) (config : Config) (owner : Owner) (env : StartEnv) (target : Target)
    (reply : ReplyTo) (redirectStart : Bool) : Kernel :=
  let reuse := useProxy config target && reuseCandidate config target k
  let conn := if !reuse && k.conn.openaiReusable then k.conn.close else k.conn
  let (cached, dnsCache) :=
    if !useProxy config target && target.fixedIp.isNone then
      dnsCacheLookup env.now target.domain k.dnsCache
    else (none, k.dnsCache)
  { k with
    request := k.request.aim target
    conn := if reuse then conn.reuse config else conn.start config env target cached k.nextTcpPort
    http := httpReset
    redirect := k.redirect.start redirectStart
    reply := { ip := reply.ip, srcPort := reply.srcPort }
    dnsCache
    nextTcpPort := if reuse then k.nextTcpPort else nextPort k.nextTcpPort
    trace := k.trace ++ [.start owner (k.request.aim target) k.dnsCache env.now] }

/-- Without OAuth there is no extra header. -/
def Request.dropHeader (request : Request) : Request :=
  if request.oauthActive then request else { request with extraHeader := none }

/-- `fetch_start_ex`: the globals afterwards, and whether the fetch was started. -/
def Kernel.fetchStartEx (k : Kernel) (config : Config) (owner : Owner) (env : StartEnv)
    (target : Target) (reply : ReplyTo) (redirectStart : Bool) : Kernel × Bool :=
  if target.domain = [] then ({ k with conn := k.conn.fail (ascii "url host missing") }, false)
  else
    let k := { k with request := k.request.dropHeader }
    if fetchDomainLen < target.domain.length then
      ({ k with conn := k.conn.fail (ascii "url host too long") }, false)
    else if fetchPathLen < target.path.length then
      ({ k with conn := k.conn.fail (ascii "url path too long") }, false)
    else (k.launch config owner env target reply redirectStart, true)

/-- The target of `fetch_start`. -/
def plainTarget (domain path : Bytes) (https : Bool) : Target :=
  ⟨domain, path, https, if https then 443 else 80, none⟩

section Rounds

/-- `fetch_restart_transport_state`. -/
def Conn.restartTransport (c : Conn) : Conn :=
  if c.proxy then { c with dstIp := hostIp, state := .syn }
  else if c.haveFixedIp then { c with dstIp := c.fixedIp, state := .syn }
  else { c with dstIp := noIp, state := if c.haveGw then .dns else .arp }

/-- A new round: the transport begins again, while the parser and what was captured stay. -/
def Conn.restartRound (c : Conn) : Conn :=
  Conn.restartTransport
    { c with
      rounds := c.rounds + 1
      retry := 0
      nextMs := 0
      httpSent := false
      httpRetry := 0
      httpOff := 0
      ackSent := false
      gotResp := false
      socksSent := false }

/-- `fetch_resume_after_gateway_ready`. -/
def Conn.resumeAfterGateway (c : Conn) : Conn :=
  { c with state := if c.proxy ∨ c.haveFixedIp ∨ c.dstIp ≠ noIp then .syn else .dns }

end Rounds

end MiniAgentOS.Fetch
