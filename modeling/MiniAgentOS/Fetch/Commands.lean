import MiniAgentOS.Fetch.Receive

/-! The commands of the two input channels, and the fetches that commands and the agent start. -/
namespace MiniAgentOS.Fetch
open Checked Net Http

structure CommandUrl where
  domain : Bytes
  path : Bytes
  https : Bool
  deriving DecidableEq, Repr

/-- A line or a datagram, as far as its dispatch goes. The agent takes tasks and goals; `bridge` are
the commands for the host bridge; `other` are those that have nothing to do with fetches. -/
inductive Command where
  | agentTask
  | sync
  | tlsLocal
  | bridge
  | tweet (text : Bytes)
  | post (url : CommandUrl) (body : Bytes)
  | url (url : CommandUrl)
  | goal
  | other
  deriving DecidableEq, Repr

section Dispatch

def commandUrl (text : Bytes) : Checked (Option CommandUrl) := do
  match ← parseUrl text text.length with
  | none => pure none
  | some parts =>
    let domain ← slice text parts.domainStart (parts.domainStart + parts.domainLen)
    let path ← slice text parts.pathStart (parts.pathStart + parts.pathLen)
    pure (some ⟨domain, path, parts.https⟩)

/-- The command word with a blank, followed by something. -/
def takesArgument (word line : Bytes) : Bool := word.isPrefixOf line && word.length < line.length

def argument (word line : Bytes) : Bytes := (line.drop word.length).dropWhile isSpace

def statusLines : List Bytes :=
  [ascii "trace on", ascii "trace off", ascii "trace status", ascii "debug on", ascii "debug off",
    ascii "debug status", ascii "status inline", ascii "status plain", ascii "status status",
    ascii "openai-clear", ascii "openai-status", ascii "tls-status", ascii "fetch-status"]

def sessionWords : List Bytes :=
  [ascii "session new", ascii "session reset", ascii "session clear", ascii "session status",
    ascii "memory-status", ascii "memory status", ascii "memory-list", ascii "memory list",
    ascii "memory-read", ascii "memory read"]

/-- `handle_session_command` takes the line. -/
def isSessionLine (line : Bytes) : Bool :=
  sessionWords.any fun word => word.isPrefixOf (line.dropWhile isSpace)

def bridgeWords : List Bytes :=
  [ascii "m6-search ", ascii "m5-read ", ascii "m5-write ", ascii "m5-apply-patch ", ascii "m5-run ",
    ascii "m5-output "]

def isBridgeLine (line : Bytes) : Bool :=
  line == ascii "m5-status" || line == ascii "m5-list" || (ascii "m5-list ").isPrefixOf line ||
    bridgeWords.any fun word => takesArgument word line

/-- The text of a tweet command. -/
def tweetText (line : Bytes) : Option Bytes :=
  if takesArgument (ascii "post_tweet ") line then some (argument (ascii "post_tweet ") line)
  else if takesArgument (ascii "tweet ") line then some (argument (ascii "tweet ") line)
  else none

/-- The URL and the body of a post command, if the URL is accepted. -/
def postCommand (line : Bytes) : Checked (Option Command) := do
  let rest := argument (ascii "post ") line
  let word := rest.takeWhile fun b => !isSpace b
  let body := (rest.drop word.length).dropWhile isSpace
  match ← commandUrl word with
  | some url => pure (some (.post url (body.take fetchBodyLen)))
  | none => pure none

/-- The end of the dispatch of `handle_uart_line`: a URL, or a goal for the agent. -/
def urlOrGoal (line : Bytes) : Checked Command := do
  match ← commandUrl line with
  | some url => pure (.url url)
  | none => pure (if line = [] then .other else .goal)

def isTimeLine (line : Bytes) : Checked Bool :=
  if takesArgument (ascii "time ") line then do
    let time ← parseU64 (line.drop 5) (line.length - 5)
    pure time.isSome
  else pure false

/-- The dispatch of `handle_uart_line` on the line that `sanitize_uart_line` left. -/
def uartCommand (line : Bytes) : Checked Command := do
  if line.head? = some 123 then pure .agentTask
  else if line = ascii "sync" then pure .sync
  else if ← isTimeLine line then pure .other
  else if line ∈ statusLines then pure .other
  else if line = ascii "tls-local" then pure .tlsLocal
  else if takesArgument (ascii "openai-key ") line then pure .other
  else if isSessionLine line then pure .other
  else if isBridgeLine line then pure .bridge
  else
    match tweetText line with
    | some text => pure (.tweet text)
    | none =>
      if takesArgument (ascii "post ") line then
        match ← postCommand line with
        | some command => pure command
        | none => urlOrGoal line
      else urlOrGoal line

/-- The dispatch of `kmain` on a datagram for port 5555. -/
def udpCommand (payload : Bytes) : Checked Command := do
  if (ascii "ping").isPrefixOf payload then pure .other
  else if (ascii "mac").isPrefixOf payload then pure .other
  else if (ascii "echo ").isPrefixOf payload then pure .other
  else if payload = ascii "sync" then pure .sync
  else if takesArgument (ascii "time ") payload then pure .other
  else
    match tweetText payload with
    | some text => pure (.tweet text)
    | none =>
      if takesArgument (ascii "post ") payload then
        return (← postCommand payload).getD .other
      else
        match ← commandUrl payload with
        | some url => pure (.url url)
        | none => pure .other

end Dispatch

section Prepare

def Request.get (request : Request) : Request :=
  { request with methodPost := false, body := [], extraHeader := none, oauthActive := false }

def Request.post (request : Request) (body : Bytes) : Request :=
  { request with methodPost := true, body, extraHeader := none, oauthActive := false }

/-- A GET without a body, a POST with one. -/
def Request.send (request : Request) : Option Bytes → Request
  | none => request.get
  | some body => request.post body

def Request.authorize (request : Request) (body : Option Bytes) (credential : Credential) : Request :=
  { request with
    methodPost := body.isSome
    body := body.getD []
    extraHeader := some credential
    oauthActive := true }

def xapiDomain : Bytes := ascii "api.twitter.com"

def xapiPath : Bytes := ascii "/2/tweets"

def syncTarget : Target := plainTarget (ascii "httpbin.org") (ascii "/get") true

def xapiTarget (path : Bytes) : Target := plainTarget xapiDomain path true

def tlsLocalTarget : Target := ⟨ascii "localhost", ascii "/", true, 8443, some hostIp⟩

def bridgeTarget (config : Config) (path : Bytes) : Target :=
  ⟨ascii "10.0.2.2", path, false, config.m5BridgePort, some hostIp⟩

def openaiResponsesUrl : Bytes := ascii "https://api.openai.com/v1/responses"

/-- The target of `fetch_start_agent_url`. -/
def agentTarget (url : Bytes) : Option Target :=
  (parseAgentUrl url).map fun parts =>
    ⟨parts.host, parts.path, parts.https, parts.port, parts.fixedIp⟩

end Prepare

section AgentStarts

/-- A request of the agent: to the model with the key, to the X interface with a signature or token,
to the bridge, or to a URL without a credential. Bodies and headers are what the agent built. -/
inductive AgentRequest where
  | openai (body header : Bytes)
  | xapi (path : Bytes) (body : Option Bytes) (header : Bytes)
  | bridge (path : Bytes) (body : Option Bytes)
  | url (url : Bytes) (body : Option Bytes)
  deriving DecidableEq, Repr

structure AgentStart where
  env : StartEnv
  phase : AgentPhase
  request : AgentRequest
  deriving DecidableEq, Repr

def AgentRequest.prepare (request : Request) : AgentRequest → Request
  | .openai body header => request.authorize (some body) ⟨.openai, header⟩
  | .xapi _ body header => request.authorize body ⟨.x, header⟩
  | .bridge _ body => request.send body
  | .url _ body => request.send body

def AgentRequest.target (config : Config) : AgentRequest → Option Target
  | .openai _ _ => agentTarget openaiResponsesUrl
  | .xapi path _ _ => some (xapiTarget path)
  | .bridge path _ => some (bridgeTarget config path)
  | .url text _ => agentTarget text

/-- The agent enters a phase; only the last one keeps what was captured. -/
def Agent.enter (agent : Agent) (phase : AgentPhase) : Agent :=
  { agent with
    phase
    capture :=
      if phase = .postResult then agent.capture
      else { agent.capture with body := [], outputText := [] } }

/-- Start a request of the agent. -/
def Kernel.agentStart (k : Kernel) (config : Config) (start : AgentStart) : Kernel × Bool :=
  let k :=
    { k with
      request := start.request.prepare k.request
      agent := k.agent.enter start.phase }
  match start.request.target config with
  | none => ({ k with conn := k.conn.fail (ascii "invalid url") }, false)
  | some target => k.fetchStartEx config .agent start.env target noReply false

/-- `fetch_finish_agent_idle` and `agent_reset`. -/
def Kernel.agentFinish (k : Kernel) : Kernel :=
  { k with
    request := { k.request with extraHeader := none, oauthActive := false }
    conn := { k.conn with state := .idle }
    agent := { capture := { truncated := k.agent.capture.truncated } } }

/-- The agent starts the first request of a list that can be started; if there is none, its task
ends. -/
def Kernel.agentProceed (k : Kernel) (config : Config) : List AgentStart → Kernel × Bool
  | [] => (k.agentFinish, false)
  | start :: starts =>
    let (k, started) := k.agentStart config start
    if started then (k, true) else k.agentProceed config starts

end AgentStarts

/-- What a command meets: what a start reads, what its builders made of it, and what the agent does
with a task or goal, if it accepts it. -/
structure CommandEnv where
  start : StartEnv
  bridge : Option (Bytes × Option Bytes)
  tweet : Option (Bytes × Bytes)
  agent : Option (List AgentStart)
  deriving DecidableEq, Repr

def Kernel.startCommand (k : Kernel) (config : Config) (env : CommandEnv) (reply : ReplyTo)
    (request : Request) (target : Target) : Kernel :=
  (Kernel.fetchStartEx { k with request } config .command env.start target reply false).1

/-- A task or goal for the agent. -/
def Kernel.agentCommand (k : Kernel) (config : Config) (env : CommandEnv) : Kernel :=
  if k.agent.taskActive ∨ k.busy then k
  else
    match env.agent with
    | none => k
    | some starts =>
      (Kernel.agentProceed { k with agent := { k.agent with taskActive := true } } config starts).1

/-- The handlers of the commands. Those of `post` and of a URL write the request first. -/
def Kernel.command (k : Kernel) (config : Config) (reply : ReplyTo) (env : CommandEnv) :
    Command → Kernel
  | .agentTask | .goal => k.agentCommand config env
  | .sync => if k.busy then k else k.startCommand config env reply k.request.get syncTarget
  | .tlsLocal => if k.busy then k else k.startCommand config env reply k.request.get tlsLocalTarget
  | .bridge =>
    if k.busy then k
    else
      match env.bridge with
      | none => k
      | some (path, body) =>
        k.startCommand config env reply (k.request.send body) (bridgeTarget config path)
  | .tweet _ =>
    if k.busy then k
    else
      match env.tweet with
      | none => k
      | some (body, header) =>
        k.startCommand config env reply (k.request.authorize (some body) ⟨.x, header⟩)
          (xapiTarget xapiPath)
  | .post url body =>
    k.startCommand config env reply (k.request.post body) (plainTarget url.domain url.path url.https)
  | .url url =>
    if k.busy then { k with request := k.request.get }
    else
      k.startCommand config env reply k.request.get (plainTarget url.domain url.path url.https)
  | .other => k

end MiniAgentOS.Fetch
