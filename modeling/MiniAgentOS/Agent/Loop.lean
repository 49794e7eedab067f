import MiniAgentOS.Agent.Execution
import MiniAgentOS.Agent.Preview
import MiniAgentOS.Agent.Requests
import MiniAgentOS.Agent.Tools
import MiniAgentOS.Fetch.Receive

/-! The loop of the session agent: requests to the model, calls of the tools that it names, and the end of the turn. -/
namespace MiniAgentOS.Agent
open Checked Fetch Net Session

section State

/-- `AGENT_TERMINAL_KIND`. -/
inductive Terminal where
  | completed
  | refused
  | failed
  deriving DecidableEq, Repr

/-- A request that the loop hands to the fetch engine. -/
inductive LoopRequest where
  | model (body : Bytes)
  | summary
  | fetch (url : Bytes)
  | post (url body : Bytes)
  | tweet (text : Bytes)
  | search (path : Bytes)
  | bridgeGet (path : Bytes)
  | bridgePost (path body : Bytes)
  deriving DecidableEq, Repr

/-- What the loop does in a turn: a tool is called, a request is started, the status and the result of a tool are
recorded, an assistant turn is appended, and the turn is finished. -/
inductive Deed where
  | called (tool : Tool)
  | requested (request : LoopRequest)
  | completed (ok : Bool)
  | recorded (tool result : Bytes)
  | answered (text : Bytes)
  | finished (terminal : Terminal)
  deriving DecidableEq, Repr

/-- The globals of the loop and of the session. `turn` is no global: it lists what was done since the last line of the
user. -/
structure Loop where
  active : Bool := false
  phase : AgentPhase := .idle
  inFlight : Bool := false
  goal : Bytes := []
  call : ToolCall := {}
  toolResult : Bytes := []
  lastFetchUrl : Bytes := []
  lastFetchBody : Bytes := []
  step : ℕ := 0
  retries : ℕ := 0
  hostBridge : Bool := false
  started : Bool := false
  memory : Memory := {}
  state : SessionState := noKeys
  history : Bytes := []
  turn : List Deed := []

/-- What the loop reads of the rest of the machine: the keys, the recorded sizes of the prompt, and whether the fetch
engine takes a request, with the reason that it leaves otherwise. -/
structure LoopEnv where
  hostBridge : Bool := false
  apiKey : Bool := true
  apiHeader : Bool := true
  xSecrets : Bool := true
  xBearer : Bool := true
  xHeader : Bool := true
  busy : Bool := false
  budget : List ℕ := []
  starts : Bool := true
  reason : Bytes := []
  deriving DecidableEq, Repr

/-- The end of a fetch, as the loop sees it: `FETCH_GOT_RESP`, `HTTP_STATUS`, what was captured and the reason of a
failure. -/
structure FetchOutcome where
  ok : Bool
  status : ℕ
  capture : Capture
  reason : Bytes
  bounded : capture.body.length ≤ agentResponseBodyLen

def m4LoopMaxSteps : ℕ := 12

def m4OpenaiMaxRetries : ℕ := 4

def m4PathBufLen : ℕ := 512

def m4BridgeBodyBufLen : ℕ := 10240

def Loop.act (deed : Deed) (s : Loop) : Loop := { s with turn := s.turn ++ [deed] }

def Loop.context (s : Loop) : PromptContext := ⟨s.goal, s.call.name, s.toolResult, s.memory, s.state, s.history⟩

def Loop.nextStep (s : Loop) : Loop := { s with step := (s.step + 1) % 256 }

def sessionReset (s : Loop) : Loop := { s with started := true, memory := memoryReset, state := noKeys, history := [] }

def ensureSessionStarted (s : Loop) : Loop := if s.started then s else sessionReset s

def appendUserTurn (text : Bytes) (s : Loop) : Loop :=
  let s := ensureSessionStarted s
  { s with memory := noteUserRequest text s.memory, history := appendTurn s.history (.user text) }

def appendToolResult (tool result : Bytes) (s : Loop) : Checked Loop := do
  let s := ensureSessionStarted s
  let memory ← noteToolResult tool result s.memory
  pure ({ s with memory, history := appendTurn s.history (.tool tool result) }.act (.recorded tool result))

def appendAssistantTurn (text : Bytes) (s : Loop) : Loop :=
  let s := ensureSessionStarted s
  { s with memory := noteAssistantResponse text s.memory, history := appendTurn s.history (.assistant text) }.act
    (.answered text)

end State

section Finish

/-- `agent_finish_local`, with `agent_reset`. -/
def agentFinishLocal (terminal : Terminal) (s : Loop) : Loop :=
  { s with
    active := false
    phase := .idle
    inFlight := false
    goal := []
    call := {}
    toolResult := []
    lastFetchUrl := []
    lastFetchBody := []
    step := 0
    retries := 0
    hostBridge := false }.act (.finished terminal)

def finalizeM4Response (response : Bytes) (refused : Bool) (s : Loop) : Loop :=
  agentFinishLocal (if refused then .refused else .completed) (appendAssistantTurn response s)

def finalizeM4Reason (reason : Bytes) (s : Loop) : Loop := agentFinishLocal .failed (appendAssistantTurn reason s)

/-- `fetch_failure_reason_or`. -/
def failureReasonOr (reason : Bytes) (default : String) : Bytes := if reason = [] then ascii default else reason

/-- A request in a phase, or the end of the turn where the fetch engine does not take it. -/
def startRequest (env : LoopEnv) (request : LoopRequest) (phase : AgentPhase) (default : String) (s : Loop) :
    Loop × Bool :=
  let s := { s with phase }
  if env.starts then ({ s with inFlight := true }.act (.requested request), true)
  else (finalizeM4Reason (failureReasonOr env.reason default) s, false)

end Finish

section ModelTurns

def useHostOpenaiBridge (env : LoopEnv) (s : Loop) : Bool := env.hostBridge || s.hostBridge

def startM4ModelTurn (env : LoopEnv) (s : Loop) : Checked (Loop × Bool) := do
  if ! useHostOpenaiBridge env s && ! env.apiKey then pure (agentFinishLocal .failed s, false)
  else
    let body ← buildM4OpenaiRequestBody fetchBodyMax s.context
    if body = [] ∨ (! useHostOpenaiBridge env s && ! env.apiHeader) then pure (agentFinishLocal .failed s, false)
    else pure (startRequest env (.model body) .m4Model "openai loop request failed" s)

def startM4SummaryModelTurn (env : LoopEnv) (s : Loop) : Loop × Bool :=
  if ! useHostOpenaiBridge env s && ! env.apiHeader then
    (finalizeM4Reason (ascii "openai summary request build failed") s, false)
  else startRequest env .summary .m4SummaryModel "openai summary request failed" s

/-- The result of a tool is recorded, and the model is asked for the next step. -/
def recordAndContinue (env : LoopEnv) (tool result : Bytes) (s : Loop) : Checked (Loop × Bool) := do
  let s ← appendToolResult tool result { s with toolResult := result }
  startM4ModelTurn env (s.act (.completed true)).nextStep

end ModelTurns

section SyncTools

def statusCounters : List String :=
  ["\"instructions_chars\":", ",\"current_request_chars\":", ",\"latest_tool_result_chars\":",
    ",\"working_memory_chars\":", ",\"known_sources_chars\":", ",\"workspace_memory_chars\":",
    ",\"session_state_chars\":", ",\"recent_conversation_chars\":", ",\"estimated_total_tokens\":"]

def statusKinds : List (String × MemoryKind) :=
  [("\"task\":", .task), (",\"source\":", .source), (",\"workspace\":", .workspace), (",\"execution\":", .execution),
    (",\"conversation\":", .conversation)]

/-- `build_memory_status_json`, with the counters of `record_context_budget`. -/
def buildMemoryStatusJson (capacity : ℕ) (budget : List ℕ) (m : Memory) : Bytes :=
  let m := ensureStarted m
  let count (kind : MemoryKind) : ℕ :=
    (SlotId.all.filter fun name => (m.slot name).kind = kind ∧ (m.slot name).summary ≠ []).length
  let out := appendBytes capacity [] (ascii "\x7b\"ok\":true,\"counts\":\x7b")
  let out := statusKinds.foldl (fun out kind =>
    appendBytes capacity (appendBytes capacity out (ascii kind.1)) (u64ToDec (count kind.2))) out
  let out := appendBytes capacity out (ascii "\x7d,\"budget\":\x7b")
  let out := (statusCounters.zipIdx).foldl (fun out counter =>
    appendBytes capacity (appendBytes capacity out (ascii counter.1)) (u64ToDec (budget[counter.2]?.getD 0))) out
  appendBytes capacity out (ascii "\x7d,\"checkpoint_available\":false\x7d")

/-- `execute_sync_tool`. -/
def executeSyncTool (env : LoopEnv) (tool : Bytes) (s : Loop) : Checked (Loop × Bool) :=
  match firstNamed syncTools tool with
  | none => pure (s, false)
  | some named =>
    let s := s.act (.called named)
    match named with
    | .memoryStatus => recordAndContinue env tool (buildMemoryStatusJson toolResultLimit env.budget s.memory) s
    | .listMemory => recordAndContinue env tool (buildListMemoryJson toolResultLimit s.call.arg1 s.memory) s
    | .readMemory => recordAndContinue env tool (buildReadMemoryJson toolResultLimit s.call.arg1 s.memory) s
    | .readSessionState =>
      let value := readSessionState toolResultLimit s.call.arg1 s.state
      recordAndContinue env tool (if value = [] then ascii "(empty)" else value) s
    | .writeSessionState =>
      let (state, stored) := writeSessionState s.call.arg1 s.call.arg2 s.state
      if stored then recordAndContinue env tool (ascii "\x7b\"stored\":true\x7d") { s with state }
      else pure (finalizeM4Reason (ascii "session state write failed") (s.act (.completed false)), false)
    | _ => pure (s, false)

end SyncTools

section AsyncTools

def m5BridgeWritePath : Bytes := ascii "/workspace/write"
def m5BridgeApplyPatchPath : Bytes := ascii "/workspace/apply-patch"
def m5BridgeRunPythonPath : Bytes := ascii "/process/run-python"
def m5PythonRunTimeoutSec : ℕ := 5

/-- A tool that reads from the bridge. -/
def bridgeRead (env : LoopEnv) (path : Bytes) (default : String) (s : Loop) : Loop × Bool :=
  startRequest env (.bridgeGet path) .m5BridgeTool default s

/-- A tool that posts to the bridge, where its body could be built. -/
def bridgeWrite (env : LoopEnv) (path body : Bytes) (unbuilt default : String) (s : Loop) : Loop × Bool :=
  if body = [] then (finalizeM4Reason (ascii unbuilt) s, false)
  else startRequest env (.bridgePost path body) .m5BridgeTool default s

def buildUserPostsQuery (username : Bytes) : Bytes :=
  appendBytes 128 (appendBytes 128 (appendBytes 128 [] (ascii "from:")) username) (ascii " -is:retweet")

/-- `fetch_url` of the page that was fetched last is answered from what was kept of it. -/
def cachedFetch (url : Bytes) (s : Loop) : Bool := s.lastFetchUrl ≠ [] ∧ s.lastFetchBody ≠ [] ∧ s.lastFetchUrl = url

/-- `execute_async_tool`. -/
def executeAsyncTool (env : LoopEnv) (tool : Bytes) (s : Loop) : Checked (Loop × Bool) :=
  let arg1 := s.call.arg1
  let arg2 := s.call.arg2
  match firstNamed asyncTools tool with
  | none => pure (s, false)
  | some named =>
    let called := s.act (.called named)
    match named with
    | .fetchUrl =>
      if cachedFetch arg1 s then recordAndContinue env tool (s.lastFetchBody.take toolResultLimit) called
      else pure (startRequest env (.fetch arg1) .m4FetchUrl "fetch_url start failed" called)
    | .postUrl =>
      if arg2 = [] then pure (finalizeM4Reason (ascii "post_url body missing") called, false)
      else pure (startRequest env (.post arg1 arg2) .m4PostUrl "post_url start failed" called)
    | .postTweet =>
      if ! env.xSecrets then pure (finalizeM4Reason (ascii "x oauth secrets missing") s, false)
      else pure (startRequest env (.tweet arg1) .m4PostTweet "post_tweet start failed" called)
    | .searchWeb => pure (bridgeRead env (buildM6SearchPath m4PathBufLen arg1) "search_web start failed" called)
    | .searchRecentPosts =>
      let path := buildSearchPath m4PathBufLen arg1
      if ! env.xBearer then pure (finalizeM4Reason (ascii "x bearer token missing") s, false)
      else if path = [] ∨ ! env.xHeader then
        pure (finalizeM4Reason (ascii "x search request build failed") called, false)
      else pure (startRequest env (.search path) .m4SearchRecent "search_recent_posts start failed" called)
    | .getUserPosts =>
      let path := buildSearchPath m4PathBufLen (buildUserPostsQuery arg1)
      if ! env.xBearer then pure (finalizeM4Reason (ascii "x bearer token missing") s, false)
      else if path = [] ∨ ! env.xHeader then
        pure (finalizeM4Reason (failureReasonOr env.reason "get_user_posts start failed") called, false)
      else pure (startRequest env (.search path) .m4GetUserPosts "get_user_posts start failed" called)
    | .listWorkspace => pure (bridgeRead env (buildM5ListPath m4PathBufLen arg1) "list_workspace start failed" called)
    | .readFile => pure (bridgeRead env (buildM5ReadPath m4PathBufLen arg1) "read_file start failed" called)
    | .writeFile =>
      pure (bridgeWrite env m5BridgeWritePath (buildM5WriteBody m4BridgeBodyBufLen arg1 arg2)
        "write_file request build failed" "write_file start failed" called)
    | .applyPatch =>
      pure (bridgeWrite env m5BridgeApplyPatchPath (buildM5PatchBody m4BridgeBodyBufLen arg2)
        "apply_patch request build failed" "apply_patch start failed" called)
    | .runProcess =>
      pure (bridgeWrite env m5BridgeRunPythonPath (buildM5RunPythonBody m4BridgeBodyBufLen arg1 m5PythonRunTimeoutSec)
        "run_process request build failed" "run_process start failed" called)
    | .readProcessOutput =>
      pure (bridgeRead env (buildM5OutputPath m4PathBufLen arg1) "read_process_output start failed" called)
    | _ => pure (s, false)

end AsyncTools

section Completion

def requestPrefersDirectProcessOutput (buf : Bytes) : Bool :=
  mentions buf
    ["stdout", "what it prints", "what it printed", "exactly what stdout says", "return the output",
     "show me the output", "send me the output", "send me the result"]
    ["发给我", "输出给我", "运行结果发给我", "输出结果发给我", "把结果发给我", "把运行结果", "它输出什么"]

def containsNonAscii (buf : Bytes) : Bool := buf.any fun b => 0x80 ≤ b

/-- `try_finalize_direct_process_output`: the text that answers for the output of a process. -/
def directProcessOutput (goal result : Bytes) : Checked (Option Bytes) := do
  if ! requestPrefersDirectProcessOutput goal then pure none
  else
    let exitCode ← jsonExtractU64 result result.length (ascii "exit_code")
    if exitCode.getD 1 ≠ 0 then pure none
    else
      let stdout ← jsonExtractStringLocal result (ascii "stdout") 1024
      let stderr ← jsonExtractStringLocal result (ascii "stderr") 512
      if stdout = [] ∧ stderr = [] then pure none
      else if stderr = [] then pure (some stdout)
      else
        let out := appendBytes 1400 [] (if containsNonAscii goal then utf8Text "程序输出：\n"
          else ascii "Observed process output:\n")
        let out := appendBytes 1400 out stdout
        let out := if out ≠ [] ∧ out.getLast? ≠ some lf then appendBytes 1400 out [lf] else out
        pure (some (appendBytes 1400 (appendBytes 1400 out (ascii "stderr:\n")) stderr))

/-- The state after a result that is kept under a key, whether or not the write of it succeeds. -/
def autoStore (key : Option Bytes) (result : Bytes) (state : SessionState) : SessionState :=
  match key with
  | some key => (writeSessionState key result state).1
  | none => state

/-- What follows once a result is recorded. -/
def continueLoop (env : LoopEnv) (s : Loop) : Checked (Loop × Bool) := do
  if m4LoopMaxSteps < s.step then pure (finalizeM4Reason (ascii "m4 loop budget exceeded") s, true)
  else
    let output ← if startsWithTool s.call.name (ascii "read_process_output") then
        directProcessOutput s.goal s.toolResult
      else pure none
    match output with
    | some text => pure (finalizeM4Response text false s, true)
    | none => startM4ModelTurn env s

/-- `complete_tool_and_continue` of the tool that was called. -/
def completeToolAndContinue (env : LoopEnv) (ok : Bool) (autoStoreKey : Option Bytes) (s : Loop) :
    Checked (Loop × Bool) := do
  let s := s.act (.completed ok)
  if ! ok then pure (finalizeM4Reason s.toolResult s, true)
  else
    let s ← appendToolResult s.call.name s.toolResult { s with state := autoStore autoStoreKey s.toolResult s.state }
    continueLoop env s.nextStep

end Completion

section Outcomes

/-- `agent_http_success`. -/
def FetchOutcome.success (o : FetchOutcome) : Bool := o.ok && (200 ≤ o.status && o.status < 300)

def statusName (status : ℕ) : String :=
  if status = 400 then "bad request"
  else if status = 401 then "unauthorized"
  else if status = 403 then "forbidden"
  else if status = 404 then "not found"
  else if status = 408 then "request timeout"
  else if status = 409 then "conflict"
  else if status = 422 then "unprocessable request"
  else if status = 429 then "rate limited"
  else if 500 ≤ status ∧ status ≤ 599 then "server error"
  else "http error"

/-- How much of a message is shown: 72 bytes, or up to the last blank or comma among them behind the first 31. -/
def shownMessage (message : Bytes) : Bytes :=
  if message.length ≤ 72 then message
  else
    let shown := (message.take 72).rdropWhile fun b => b ≠ space ∧ b ≠ comma
    if shown.length < 32 then message.take 72 else shown

/-- `build_openai_failure_reason` into a buffer of 160 bytes. -/
def buildOpenaiFailureReason (phase : String) (o : FetchOutcome) : Checked Bytes := do
  let add := appendBytes 160
  let head := add (add [] (ascii phase)) (ascii ": ")
  if o.status = 0 then pure (add head (if o.reason = [] then ascii "request failed" else o.reason))
  else if 200 ≤ o.status ∧ o.status < 300 then
    pure (add head (ascii (if o.capture.truncated then "response body truncated" else "invalid response format")))
  else if o.reason ≠ [] ∧ 300 ≤ o.status ∧ o.status < 400 then pure (add head o.reason)
  else
    let body := o.capture.body
    let message ← trimText (((← jsonExtractString body body.length (ascii "message") 112)).getD [])
    let code ← trimText (((← jsonExtractString body body.length (ascii "code") 40)).getD [])
    let terse := o.status ∈ [401, 403, 429] ∨ (500 ≤ o.status ∧ o.status ≤ 599)
    let out := add head (ascii (statusName o.status))
    let out := add (add (add out (ascii " (")) (u64ToDec o.status)) (ascii ")")
    let out := if code = [] then out else add (add out (ascii " ")) code
    if message = [] ∨ terse then pure out
    else
      let shown := shownMessage message
      let out := add (add out (ascii ": ")) shown
      pure (if shown.length < message.length then add out (ascii "...") else out)

/-- `openai_failure_retryable`. -/
def openaiFailureRetryable (o : FetchOutcome) : Bool :=
  if o.status = 429 ∨ (500 ≤ o.status ∧ o.status ≤ 599) then true
  else if o.status ≠ 0 then false
  else ["network request timed out", "gateway arp timed out", "dns lookup timed out", "tcp connect timed out",
    "proxy handshake timed out", "proxy connect timed out", "http response timed out", "tls handshake failed",
    "tls write failed", "tls read failed"].any fun reason => startsWithTool o.reason (ascii reason)

/-- `parse_m4_model_response`. -/
def parseM4ModelResponse (o : FetchOutcome) (c : PromptContext) : Checked (Except Bytes Reply) := do
  match ← extractOpenaiOutputText o.capture.body o.capture.outputText 16384 with
  | some text => if text = [] then pure (.error (ascii "empty model response")) else parseM4Reply c text
  | none => pure (.error (ascii "empty model response"))

def goalLooksLikeSummaryRequest (goal : Bytes) : Bool :=
  mentions goal ["summarize", "summary", "bullet", "takeaway", "key point"] []

end Outcomes

section FetchDone

/-- The call of a tool that a reply names. -/
def executeTool (env : LoopEnv) (call : ToolCall) (s : Loop) : Checked Loop := do
  let (s, done) ← executeSyncTool env call.name { s with call }
  if done then pure s
  else
    let (s, _) ← executeAsyncTool env call.name s
    pure s

/-- The end of a request to the model. -/
def modelDone (env : LoopEnv) (o : FetchOutcome) (s : Loop) : Checked (Loop × Bool) := do
  if ! o.success then
    if openaiFailureRetryable o && s.retries < m4OpenaiMaxRetries then
      startM4ModelTurn env { s with retries := s.retries + 1 }
    else
      let reason ← buildOpenaiFailureReason "openai loop" o
      pure (finalizeM4Reason reason s, true)
  else
    match ← parseM4ModelResponse o s.context with
    | .ok (.final text refused) => pure (finalizeM4Response text refused { s with toolResult := text }, true)
    | .ok (.tool call) =>
      let s ← executeTool env call s
      pure (s, true)
    | .error _ =>
      -- `m4_retry_model_parse_error` as the guard of an arm: where the retry does not start, the next arm finishes too
      if s.retries < m4OpenaiMaxRetries then
        let (s, started) ← startM4ModelTurn env { s with retries := s.retries + 1 }
        if started then pure (s, true) else pure (finalizeM4Reason (ascii "invalid model response") s, true)
      else pure (finalizeM4Reason (ascii "invalid model response") s, true)

/-- The end of a request for a summary. -/
def summaryDone (env : LoopEnv) (o : FetchOutcome) (s : Loop) : Checked (Loop × Bool) := do
  if o.success && o.capture.truncated && o.capture.outputText = [] then
    pure (finalizeM4Reason (ascii "openai summary: response body truncated") s, true)
  else if ! o.success then
    if openaiFailureRetryable o && s.retries < m4OpenaiMaxRetries then
      pure (startM4SummaryModelTurn env { s with retries := s.retries + 1 })
    else
      let reason ← buildOpenaiFailureReason "openai summary" o
      pure (finalizeM4Reason reason s, true)
  else
    let summary := (← extractOpenaiOutputText o.capture.body o.capture.outputText 4096).getD []
    if summary = [] then pure (finalizeM4Reason (ascii "invalid summary response") s, true)
    else pure (finalizeM4Response summary false s, true)

/-- `m4_bridge_tool_prefers_host_openai`. -/
def bridgeToolPrefersHostOpenai (tool : Bytes) : Bool := ! startsWithTool tool (ascii "search_web")

/-- The result of a tool of the bridge: what was captured, or else why there is nothing. -/
def bridgeResult (o : FetchOutcome) : Checked Bytes := do
  let captured ← captureRawResponseBody o.capture.body
  pure (if captured = [] then (failureReasonOr o.reason "m5 bridge response missing").take toolResultLimit else captured)

/-- The end of a request to the bridge. -/
def bridgeDone (env : LoopEnv) (o : FetchOutcome) (s : Loop) : Checked (Loop × Bool) := do
  if o.capture.truncated then
    completeToolAndContinue env false none { s with toolResult := ascii "m5 bridge response body truncated" }
  else
    let result ← bridgeResult o
    let s := { s with toolResult := result }
    let s := if result = [] then s else { s with hostBridge := bridgeToolPrefersHostOpenai s.call.name }
    completeToolAndContinue env (result ≠ []) none s

/-- The name of a tool in a reason. -/
def phaseName (tool : Bytes) : String :=
  if startsWithTool tool (ascii "post_url") then "post_url"
  else if startsWithTool tool (ascii "post_tweet") then "post_tweet"
  else if startsWithTool tool (ascii "search_recent_posts") then "search_recent_posts"
  else if startsWithTool tool (ascii "get_user_posts") then "get_user_posts"
  else "fetch_url"

/-- The status and the result of a tool that fetches. -/
def fetchedResult (o : FetchOutcome) (s : Loop) : Checked (Bool × Bytes) := do
  let partialOk := s.phase = .m4FetchUrl ∧ o.success ∧ o.capture.body ≠ []
  let okStatus : Bool := o.success && (! o.capture.truncated || partialOk)
  let result ← if okStatus then captureRawResponseBody o.capture.body
    else if o.success && o.capture.truncated then
      pure (appendBytes 160 (appendBytes 160 [] (ascii (phaseName s.call.name))) (ascii ": response body truncated"))
    else buildOpenaiFailureReason (phaseName s.call.name) o
  pure (okStatus, if s.phase = .m4PostUrl ∧ okStatus ∧ result = [] then ascii "\x7b\"ok\":true\x7d" else result)

/-- The request was one of the two searches for posts. -/
def IsSearch (s : Loop) : Prop := s.phase = .m4SearchRecent ∨ s.phase = .m4GetUserPosts

instance (s : Loop) : Decidable (IsSearch s) := inferInstanceAs (Decidable (_ ∨ _))

/-- The end of the request of a tool that fetches. -/
def toolDone (env : LoopEnv) (o : FetchOutcome) (s : Loop) : Checked (Loop × Bool) := do
  let tool := s.call.name
  let (okStatus, result) ← fetchedResult o s
  let s := { s with toolResult := result }
  if IsSearch s then
    completeToolAndContinue env okStatus (some (ascii "last_posts")) s
  else if s.phase = .m4FetchUrl ∧ okStatus then
    let preview := compactFetchPreview toolResultLimit s.toolResult o.capture.truncated
    let s := { s with
      lastFetchUrl := s.call.arg1
      lastFetchBody := preview
      toolResult := preview
      state := (writeSessionState (ascii "last_fetch_url") s.call.arg1 s.state).1 }
    if goalLooksLikeSummaryRequest s.goal then
      let s ← appendToolResult tool s.toolResult (s.act (.completed true))
      pure (startM4SummaryModelTurn env { s with retries := 0 }.nextStep)
    else completeToolAndContinue env true none s
  else completeToolAndContinue env okStatus none s

/-- `handle_m4_fetch_done`. -/
def handleM4FetchDone (env : LoopEnv) (o : FetchOutcome) (s : Loop) : Checked (Loop × Bool) :=
  if ! s.active then pure (s, false)
  else
    let s := { s with inFlight := false }
    match s.phase with
    | .m4Model => modelDone env o s
    | .m4SummaryModel => summaryDone env o s
    | .m5BridgeTool => bridgeDone env o s
    | _ => toolDone env o s

end FetchDone

section Lines

def looksLikeToolInventoryRequest (goal : Bytes) : Bool :=
  mentions goal
    ["what tools", "which tools", "available tools", "tool list", "what can you do", "your capabilities",
     "what are your capabilities"]
    ["什么工具", "哪些工具", "有什么工具", "你都有什么工具", "工具可被调用", "可以调用", "能调用哪些工具", "都有什么能力"]

def toolInventoryNames : String :=
  "fetch_url、post_url、post_tweet、search_web、search_recent_posts、get_user_posts、read_session_state、write_session_state、" ++
  "list_workspace、read_file、write_file、apply_patch、run_process、read_process_output、memory_status、list_memory、read_memory。"

/-- `build_tool_inventory_response`. -/
def buildToolInventoryResponse (goal : Bytes) : Bytes :=
  if containsNonAscii goal then (utf8Text "我当前可调用的工具有：" ++ utf8Text toolInventoryNames).take 768
  else (textOf ["My callable tools are: fetch_url, post_url, post_tweet, search_web, search_recent_posts, ",
    "get_user_posts, read_session_state, write_session_state, list_workspace, read_file, write_file, apply_patch, ",
    "run_process, read_process_output, memory_status, list_memory, and read_memory."]).take 768

/-- A line that no other command takes. -/
def isM4Candidate (line : Bytes) : Bool :=
  line ≠ [] && ! startsWithTool line (ascii "goal ") && ! startsWithTool line (ascii "m3 ")

/-- The goal in a line. -/
def m4Goal (line : Bytes) : Bytes :=
  if startsWithTool line (ascii "m4 ") then
    let goal := (line.drop 3).dropWhile isSpace
    if goal = [] then line else goal
  else line

/-- A new turn: the line of the user is appended to the history. -/
def beginTurn (goal : Bytes) (s : Loop) : Loop :=
  appendUserTurn goal { ensureSessionStarted s with
    active := true
    phase := .m4Model
    goal := goal.take 768
    call := {}
    toolResult := []
    lastFetchUrl := []
    lastFetchBody := []
    step := 0
    retries := 0
    hostBridge := false
    turn := [] }

/-- `handle_m4_goal_line`. -/
def handleM4GoalLine (env : LoopEnv) (line : Bytes) (s : Loop) : Checked Loop :=
  if ! isM4Candidate line then pure s
  else if s.active || env.busy then pure s
  else
    let goal := m4Goal line
    let s := beginTurn goal s
    if looksLikeToolInventoryRequest goal then
      pure (finalizeM4Response (buildToolInventoryResponse goal) false s)
    else Prod.fst <$> startM4ModelTurn env s

/-- What happens to the loop: a line of the user, the end of its fetch, or a command that resets the session. -/
inductive LoopEvent where
  | line (env : LoopEnv) (text : Bytes)
  | fetchDone (env : LoopEnv) (o : FetchOutcome)
  | sessionReset

/-- A fetch ends only while one of the loop is in flight. -/
def LoopEvent.Possible (s : Loop) : LoopEvent → Prop
  | .fetchDone _ _ => s.inFlight = true
  | _ => True

instance (s : Loop) (event : LoopEvent) : Decidable (event.Possible s) :=
  match event with
  | .line _ _ => isTrue trivial
  | .fetchDone _ _ => inferInstanceAs (Decidable (_ = _))
  | .sessionReset => isTrue trivial

def Loop.handle (s : Loop) : LoopEvent → Checked Loop
  | .line env text => handleM4GoalLine env text s
  | .fetchDone env o => Prod.fst <$> handleM4FetchDone env o s
  | .sessionReset => pure (Agent.sessionReset s)

def sessionLoop : Machine Loop LoopEvent := .ofChecked (· = {}) (fun s event => event.Possible s) Loop.handle

end Lines

end MiniAgentOS.Agent
