import MiniAgentOS.Agent.Goal

/-! Goals in words: what the kernel compiles of them itself, what a model interprets of them, and the tasks that come
of both. -/
namespace MiniAgentOS.Agent.Goals
open Checked Fetch Net Session

section Compile

def goalShellId : Bytes := ascii "goal-shell"

def goalDefaultMaxSteps : ℕ := 6

def goalDefaultModelUrl : Bytes := ascii "http://10.0.2.2:8083/summarize"

def defaultGoalPolicy : Bytes :=
  textOf ["\x7b\"allowed_skills\":[\"fetch_url\",\"call_model\",\"post_result\"],", "\"allowed_hosts\":[\"10.0.2.2\"]\x7d"]

def localSummaryPolicy : Bytes :=
  textOf ["\x7b\"allowed_skills\":[\"fetch_url\",\"summarize_text\"],", "\"allowed_hosts\":[\"10.0.2.2\"]\x7d"]

def m3SummaryPolicy : Bytes :=
  textOf ["\x7b\"allowed_skills\":[\"fetch_url\",\"summarize_text\",\"call_model\"],",
    "\"allowed_hosts\":[\"10.0.2.2\",\"api.openai.com\"],\"allow_public_hosts\":true\x7d"]

def m3PostPolicy : Bytes :=
  textOf ["\x7b\"allowed_skills\":[\"fetch_url\",\"summarize_text\",\"call_model\",\"post_result\"],",
    "\"allowed_hosts\":[\"10.0.2.2\",\"api.openai.com\"],\"allow_public_hosts\":true\x7d"]

/-- The URL at the front of a text: a word that begins with a scheme, less the marks at its end. -/
def urlHere (text : Bytes) : Option Bytes :=
  if ascii "http://" <+: text ∨ ascii "https://" <+: text then
    let url := (text.takeWhile (! isSpace ·)).rdropWhile fun b => b = 46 ∨ b = 44 ∨ b = 59 ∨ b = 41
    if url ≠ [] ∧ (parseAgentUrl url).isSome then some url else none
  else none

/-- The first `limit` URLs of a text, of which `skip` more bytes belong to the last one. -/
def extractUrlsFrom : ℕ → ℕ → Bytes → List Bytes
  | _, _, [] => []
  | limit, skip + 1, _ :: rest => extractUrlsFrom limit skip rest
  | 0, 0, _ :: _ => []
  | limit + 1, 0, b :: rest =>
    match urlHere (b :: rest) with
    | some url => url :: extractUrlsFrom limit (url.length - 1) rest
    | none => extractUrlsFrom (limit + 1) 0 rest

def extractUrls (text : Bytes) : List Bytes := extractUrlsFrom 4 0 text

/-- The last number in a text other than zero, so far `found`; `number` is the one that is being read. -/
def lastNumber : ℕ → ℕ → Bytes → ℕ
  | found, number, [] => if number ≠ 0 then number else found
  | found, number, b :: rest =>
    if isDigit b then lastNumber found (saturatingAdd (saturatingMul number 10) (b.toNat - 48)) rest
    else lastNumber (if number ≠ 0 then number else found) 0 rest

def itemWords : List (String × ℕ) := [("one", 1), ("two", 2), ("three", 3), ("four", 4), ("five", 5), ("six", 6)]

/-- A count that is spelled out. -/
def spelledItems (text : Bytes) : Option ℕ :=
  (itemWords.find? fun word =>
    mentions text [word.1 ++ " bullet", word.1 ++ " point", word.1 ++ " item"] []).map Prod.snd

/-- `max_items` between 1 and 8. -/
def clampItems (items : ℕ) : ℕ := if items = 0 then 1 else if 8 < items then 8 else items

def detectGoalMaxItems (text : Bytes) : ℕ :=
  let items := (spelledItems text).getD (lastNumber 3 0 text)
  if items = 0 then 3 else if 8 < items then 8 else items

def copySinkHintFromGoal (s : Governed) : Governed :=
  let urls := extractUrls s.goal
  if containsAsciiPhrase s.goal (ascii "post") ∧ 2 ≤ urls.length then
    { s with sinkUrl := (urls.getLast?.getD []).take agentUrlLen }
  else s

/-- The plan of the kernel for a goal in words, with the reason where it has none. -/
def compileGoalLocally (s : Governed) : Governed × Option String :=
  if mentions s.goal ["compilation error", "ambiguous goal"] [] then (s, some "goal compilation failed")
  else
    let hasPost := containsAsciiPhrase s.goal (ascii "post")
    let urls := extractUrls s.goal
    if ! mentions s.goal ["summarize", "summary"] [] || ! (mentions s.goal ["fetch"] [] || hasPost) || urls = [] then
      (s, some "unsupported goal")
    else
      let url (i : ℕ) : Bytes := (urls[i]?.getD []).take agentUrlLen
      let s := { s with sourceUrl := url 0, modelUrl := [], sinkUrl := [] }
      if hasPost ∧ urls.length < 2 then (s, some "unsupported goal")
      else
        let s := if ! hasPost then s
          else if 3 ≤ urls.length then { s with modelUrl := url 1, sinkUrl := url 2 }
          else { s with modelUrl := goalDefaultModelUrl, sinkUrl := url 1 }
        let s := { s with
          sentences := detectGoalMaxItems s.goal
          policy := { s.policy with maxSteps := goalDefaultMaxSteps } }
        match agentStoreTaskJson (if hasPost then defaultGoalPolicy else localSummaryPolicy) s with
        | some stored => (stored, none)
        | none => (s, some "goal policy unavailable")

def finishGoalCompilationFailure (env : GoalEnv) (reason : String) (s : Governed) : Checked Governed :=
  let refused := containsAsciiPhrase (ascii reason) (ascii "unsupported")
  postOrFinish env (if refused then .refused else .failed)
    (agentSetResult (if refused then "refused" else "error") (ascii reason) s)

end Compile

section Interpret

def interpretationInstructions : Bytes := textOf [
  "You are the in-guest goal interpreter for MiniAgentOS. Supported goals are limited to two families: (1) summarize ",
  "one URL directly for the user, (2) summarize one URL and post the result to one sink URL. Return only compact JSON. ",
  "Direct summary => \x7b\"status\":\"ok\",\"action\":\"local_summary\",\"source_url\":\"...\",\"max_items\":3,",
  "\"output_language\":\"zh\",\"style\":\"bullet\"\x7d. Posted summary => \x7b\"status\":\"ok\",\"action\":\"post_summary\",",
  "\"source_url\":\"...\",\"sink_url\":\"...\",\"max_items\":3,\"output_language\":\"zh\",\"style\":\"bullet\"\x7d. If no ",
  "explicit output language is requested, use \"default\". If unsupported => \x7b\"status\":\"error\",\"reason\":\"unsupported ",
  "goal\"\x7d. Treat bullet point takeaways and key points as summary requests. Preserve explicit output language and output ",
  "style requests as structured fields. If the user gives a bare domain or host without a scheme, normalize it to an ",
  "https:// URL. Tolerate minor typos such as 'summury' when the intent is clearly to summarize."]

def buildOpenaiInterpretationRequestBody (goal : Bytes) : Bytes :=
  let add := appendBytes fetchBodyMax
  let escape := jsonEscapeAppend fetchBodyMax
  let out := escape (add [] (ascii "\x7b\"model\":\"")) modelName
  let out := escape (add out (ascii "\",\"instructions\":\"")) interpretationInstructions
  let out := escape (add out (ascii "\",\"input\":\"")) goal
  add out (ascii "\",\"reasoning\":\x7b\"effort\":\"low\"\x7d,\"max_output_tokens\":240\x7d")

def finishGoalInterpretationFailure (reason : Bytes) (s : Governed) : Governed :=
  let refused := mentions reason ["unsupported", "missing openai key", "run openai-key"] []
  agentFinishLocal (if refused then .refused else .failed)
    (agentSetResult (if refused then "refused" else "error") reason s)

def missingKey : Bytes := ascii "missing openai key; run openai-key <key> before Goal > input"

def startOpenaiInterpretationRequest (env : GoalEnv) (s : Governed) : Governed :=
  let body := buildOpenaiInterpretationRequestBody s.goal
  if ! env.apiKey then finishGoalInterpretationFailure missingKey s
  else if body = [] then finishGoalInterpretationFailure (ascii "openai interpretation request too large") s
  else if ! env.apiHeader then finishGoalInterpretationFailure missingKey s
  else if fetchStartAgentUrl env responsesUrl then { s with inFlight := true }.act (.interpreting body)
  else finishGoalInterpretationFailure (startReason env responsesUrl "openai interpretation request failed") s

def startGoalInterpretation (env : GoalEnv) (s : Governed) : Governed :=
  startOpenaiInterpretationRequest env { s with
    mode := .m3
    phase := .interpretGoal
    sourceUrl := []
    sinkUrl := []
    modelUrl := []
    policy := ⟨[], goalDefaultMaxSteps⟩
    summary := []
    language := []
    style := []
    reason := []
    interpretRetries := 0
    summaryRetries := 0 }

def normalizeOutputLanguage (text : Bytes) : Bytes :=
  if mentions text ["zh", "chinese"] [] then ascii "zh"
  else if mentions text ["default", "same", "auto"] [] then ascii "default"
  else text

def normalizeOutputStyle (text : Bytes) : Bytes :=
  if mentions text ["bullet", "point", "list"] [] then ascii "bullet"
  else if mentions text ["paragraph"] [] then ascii "paragraph"
  else text

/-- What a model answered, in a buffer of `capacity` bytes, or else the body as it is. -/
def interpretationText (capacity : ℕ) (o : FetchOutcome) : Checked Bytes := do
  let text ← extractOpenaiOutputText o.capture.body o.capture.outputText capacity
  pure ((text.filter (· ≠ [])).getD o.capture.body)

/-- The reason that stands for the one of a model. -/
def interpretationReason (reason : Bytes) : Bytes :=
  if startsWithTool reason (ascii "unsupported goal") then ascii "unsupported goal"
  else if startsWithTool reason (ascii "translation backend unavailable") ∨
      startsWithTool reason (ascii "interpretation backend unavailable") then
    ascii "interpretation backend unavailable"
  else ascii "interpretation failed"

/-- The plan of an interpretation, by the action that it names. -/
def planInterpreted (action : Bytes) (s : Governed) : Except Bytes Governed :=
  let stored (task : Bytes) : Except Bytes Governed :=
    match agentStoreTaskJson task s with
    | some s => .ok s
    | none => .error (ascii "goal policy unavailable")
  if startsWithTool action (ascii "post_summary") then
    if s.sinkUrl = [] then .error (ascii "missing interpreted sink_url") else stored m3PostPolicy
  else if startsWithTool action (ascii "local_summary") then stored m3SummaryPolicy
  else .error (ascii "unsupported interpreted action")

/-- `apply_interpretation_response`, of the text of the response. -/
def applyInterpretationResponse (response : Bytes) (s : Governed) : Checked (Except Bytes Governed) := do
  let read (key : String) (capacity : ℕ) := jsonExtractString response response.length (ascii key) capacity
  match ← read "status" 16 with
  | none => pure (.error (ascii "invalid interpretation response"))
  | some status =>
    if startsWithTool status (ascii "error") then
      pure (.error (interpretationReason ((← read "reason" 128).getD [])))
    else
      match ← read "action" 32 with
      | none => pure (.error (ascii "missing interpretation action"))
      | some action =>
        match ← read "source_url" agentUrlLen with
        | none => pure (.error (ascii "missing interpreted source_url"))
        | some source =>
          let sink := (← read "sink_url" agentUrlLen).getD []
          let maxItems := (← jsonExtractU64 response response.length (ascii "max_items")).getD 3
          let language := (← read "output_language" 16).getD []
          let style := (← read "style" 16).getD []
          pure (planInterpreted action { s with
            sourceUrl := source
            modelUrl := []
            sinkUrl := sink
            sentences := clampItems maxItems
            policy := { s.policy with maxSteps := goalDefaultMaxSteps }
            language := if language = [] then ascii "default" else normalizeOutputLanguage language
            style := if style = [] then ascii "bullet" else normalizeOutputStyle style })

/-- `handle_goal_interpretation_done` in its phase. -/
def goalInterpretationDone (env : GoalEnv) (o : FetchOutcome) (s : Governed) : Checked Governed := do
  if ! o.success then
    if openaiFailureRetryable o && s.interpretRetries < agentOpenaiMaxRetries then
      pure (startOpenaiInterpretationRequest env { s with interpretRetries := (s.interpretRetries + 1) % 256 })
    else
      let reason ← buildOpenaiFailureReason "openai interpretation" o
      pure (finishGoalInterpretationFailure
        (if env.apiKey then reason else ascii "interpretation request failed") s)
  else if o.capture.truncated then
    pure (finishGoalInterpretationFailure (ascii "openai interpretation: response body truncated") s)
  else
    let text ← interpretationText 1024 o
    let reply ← interpretationText agentResponseBodyLen o
    let s := s.act (.interpreted reply text)
    match ← applyInterpretationResponse text s with
    | .ok s => startM3LocalSummaryTask env s
    | .error reason => pure (finishGoalInterpretationFailure reason s)

end Interpret

section Lines

/-- The end of a fetch, in the phase that waits for it. -/
def phaseDone (env : GoalEnv) (o : FetchOutcome) (s : Governed) : Checked Governed :=
  match s.phase with
  | .interpretGoal => if s.mode = .m3 then goalInterpretationDone env o s else pure s
  | .fetchSource => if s.mode = .m1 then sourceDoneM1 env o s else sourceDone env o s
  | .callModel =>
    if s.mode = .m1 then modelDoneM1 env o s
    else if s.mode = .m3 then modelDoneM3 env o s
    else pure s
  | .postResult => pure (postDone o s)
  | _ => pure s

def handleAgentFetchDone (env : GoalEnv) (o : FetchOutcome) (s : Governed) : Checked Governed :=
  if ! s.active then pure s else phaseDone env o { s with inFlight := false }

/-- A task of mode M0, which no policy governs. -/
def startM0Task (env : GoalEnv) (s : Governed) : Governed :=
  let s := agentSetResult "ok" [] { s with mode := .m0 }
  let s := s.act (.planned s.mode s.sourceUrl s.modelUrl s.sinkUrl)
  if fetchStartAgentUrl env s.sourceUrl then s.send .fetchUrl s.sourceUrl [] .fetchSource
  else agentFail (agentSetResult "error" (startReason env s.sourceUrl "fetch start failed") s)

/-- What `handle_agent_task_line` sets once the kind, the goal and the URLs are read. -/
def acceptTask (line goalId source sink : Bytes) (s : Governed) : Governed :=
  { s with
    active := true
    phase := .fetchSource
    goalId := goalId
    sourceUrl := source
    sinkUrl := sink
    summary := []
    language := []
    style := []
    reason := []
    interpretRetries := 0
    summaryRetries := 0
    trail := [.task line] }

def handleAgentTaskLine (env : GoalEnv) (line : Bytes) (s : Governed) : Checked Governed := do
  let read (key : String) (capacity : ℕ) := jsonExtractString line line.length (ascii key) capacity
  if line.head? ≠ some openBrace then pure s
  else if s.active || env.busy then pure s
  else
    let kind := (← read "kind" 64).getD []
    if kind ≠ ascii "fetch_summarize_post" ∧ kind ≠ ascii "agent_task" then pure s
    else
      match ← read "goal_id" 96, ← read "source_url" agentUrlLen, ← read "sink_url" agentUrlLen with
      | some goalId, some source, some sink =>
        let accepted := acceptTask line goalId source sink s
        if kind = ascii "fetch_summarize_post" then
          let sentences := (← jsonExtractU64 line line.length (ascii "summary_sentences")).getD 3
          pure (startM0Task env { accepted with sentences := clampItems sentences })
        else
          match ← read "model_url" agentUrlLen, agentStoreTaskJson line accepted with
          | some model, some stored =>
            let maxSteps := (← jsonExtractU64 line line.length (ascii "max_steps")).getD 6
            let maxItems := (← jsonExtractU64 line line.length (ascii "max_items")).getD 3
            startGovernedM1Task env (agentSetResult "ok" [] { stored with
              mode := .m1
              modelUrl := model
              policy := { stored.policy with maxSteps := if maxSteps = 0 then 6 else maxSteps }
              sentences := clampItems maxItems })
          | _, _ => pure (agentReset s)
      | _, _, _ => pure s

def startsWithFetchGoal (line : Bytes) : Bool :=
  (ascii "fetch ").map asciiLower <+: (line.dropWhile isSpace).map asciiLower

/-- What `handle_goal_line` sets first. -/
def acceptGoal (line : Bytes) (s : Governed) : Governed :=
  { s with
    active := true
    mode := .m2
    phase := .idle
    goalId := goalShellId
    goal := line.take 768
    sourceUrl := []
    sinkUrl := []
    modelUrl := []
    policy := ⟨[], 0⟩
    summary := []
    language := []
    style := []
    reason := []
    interpretRetries := 0
    summaryRetries := 0
    trail := [.goal line] }

def handleGoalLine (env : GoalEnv) (line : Bytes) (s : Governed) : Checked Governed :=
  if line = [] then pure s
  else if s.active || env.busy then pure s
  else
    let s := acceptGoal line s
    if startsWithFetchGoal line then
      match compileGoalLocally (copySinkHintFromGoal s) with
      | (s, none) => if s.sinkUrl ≠ [] then startGovernedM1Task env s else startLocalSummaryTask env s
      | (s, some reason) =>
        if reason = "unsupported goal" ∨ reason = "goal compilation failed" then
          pure (startGoalInterpretation env s)
        else finishGoalCompilationFailure env reason s
    else pure (startGoalInterpretation env s)

/-- What happens to the tasks: a line with a task, a line with a goal in words, or the end of a fetch. -/
inductive GoalEvent where
  | task (env : GoalEnv) (line : Bytes)
  | goal (env : GoalEnv) (line : Bytes)
  | fetchDone (env : GoalEnv) (o : FetchOutcome)

/-- A fetch ends only while one of the task is in flight. -/
def GoalEvent.Possible (s : Governed) : GoalEvent → Prop
  | .fetchDone _ _ => s.inFlight = true
  | _ => True

instance (s : Governed) (event : GoalEvent) : Decidable (event.Possible s) :=
  match event with
  | .task _ _ => isTrue trivial
  | .goal _ _ => isTrue trivial
  | .fetchDone _ _ => inferInstanceAs (Decidable (_ = _))

def Governed.handle (s : Governed) : GoalEvent → Checked Governed
  | .task env line => handleAgentTaskLine env line s
  | .goal env line => handleGoalLine env line s
  | .fetchDone env o => handleAgentFetchDone env o s

def governedTasks : Machine Governed GoalEvent :=
  .ofChecked (· = {}) (fun s event => event.Possible s) Governed.handle

end Lines

end MiniAgentOS.Agent.Goals
