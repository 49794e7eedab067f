import MiniAgentOS.Agent.Loop
import MiniAgentOS.Agent.Policy

/-! The tasks that a policy governs: the source is fetched, its summary is made here or by a model, and the result is
posted to a sink or shown. -/
namespace MiniAgentOS.Agent.Goals
open Checked Fetch Net Session

section State

/-- `AGENT_MODE`. The session agent has a mode of its own. -/
inductive Mode where
  | none
  | m0
  | m1
  | m2
  | m3
  deriving DecidableEq, Repr

inductive Skill where
  | fetchUrl
  | summarizeText
  | callModel
  | postResult
  deriving DecidableEq, Repr

def skillName : Skill → Bytes
  | .fetchUrl => ascii "fetch_url"
  | .summarizeText => ascii "summarize_text"
  | .callModel => ascii "call_model"
  | .postResult => ascii "post_result"

/-- The step that a skill is called at. -/
def skillStep : Skill → ℕ
  | .fetchUrl => 1
  | .summarizeText => 2
  | .callModel => 2
  | .postResult => 3

/-- A request that a skill hands to the fetch engine, with the mode and the policy stored then. -/
structure SkillRequest where
  mode : Mode
  policy : Policy
  skill : Skill
  url : Bytes
  body : Bytes
  deriving DecidableEq, Repr

/-- What is done for a task: its line or a goal in words is accepted, the goal is interpreted, a plan is made, the policy is checked for
a skill, a request of a skill is started and ends, a summary is there, and the terminal event is emitted. -/
inductive Deed where
  | task (line : Bytes)
  | goal (line : Bytes)
  | interpreting (body : Bytes)
  | interpreted (reply text : Bytes)
  | planned (mode : Mode) (source model sink : Bytes)
  | checked (policy : Policy) (skill : Skill) (url : Option Bytes) (denied : Option Denial)
  | requested (request : SkillRequest)
  | answered (skill : Skill) (ok : Bool) (status : ℕ)
  | summarized (summary : Bytes)
  | ended (terminal : Terminal)
  deriving DecidableEq, Repr

/-- The globals of a task. `trail` is no global: it lists what was done since the last task was accepted. -/
structure Governed where
  active : Bool := false
  mode : Mode := .none
  phase : AgentPhase := .idle
  inFlight : Bool := false
  goalId : Bytes := []
  goal : Bytes := []
  sourceUrl : Bytes := []
  sinkUrl : Bytes := []
  modelUrl : Bytes := []
  policy : Policy := ⟨[], 0⟩
  summary : Bytes := []
  sentences : ℕ := 3
  language : Bytes := []
  style : Bytes := []
  status : Bytes := []
  reason : Bytes := []
  terminal : Option Terminal := none
  interpretRetries : ℕ := 0
  summaryRetries : ℕ := 0
  trail : List Deed := []
  deriving DecidableEq, Repr

/-- What is read of the rest of the machine: whether another task or fetch is going on, the key of the model and its
header, which URLs the fetch engine takes, and the reason that it leaves otherwise. -/
structure GoalEnv where
  busy : Bool := false
  apiKey : Bool := true
  apiHeader : Bool := true
  starts : Bytes → Bool := fun _ => true
  reason : Bytes → Bytes := fun _ => []

def agentUrlLen : ℕ := 256

def agentTaskJsonLen : ℕ := 1536

def agentSummaryLen : ℕ := 4096

def agentOpenaiMaxRetries : ℕ := 1

def responsesUrl : Bytes := ascii "https://api.openai.com/v1/responses"

def Governed.act (deed : Deed) (s : Governed) : Governed := { s with trail := s.trail ++ [deed] }

def agentReset (s : Governed) : Governed := { trail := s.trail }

def agentSetResult (status : String) (reason : Bytes) (s : Governed) : Governed :=
  { s with status := (ascii status).take 16, reason := reason.take 128 }

/-- `agent_store_task_json`: a longer task is not stored. -/
def agentStoreTaskJson (line : Bytes) (s : Governed) : Option Governed :=
  if line.length ≤ agentTaskJsonLen then some { s with policy := { s.policy with task := line } } else none

end State

section Terminals

/-- `fetch_start_agent_url`: whether the request is started. -/
def fetchStartAgentUrl (env : GoalEnv) (url : Bytes) : Bool := (parseAgentUrl url).isSome && env.starts url

def startReason (env : GoalEnv) (url : Bytes) (default : String) : Bytes :=
  if (parseAgentUrl url).isSome then failureReasonOr (env.reason url) default else ascii "invalid url"

/-- `agent_policy_check`, of a skill at its step. -/
def policyCheck (skill : Skill) (url : Option Bytes) (s : Governed) : Checked (Governed × Bool) := do
  let denied ← agentPolicyCheck s.policy (skillName skill) (skillStep skill) url
  let s := s.act (.checked s.policy skill url denied)
  match denied with
  | none => pure (s, true)
  | some denial => pure (agentSetResult "refused" (denialReason denial) { s with summary := [] }, false)

def agentEmitTerminalEvent (s : Governed) : Governed := s.act (.ended (s.terminal.getD .failed))

def agentFinishNow (s : Governed) : Governed := agentReset s

def agentFinishLocal (terminal : Terminal) (s : Governed) : Governed :=
  agentFinishNow (agentEmitTerminalEvent { s with terminal := some terminal })

def agentFail (s : Governed) : Governed := agentReset (s.act (.ended .failed))

/-- A request of a skill, in the phase that waits for it. -/
def Governed.send (skill : Skill) (url body : Bytes) (phase : AgentPhase) (s : Governed) : Governed :=
  { s with phase, inFlight := true }.act (.requested ⟨s.mode, s.policy, skill, url, body⟩)

def buildAgentResultBody (s : Governed) : Bytes :=
  let add := appendBytes fetchBodyMax
  let escape := jsonEscapeAppend fetchBodyMax
  let out := escape (add [] (ascii "\x7b\"goal_id\":\"")) s.goalId
  let out := escape (add out (ascii "\",\"status\":\"")) s.status
  let out := if s.summary = [] then out else escape (add out (ascii "\",\"summary\":\"")) s.summary
  let out := if s.reason = [] then out else escape (add out (ascii "\",\"reason\":\"")) s.reason
  add out (ascii "\"\x7d")

def agentStartTerminalPost (env : GoalEnv) (terminal : Terminal) (s : Governed) : Checked Governed := do
  let s := { s with terminal := some terminal }
  if s.sinkUrl = [] then pure (agentFinishLocal terminal s)
  else
    -- no other mode checks the post
    let (s, allowed) ← if s.mode = .m1 then policyCheck .postResult (some s.sinkUrl) s else pure (s, true)
    if ! allowed then pure (agentFinishNow (agentEmitTerminalEvent s))
    else if fetchStartAgentUrl env s.sinkUrl then
      pure (s.send .postResult s.sinkUrl (buildAgentResultBody s) .postResult)
    else
      let s := agentSetResult "error" (startReason env s.sinkUrl "post result start failed") s
      pure (agentFinishNow (agentEmitTerminalEvent s))

/-- The end of a task: its result is posted where there is a sink. -/
def postOrFinish (env : GoalEnv) (terminal : Terminal) (s : Governed) : Checked Governed :=
  if s.sinkUrl ≠ [] then agentStartTerminalPost env terminal s else pure (agentFinishLocal terminal s)

end Terminals

section Summaries

/-- Blanks are joined, and the text ends behind `limit` sentences. -/
def summarizeFrom (capacity limit : ℕ) : Bool → ℕ → Bytes → Bytes → Bytes
  | _, _, out, [] => out
  | sawSpace, count, out, b :: rest =>
    if capacity ≤ out.length then out
    else
      let b := if b = 10 ∨ b = 13 ∨ b = 9 then space else b
      if b = space then summarizeFrom capacity limit true count (if sawSpace then out else out ++ [b]) rest
      else if b = 46 ∨ b = 33 ∨ b = 63 then
        if limit ≤ count + 1 then out ++ [b] else summarizeFrom capacity limit false (count + 1) (out ++ [b]) rest
      else summarizeFrom capacity limit false count (out ++ [b]) rest

def summarizeAgentResponse (body : Bytes) (sentenceLimit : ℕ) : Bytes :=
  let limit := if sentenceLimit = 0 then 1 else sentenceLimit
  (summarizeFrom agentSummaryLen limit true 0 [] body).rdropWhile (· == space)

def buildModelRequestBody (s : Governed) (response : Bytes) : Bytes :=
  let add := appendBytes fetchBodyMax
  let out := jsonEscapeAppend fetchBodyMax (add [] (ascii "\x7b\"source_text\":\"")) response
  add (add (add out (ascii "\",\"max_items\":")) (u64ToDec s.sentences)) (ascii "\x7d")

def modelName : Bytes := ascii "gpt-5.4-mini"

def buildOpenaiSummaryRequestBody (s : Governed) (response : Bytes) : Bytes :=
  let add := appendBytes fetchBodyMax
  let escape := jsonEscapeAppend fetchBodyMax
  let out := escape (add [] (ascii "\x7b\"model\":\"")) modelName
  let out := add (add out (ascii "\",\"instructions\":\"")) (textOf [
    "You are the in-guest summary engine for MiniAgentOS. Summarize the provided source into at most "])
  let out := add (add out (u64ToDec s.sentences)) (textOf [
    " concise bullet points. Use the structured output language and style hints provided below. ",
    "Return only the final summary as plain text.\",\"input\":\""])
  let out := escape (add out (ascii "Output language: ")) (if s.language = [] then ascii "default" else s.language)
  let out := escape (add out (ascii "\\nOutput style: ")) (if s.style = [] then ascii "bullet" else s.style)
  let out := escape (add out (ascii "\\nOriginal goal: ")) s.goal
  let out := escape (add out (ascii "\\n\\nSource:\\n")) (response.take 2200)
  add out (ascii "\",\"reasoning\":\x7b\"effort\":\"low\"\x7d,\"max_output_tokens\":220\x7d")

/-- The summary that a model answered. -/
def keepSummary (summary : Option Bytes) (s : Governed) : Governed × Bool :=
  match summary with
  | some text => ({ s with summary := text }.act (.summarized text), true)
  | none => (s, false)

def captureModelSummary (o : FetchOutcome) (s : Governed) : Checked (Governed × Bool) := do
  let body := o.capture.body
  pure (keepSummary (← jsonExtractString body body.length (ascii "summary") agentSummaryLen) s)

def captureOpenaiSummary (o : FetchOutcome) (s : Governed) : Checked (Governed × Bool) := do
  let text ← extractOpenaiOutputText o.capture.body o.capture.outputText agentSummaryLen
  pure (keepSummary (text.filter (· ≠ [])) s)

end Summaries

section Tasks

def startGovernedM1Task (env : GoalEnv) (s : Governed) : Checked Governed := do
  let s := agentSetResult "ok" [] { s with mode := .m1, phase := .fetchSource, language := [], style := [] }
  let s := s.act (.planned s.mode s.sourceUrl s.modelUrl s.sinkUrl)
  let (s, allowed) ← policyCheck .fetchUrl (some s.sourceUrl) s
  if ! allowed then agentStartTerminalPost env .refused s
  else if fetchStartAgentUrl env s.sourceUrl then pure (s.send .fetchUrl s.sourceUrl [] .fetchSource)
  else
    let reason := startReason env s.sourceUrl "fetch start failed"
    agentStartTerminalPost env .failed (agentSetResult "error" reason { s with summary := [] })

def startLocalSummaryTaskWithMode (env : GoalEnv) (mode : Mode) (s : Governed) : Checked Governed := do
  let s := agentSetResult "ok" [] { s with mode, phase := .fetchSource }
  let s := s.act (.planned s.mode s.sourceUrl s.modelUrl s.sinkUrl)
  let (s, allowed) ← policyCheck .fetchUrl (some s.sourceUrl) s
  if ! allowed then pure (agentFinishLocal .refused s)
  else if fetchStartAgentUrl env s.sourceUrl then pure (s.send .fetchUrl s.sourceUrl [] .fetchSource)
  else
    let reason := startReason env s.sourceUrl "fetch start failed"
    pure (agentFinishLocal .failed (agentSetResult "error" reason { s with summary := [] }))

def startLocalSummaryTask (env : GoalEnv) (s : Governed) : Checked Governed := startLocalSummaryTaskWithMode env .m2 s

def startM3LocalSummaryTask (env : GoalEnv) (s : Governed) : Checked Governed := startLocalSummaryTaskWithMode env .m3 s

def startM3OpenaiSummaryRequest (env : GoalEnv) (o : FetchOutcome) (s : Governed) : Checked Governed := do
  let (s, allowed) ← policyCheck .callModel (some responsesUrl) s
  if ! allowed then postOrFinish env .refused s
  else
    let body := buildOpenaiSummaryRequestBody s o.capture.body
    if body = [] ∨ ! env.apiHeader then
      postOrFinish env .failed (agentSetResult "error" (ascii "openai request build failed") s)
    else if fetchStartAgentUrl env responsesUrl then pure (s.send .callModel responsesUrl body .callModel)
    else
      let reason := startReason env responsesUrl "openai request failed"
      postOrFinish env .failed (agentSetResult "error" reason s)

end Tasks

section FetchDone

/-- The source of a task in mode M1. -/
def sourceDoneM1 (env : GoalEnv) (o : FetchOutcome) (s : Governed) : Checked Governed := do
  let s := s.act (.answered .fetchUrl o.ok o.status)
  if ! o.success then
    agentStartTerminalPost env .failed (agentSetResult "error" (ascii "fetch failed") { s with summary := [] })
  else
    let (s, allowed) ← policyCheck .callModel (some s.modelUrl) s
    if ! allowed then agentStartTerminalPost env .refused s
    else
      let body := buildModelRequestBody s o.capture.body
      if body = [] then
        agentStartTerminalPost env .failed (agentSetResult "error" (ascii "model request build failed") s)
      else if fetchStartAgentUrl env s.modelUrl then pure (s.send .callModel s.modelUrl body .callModel)
      else
        let reason := startReason env s.modelUrl "model request failed"
        agentStartTerminalPost env .failed (agentSetResult "error" reason s)

/-- The model of a task in mode M1. -/
def modelDoneM1 (env : GoalEnv) (o : FetchOutcome) (s : Governed) : Checked Governed := do
  let s := s.act (.answered .callModel o.ok o.status)
  let (s, modelOk) ← if o.success then captureModelSummary o s else pure (s, false)
  if ! modelOk then
    agentStartTerminalPost env .failed (agentSetResult "error" (ascii "model gateway error") { s with summary := [] })
  else agentStartTerminalPost env .completed (agentSetResult "ok" [] s)

/-- The source of a task in another mode. -/
def sourceDone (env : GoalEnv) (o : FetchOutcome) (s : Governed) : Checked Governed := do
  let s := s.act (.answered .fetchUrl o.ok o.status)
  if ! o.ok then postOrFinish env .failed (agentSetResult "error" (ascii "fetch failed") s)
  else if s.mode = .m3 ∧ env.apiKey then startM3OpenaiSummaryRequest env o s
  else
    let (s, allowed) ← policyCheck .summarizeText none s
    if ! allowed then postOrFinish env .refused s
    else
      let summary := summarizeAgentResponse o.capture.body s.sentences
      postOrFinish env .completed (agentSetResult "ok" [] { s with summary })

/-- The model of a task in mode M3. -/
def modelDoneM3 (env : GoalEnv) (o : FetchOutcome) (s : Governed) : Checked Governed := do
  let s := s.act (.answered .callModel o.ok o.status)
  let (s, modelOk) ← if o.success then captureOpenaiSummary o s else pure (s, false)
  if ! modelOk then
    let s := { s with summary := [] }
    if openaiFailureRetryable o && s.summaryRetries < agentOpenaiMaxRetries then
      startM3OpenaiSummaryRequest env o { s with summaryRetries := (s.summaryRetries + 1) % 256 }
    else
      let reason ← buildOpenaiFailureReason "openai summary" o
      postOrFinish env .failed (agentSetResult "error" reason s)
  else postOrFinish env .completed (agentSetResult "ok" [] s)

/-- The end of the post, whose outcome is not looked at where the terminal event was chosen before. -/
def postDone (o : FetchOutcome) (s : Governed) : Governed :=
  let s := s.act (.answered .postResult o.ok o.status)
  if s.mode = .m1 ∨ s.terminal.isSome then agentFinishNow (agentEmitTerminalEvent s)
  else agentReset (s.act (.ended (if o.ok then .completed else .failed)))

end FetchDone

end MiniAgentOS.Agent.Goals
