import MiniAgentOS.Agent.Dispatch
import MiniAgentOS.Agent.Loop
import MiniAgentOS.Agent.MemoryStore
import MiniAgentOS.Lib.Runs

/-! What a call of each function of the loop leads to: a request is sent, the turn is closed with an answer, or it is
dropped for want of a key. -/
namespace MiniAgentOS.Agent
open Checked Fetch Net Session

section Ends

variable {env : LoopEnv} {s next : Loop} {r : Loop × Bool}

/-- The loop may not ask the model: no bridge does it for the loop, and the key or its header is missing. -/
def LacksKey (env : LoopEnv) (s : Loop) : Prop :=
  useHostOpenaiBridge env s = false ∧ (env.apiKey = false ∨ env.apiHeader = false)

instance (env : LoopEnv) (s : Loop) : Decidable (LacksKey env s) := inferInstanceAs (Decidable (_ ∧ _))

def sendRequest (request : LoopRequest) (phase : AgentPhase) (s : Loop) : Loop :=
  { s with phase, inFlight := true }.act (.requested request)

def closeTurn (text : Bytes) (terminal : Terminal) (s : Loop) : Loop :=
  agentFinishLocal terminal (appendAssistantTurn text s)

@[simp] theorem ensureSessionStarted_started (s : Loop) : (ensureSessionStarted s).started = true := by
  unfold ensureSessionStarted
  split_ifs with h
  · exact h
  · rfl

@[simp] theorem ensureSessionStarted_of_started (h : s.started = true) : ensureSessionStarted s = s := if_pos h

@[simp] theorem ensureSessionStarted_active (s : Loop) : (ensureSessionStarted s).active = s.active := by
  unfold ensureSessionStarted
  split_ifs <;> rfl

@[simp] theorem ensureSessionStarted_phase (s : Loop) : (ensureSessionStarted s).phase = s.phase := by
  unfold ensureSessionStarted
  split_ifs <;> rfl

@[simp] theorem ensureSessionStarted_inFlight (s : Loop) : (ensureSessionStarted s).inFlight = s.inFlight := by
  unfold ensureSessionStarted
  split_ifs <;> rfl

@[simp] theorem ensureSessionStarted_step (s : Loop) : (ensureSessionStarted s).step = s.step := by
  unfold ensureSessionStarted
  split_ifs <;> rfl

@[simp] theorem ensureSessionStarted_retries (s : Loop) : (ensureSessionStarted s).retries = s.retries := by
  unfold ensureSessionStarted
  split_ifs <;> rfl

@[simp] theorem ensureSessionStarted_hostBridge (s : Loop) : (ensureSessionStarted s).hostBridge = s.hostBridge := by
  unfold ensureSessionStarted
  split_ifs <;> rfl

@[simp] theorem ensureSessionStarted_call (s : Loop) : (ensureSessionStarted s).call = s.call := by
  unfold ensureSessionStarted
  split_ifs <;> rfl

@[simp] theorem ensureSessionStarted_toolResult (s : Loop) : (ensureSessionStarted s).toolResult = s.toolResult := by
  unfold ensureSessionStarted
  split_ifs <;> rfl

@[simp] theorem ensureSessionStarted_goal (s : Loop) : (ensureSessionStarted s).goal = s.goal := by
  unfold ensureSessionStarted
  split_ifs <;> rfl

@[simp] theorem ensureSessionStarted_turn (s : Loop) : (ensureSessionStarted s).turn = s.turn := by
  unfold ensureSessionStarted
  split_ifs <;> rfl

@[simp] theorem closeTurn_turn (text : Bytes) (terminal : Terminal) (s : Loop) :
    (closeTurn text terminal s).turn = s.turn ++ [.answered text, .finished terminal] := by
  simp [closeTurn, agentFinishLocal, appendAssistantTurn, Loop.act]

@[simp] theorem closeTurn_active (text : Bytes) (terminal : Terminal) (s : Loop) :
    (closeTurn text terminal s).active = false := rfl

@[simp] theorem closeTurn_inFlight (text : Bytes) (terminal : Terminal) (s : Loop) :
    (closeTurn text terminal s).inFlight = false := rfl

@[simp] theorem closeTurn_started (text : Bytes) (terminal : Terminal) (s : Loop) :
    (closeTurn text terminal s).started = true := ensureSessionStarted_started s

theorem closeTurn_state (h : s.started = true) (text : Bytes) (terminal : Terminal) :
    (closeTurn text terminal s).state = s.state := by
  simp [closeTurn, agentFinishLocal, appendAssistantTurn, Loop.act, h]

theorem closeTurn_phase (text : Bytes) (terminal : Terminal) (s : Loop) (phase : AgentPhase) :
    closeTurn text terminal { s with phase } = closeTurn text terminal s := by
  unfold closeTurn appendAssistantTurn ensureSessionStarted
  split_ifs <;> rfl

theorem startRequest_eq (env : LoopEnv) (request : LoopRequest) (phase : AgentPhase) (default : String) (s : Loop) :
    startRequest env request phase default s =
      if env.starts then (sendRequest request phase s, true)
      else (closeTurn (failureReasonOr env.reason default) .failed s, false) := by
  unfold startRequest
  dsimp only
  split_ifs
  · rfl
  · rw [← closeTurn_phase _ _ s phase]
    rfl

/-- A request that asks the model. -/
def LoopRequest.AsksModel : LoopRequest → Prop
  | .model _ | .summary => True
  | _ => False

/-- A phase that waits for the model. -/
def AsksPhase (phase : AgentPhase) : Prop := phase = .m4Model ∨ phase = .m4SummaryModel

/-- The request of a tool is sent, or the turn is closed with an answer. -/
inductive ToolStarted (env : LoopEnv) (s : Loop) : Loop → Prop where
  | sent {request : LoopRequest} {phase : AgentPhase} : ¬ request.AsksModel → ¬ AsksPhase phase → env.starts = true →
      ToolStarted env s (sendRequest request phase s)
  | closed (text : Bytes) (terminal : Terminal) : ToolStarted env s (closeTurn text terminal s)

theorem startRequest_tool {request : LoopRequest} {phase : AgentPhase} (h : ¬ request.AsksModel) (hphase : ¬ AsksPhase phase)
    (default : String) : ToolStarted env s (startRequest env request phase default s).1 := by
  rw [startRequest_eq]
  split_ifs with hstarts
  · exact .sent h hphase hstarts
  · exact .closed _ _

/-- What comes of asking the model. -/
inductive Asked (env : LoopEnv) (s : Loop) : Loop × Bool → Prop where
  | sent (body : Bytes) : ¬ LacksKey env s → env.starts = true →
      Asked env s (sendRequest (.model body) .m4Model s, true)
  | closed (reason : Bytes) : ¬ LacksKey env s → env.starts = false → Asked env s (closeTurn reason .failed s, false)
  | dropped : LacksKey env s → Asked env s (agentFinishLocal .failed s, false)

theorem buildM4OpenaiRequestBody_returns (c : PromptContext) :
    Returns (buildM4OpenaiRequestBody fetchBodyMax c) fun body => body ≠ [] := by
  obtain ⟨prompt, -, hbody, -⟩ := buildM4OpenaiRequestBody_eq c
  refine ⟨_, hbody, ?_⟩
  rw [requestJson_compact]
  have hopen : ascii "\x7b\"model\":\"" ≠ [] := by decide
  simp [hopen]

theorem startM4ModelTurn_asked (env : LoopEnv) (s : Loop) : Returns (startM4ModelTurn env s) (Asked env s) := by
  unfold startM4ModelTurn
  by_cases hkey : (! useHostOpenaiBridge env s && ! env.apiKey) = true
  · rw [if_pos hkey]
    simp only [Bool.and_eq_true, Bool.not_eq_true'] at hkey
    exact Returns.pure (.dropped ⟨hkey.1, .inl hkey.2⟩)
  · rw [if_neg hkey]
    apply Returns.bind (buildM4OpenaiRequestBody_returns _)
    intro body hbody
    simp only [Bool.and_eq_true, Bool.not_eq_true', not_and, Bool.not_eq_false] at hkey
    simp only [hbody, false_or]
    by_cases hheader : (! useHostOpenaiBridge env s && ! env.apiHeader) = true
    · rw [if_pos hheader]
      simp only [Bool.and_eq_true, Bool.not_eq_true'] at hheader
      exact Returns.pure (.dropped ⟨hheader.1, .inr hheader.2⟩)
    · rw [if_neg hheader, startRequest_eq]
      have hlacks : ¬ LacksKey env s := by
        rintro ⟨hbridge, hno | hno⟩
        · rw [hkey hbridge] at hno
          cases hno
        · simp [hbridge, hno] at hheader
      apply Returns.pure
      split_ifs with hstarts
      · exact .sent body hlacks hstarts
      · exact .closed _ hlacks (by simpa using hstarts)

end Ends

section Tools

variable {env : LoopEnv} {s mid next : Loop} {deeds : List Deed} {tool : Tool} {call : ToolCall} {result : Bytes}

/-- What is set before the turn goes on: some deeds are added, and the state of the request is kept. -/
structure Prepared (deeds : List Deed) (s mid : Loop) : Prop where
  turn : mid.turn = s.turn ++ deeds
  active : mid.active = s.active
  started : s.started = true → mid.started = true
  retries : mid.retries = s.retries
  hostBridge : mid.hostBridge = s.hostBridge

theorem Prepared.lacksKey_iff (h : Prepared deeds s mid) : LacksKey env mid ↔ LacksKey env s := by
  unfold LacksKey useHostOpenaiBridge
  rw [h.hostBridge]

theorem noteToolResult_returns (tool result : Bytes) (m : Memory) : Returns (noteToolResult tool result m) fun _ => True := by
  unfold noteToolResult
  cases hslot : toolKindSlot tool with
  | none => exact Returns.pure trivial
  | some slot =>
    apply Returns.bind (retained_weight hslot result)
    intro kept _
    exact Returns.pure trivial

/-- A result is recorded. -/
structure Recorded (name result : Bytes) (s kept : Loop) : Prop where
  turn : kept.turn = s.turn ++ [.recorded name result]
  active : kept.active = s.active
  retries : kept.retries = s.retries
  hostBridge : kept.hostBridge = s.hostBridge
  step : kept.step = s.step
  call : kept.call = s.call
  goal : kept.goal = s.goal
  toolResult : kept.toolResult = s.toolResult
  started : kept.started = true
  state : s.started = true → kept.state = s.state

theorem appendToolResult_recorded (name result : Bytes) (s : Loop) :
    Returns (appendToolResult name result s) (Recorded name result s) := by
  unfold appendToolResult
  apply Returns.bind (noteToolResult_returns name result _)
  intro memory _
  apply Returns.pure
  constructor
  · simp [Loop.act]
  · simp [Loop.act]
  · simp [Loop.act]
  · simp [Loop.act]
  · simp [Loop.act]
  · simp [Loop.act]
  · simp [Loop.act]
  · simp [Loop.act]
  · simp [Loop.act]
  · intro h
    simp [Loop.act, h]

/-- The result of a tool is recorded at once, and the model is asked. -/
theorem recordAndContinue_asked (env : LoopEnv) (name result : Bytes) (s : Loop) :
    Returns (recordAndContinue env name result s) fun r => ∃ mid,
      Prepared [.recorded name result, .completed true] s mid ∧ mid.step = (s.step + 1) % 256 ∧ Asked env mid r := by
  unfold recordAndContinue
  apply Returns.bind (appendToolResult_recorded _ _ _)
  intro kept hkept
  refine (startM4ModelTurn_asked env _).mono fun r hr => ⟨_, ?_, ?_, hr⟩
  · constructor
    · simp [Loop.nextStep, Loop.act, hkept.turn]
    · exact hkept.active
    · exact fun _ => hkept.started
    · exact hkept.retries
    · exact hkept.hostBridge
  · simp [Loop.nextStep, Loop.act, hkept.step]

/-- A tool that is executed while the loop waits, and whose result is recorded at once. -/
def AtOnce (tool : Tool) (call : ToolCall) (s : Loop) : Prop :=
  match tool with
  | .memoryStatus | .listMemory | .readMemory | .readSessionState => True
  | .writeSessionState => ¬ Refused call.arg1 call.arg2
  | .fetchUrl => cachedFetch call.arg1 s = true
  | _ => False

/-- A secret that the tool needs is missing. -/
def Denied (env : LoopEnv) (tool : Tool) : Prop :=
  match tool with
  | .postTweet => env.xSecrets = false
  | .searchRecentPosts | .getUserPosts => env.xBearer = false
  | _ => False

/-- What comes of a call that is not executed at once. -/
inductive Deferred (env : LoopEnv) (tool : Tool) (s : Loop) : Loop → Prop where
  | denied (text : Bytes) (terminal : Terminal) : Denied env tool → Deferred env tool s (closeTurn text terminal s)
  | refused (text : Bytes) (terminal : Terminal) : ¬ Denied env tool →
      Deferred env tool s (closeTurn text terminal ((s.act (.called tool)).act (.completed false)))
  | called {next : Loop} : ¬ Denied env tool → ToolStarted env (s.act (.called tool)) next →
      Deferred env tool s next

/-- What comes of a call. -/
structure Executed (env : LoopEnv) (tool : Tool) (call : ToolCall) (s : Loop) (next : Loop) : Prop where
  atOnce : AtOnce tool call s → ∃ result mid started,
    Prepared [.called tool, .recorded call.name result, .completed true] s mid ∧ mid.step = (s.step + 1) % 256 ∧
      Asked env mid (next, started)
  deferred : ¬ AtOnce tool call s → Deferred env tool { s with call } next

theorem recorded_called (h : Prepared deeds (s.act (.called tool)) mid) : Prepared (.called tool :: deeds) s mid where
  turn := by simp [h.turn, Loop.act]
  active := h.active
  started := h.started
  retries := h.retries
  hostBridge := h.hostBridge

theorem recorded_executed (hatOnce : AtOnce tool call s) (state : SessionState) :
    Returns (recordAndContinue env call.name result ({ s with call, state }.act (.called tool))) fun r =>
      Executed env tool call s r.1 := by
  refine (recordAndContinue_asked env _ _ _).mono ?_
  rintro ⟨next, started⟩ ⟨mid, hprepared, hstep, hasked⟩
  have hcalled : Prepared _ { s with call, state } mid := recorded_called hprepared
  refine ⟨fun _ => ⟨result, mid, started, ⟨?_, ?_, ?_, ?_, ?_⟩, hstep, hasked⟩, fun hnot => absurd hatOnce hnot⟩
  · exact hcalled.turn
  · exact hcalled.active
  · exact hcalled.started
  · exact hcalled.retries
  · exact hcalled.hostBridge

theorem request_executed {request : LoopRequest} {phase : AgentPhase} {default : String} (hatOnce : ¬ AtOnce tool call s) (hdenied : ¬ Denied env tool)
    (hrequest : ¬ request.AsksModel) (hphase : ¬ AsksPhase phase) :
    Executed env tool call s (startRequest env request phase default ({ s with call }.act (.called tool))).1 where
  atOnce := fun h => absurd h hatOnce
  deferred := fun _ => .called hdenied (startRequest_tool hrequest hphase default)

theorem closed_executed {text : Bytes} {terminal : Terminal} (hatOnce : ¬ AtOnce tool call s) (hdenied : ¬ Denied env tool) :
    Executed env tool call s (closeTurn text terminal ({ s with call }.act (.called tool))) where
  atOnce := fun h => absurd h hatOnce
  deferred := fun _ => .called hdenied (.closed text terminal)

theorem denied_executed {text : Bytes} {terminal : Terminal} (hatOnce : ¬ AtOnce tool call s) (hdenied : Denied env tool) :
    Executed env tool call s (closeTurn text terminal { s with call }) where
  atOnce := fun h => absurd h hatOnce
  deferred := fun _ => .denied text terminal hdenied

theorem bridgeWrite_executed {path body : Bytes} {unbuilt default : String} (hatOnce : ¬ AtOnce tool call s) (hdenied : ¬ Denied env tool) :
    Executed env tool call s (bridgeWrite env path body unbuilt default ({ s with call }.act (.called tool))).1 := by
  unfold bridgeWrite
  split_ifs
  · exact closed_executed hatOnce hdenied
  · exact request_executed hatOnce hdenied id (by simp [AsksPhase])

/-- A synchronous tool. -/
theorem executeSyncTool_executed (h : firstNamed syncTools call.name = some tool) :
    Returns (executeSyncTool env call.name { s with call }) fun r => Executed env tool call s r.1 := by
  obtain ⟨hmem, -⟩ := firstNamed_eq_some.mp h
  unfold executeSyncTool
  rw [h]
  dsimp only
  cases tool with
  | memoryStatus => exact recorded_executed (show AtOnce .memoryStatus call s from trivial) s.state
  | listMemory => exact recorded_executed (show AtOnce .listMemory call s from trivial) s.state
  | readMemory => exact recorded_executed (show AtOnce .readMemory call s from trivial) s.state
  | readSessionState => exact recorded_executed (show AtOnce .readSessionState call s from trivial) s.state
  | writeSessionState =>
    by_cases hrefused : Refused call.arg1 call.arg2
    · have hwrite : writeSessionState call.arg1 call.arg2 s.state = (s.state, false) := dif_pos hrefused
      have hatOnce : ¬ AtOnce .writeSessionState call s := fun h => h hrefused
      simp only [Loop.act, hwrite, Bool.false_eq_true, if_false]
      apply Returns.pure
      exact ⟨fun h => absurd h hatOnce, fun _ => .refused _ _ id⟩
    · have hwrite : writeSessionState call.arg1 call.arg2 s.state = (s.state.store call.arg1 call.arg2 _, true) :=
        dif_neg hrefused
      simp only [Loop.act, hwrite, if_true]
      exact recorded_executed (show AtOnce .writeSessionState call s from hrefused) _
  | _ => exact absurd hmem (by decide)

/-- An asynchronous tool. -/
theorem executeAsyncTool_executed (h : firstNamed asyncTools call.name = some tool) :
    Returns (executeAsyncTool env call.name { s with call }) fun r => Executed env tool call s r.1 := by
  obtain ⟨hmem, -⟩ := firstNamed_eq_some.mp h
  unfold executeAsyncTool
  rw [h]
  dsimp only
  cases tool with
  | fetchUrl =>
    by_cases hcached : cachedFetch call.arg1 s = true
    · rw [if_pos (by exact hcached)]
      exact recorded_executed (show AtOnce .fetchUrl call s from hcached) s.state
    · rw [if_neg (by exact hcached)]
      exact Returns.pure (request_executed hcached id id (by simp [AsksPhase]))
  | postUrl =>
    dsimp only
    split_ifs
    · exact Returns.pure (closed_executed id id)
    · exact Returns.pure (request_executed id id id (by simp [AsksPhase]))
  | postTweet =>
    dsimp only
    split_ifs with hsecrets
    · have hdenied : Denied env .postTweet := by simpa [Denied] using hsecrets
      exact Returns.pure (denied_executed id hdenied)
    · have hallowed : ¬ Denied env .postTweet := by simpa [Denied] using hsecrets
      exact Returns.pure (request_executed id hallowed id (by simp [AsksPhase]))
  | searchWeb => exact Returns.pure (request_executed id id id (by simp [AsksPhase]))
  | searchRecentPosts =>
    dsimp only
    split_ifs with hbearer hpath
    · have hdenied : Denied env .searchRecentPosts := by simpa [Denied] using hbearer
      exact Returns.pure (denied_executed id hdenied)
    · have hallowed : ¬ Denied env .searchRecentPosts := by simpa [Denied] using hbearer
      exact Returns.pure (closed_executed id hallowed)
    · have hallowed : ¬ Denied env .searchRecentPosts := by simpa [Denied] using hbearer
      exact Returns.pure (request_executed id hallowed id (by simp [AsksPhase]))
  | getUserPosts =>
    dsimp only
    split_ifs with hbearer hpath
    · have hdenied : Denied env .getUserPosts := by simpa [Denied] using hbearer
      exact Returns.pure (denied_executed id hdenied)
    · have hallowed : ¬ Denied env .getUserPosts := by simpa [Denied] using hbearer
      exact Returns.pure (closed_executed id hallowed)
    · have hallowed : ¬ Denied env .getUserPosts := by simpa [Denied] using hbearer
      exact Returns.pure (request_executed id hallowed id (by simp [AsksPhase]))
  | listWorkspace => exact Returns.pure (request_executed id id id (by simp [AsksPhase]))
  | readFile => exact Returns.pure (request_executed id id id (by simp [AsksPhase]))
  | writeFile => exact Returns.pure (bridgeWrite_executed id id)
  | applyPatch => exact Returns.pure (bridgeWrite_executed id id)
  | runProcess => exact Returns.pure (bridgeWrite_executed id id)
  | readProcessOutput => exact Returns.pure (request_executed id id id (by simp [AsksPhase]))
  | _ => exact absurd hmem (by decide)

theorem executeTool_executed (h : executedTool call.name = some tool) :
    Returns (executeTool env call s) (Executed env tool call s) := by
  unfold executeTool
  rcases Option.or_eq_some_iff.mp h with hsync | ⟨hnone, hasync⟩
  · apply Returns.bind (executeSyncTool_executed hsync)
    intro r hr
    have hnone : firstNamed asyncTools call.name = none := (chains_agree call.name tool).2.2 hsync
    apply Returns.ite
    · exact fun _ => Returns.pure hr
    · intro _
      rw [executeAsyncTool, hnone]
      exact Returns.pure hr
  · rw [executeSyncTool, hnone]
    change Returns (executeAsyncTool env call.name { s with call } >>= fun r => pure r.1) _
    apply Returns.bind (executeAsyncTool_executed hasync)
    intro next hnext
    exact Returns.pure hnext

end Tools

section Completion

variable {env : LoopEnv} {o : FetchOutcome} {s mid next : Loop} {tool result : Bytes} {key : Option Bytes}

/-- The output of a process answers the request of the user by itself. -/
def AnswersDirectly (result : Bytes) (s : Loop) : Prop :=
  startsWithTool s.call.name (ascii "read_process_output") = true ∧
    ∃ text, directProcessOutput s.goal result = .ok (some text)

/-- After the result of a tool the model is asked again. -/
def GoesOn (result : Bytes) (s : Loop) : Prop :=
  (s.step + 1) % 256 ≤ m4LoopMaxSteps ∧ ¬ AnswersDirectly result s

theorem directProcessOutput_returns (goal result : Bytes) : Returns (directProcessOutput goal result) fun _ => True := by
  unfold directProcessOutput
  apply Returns.ite
  · exact fun _ => Returns.pure trivial
  intro _
  apply Returns.bind (jsonExtractU64_returns le_rfl)
  intro exitCode _
  apply Returns.ite
  · exact fun _ => Returns.pure trivial
  intro _
  apply Returns.bind (jsonExtractStringLocal_returns _ _ _)
  intro stdout _
  apply Returns.bind (jsonExtractStringLocal_returns _ _ _)
  intro stderr _
  apply Returns.ite
  · exact fun _ => Returns.pure trivial
  · intro _
    apply Returns.ite
    · exact fun _ => Returns.pure trivial
    · exact fun _ => Returns.pure trivial

/-- What comes of going on. -/
structure Continued (env : LoopEnv) (s : Loop) (r : Loop × Bool) : Prop where
  asked : s.step ≤ m4LoopMaxSteps → ¬ AnswersDirectly s.toolResult s → Asked env s r
  closed : m4LoopMaxSteps < s.step ∨ AnswersDirectly s.toolResult s →
    ∃ text terminal, r = (closeTurn text terminal s, true)

theorem continueLoop_continued (env : LoopEnv) (s : Loop) : Returns (continueLoop env s) (Continued env s) := by
  unfold continueLoop
  by_cases hspent : m4LoopMaxSteps < s.step
  · rw [if_pos hspent]
    exact Returns.pure ⟨fun h => absurd hspent (by omega), fun _ => ⟨_, _, rfl⟩⟩
  rw [if_neg hspent]
  obtain ⟨output, houtput, -⟩ := directProcessOutput_returns s.goal s.toolResult
  by_cases hname : startsWithTool s.call.name (ascii "read_process_output") = true
  · rw [if_pos hname, houtput, ok_bind]
    cases output with
    | some text =>
      have hdirect : AnswersDirectly s.toolResult s := ⟨hname, text, houtput⟩
      exact Returns.pure ⟨fun _ hnot => absurd hdirect hnot, fun _ => ⟨text, _, rfl⟩⟩
    | none =>
      have hnot : ¬ AnswersDirectly s.toolResult s := by
        rintro ⟨-, text, htext⟩
        rw [houtput] at htext
        cases htext
      refine (startM4ModelTurn_asked env s).mono fun r hr => ⟨fun _ _ => hr, fun h => ?_⟩
      exact absurd h (not_or.mpr ⟨hspent, hnot⟩)
  · rw [if_neg hname]
    have hnot : ¬ AnswersDirectly s.toolResult s := fun h => hname h.1
    refine (startM4ModelTurn_asked env s).mono fun r hr => ⟨fun _ _ => hr, fun h => ?_⟩
    exact absurd h (not_or.mpr ⟨hspent, hnot⟩)

/-- What comes of a tool that succeeded. -/
structure Completed (env : LoopEnv) (key : Option Bytes) (s mid : Loop) (r : Loop × Bool) : Prop where
  prepared : Prepared [.completed true, .recorded s.call.name s.toolResult] s mid
  step : mid.step = (s.step + 1) % 256
  state : s.started = true → mid.state = autoStore key s.toolResult s.state
  asked : GoesOn s.toolResult s → Asked env mid r
  closed : ¬ GoesOn s.toolResult s → ∃ text terminal, r = (closeTurn text terminal mid, true)

theorem completeTool_completed (env : LoopEnv) (key : Option Bytes) (s : Loop) :
    Returns (completeToolAndContinue env true key s) fun r => ∃ mid, Completed env key s mid r := by
  unfold completeToolAndContinue
  dsimp only
  rw [if_neg (by simp)]
  apply Returns.bind (appendToolResult_recorded _ _ _)
  intro kept hkept
  have hdirect : AnswersDirectly kept.nextStep.toolResult kept.nextStep ↔ AnswersDirectly s.toolResult s := by
    have hcall : kept.nextStep.call = s.call := hkept.call
    have hgoal : kept.nextStep.goal = s.goal := hkept.goal
    have hresult : kept.nextStep.toolResult = s.toolResult := hkept.toolResult
    unfold AnswersDirectly
    rw [hcall, hgoal, hresult]
  have hstep : kept.nextStep.step = (s.step + 1) % 256 := congrArg (fun n => (n + 1) % 256) hkept.step
  refine (continueLoop_continued env kept.nextStep).mono fun r hr => ⟨kept.nextStep, ?_⟩
  constructor
  · constructor
    · simpa [Loop.nextStep, Loop.act] using hkept.turn
    · exact hkept.active
    · exact fun _ => hkept.started
    · exact hkept.retries
    · exact hkept.hostBridge
  · exact hstep
  · exact hkept.state
  · intro ⟨hle, hnot⟩
    exact hr.asked (hstep ▸ hle) (fun h => hnot (hdirect.mp h))
  · intro hnot
    apply hr.closed
    by_contra hgoes
    rw [not_or, hdirect, hstep] at hgoes
    exact hnot ⟨Nat.not_lt.mp hgoes.1, hgoes.2⟩

theorem completeTool_error (env : LoopEnv) (key : Option Bytes) (s : Loop) :
    completeToolAndContinue env false key s = .ok (closeTurn s.toolResult .failed (s.act (.completed false)), true) := rfl

end Completion

section Outcomes

variable {env : LoopEnv} {o : FetchOutcome} {s mid next : Loop} {c : PromptContext} {response : Bytes}

theorem buildOpenaiFailureReason_returns (phase : String) (o : FetchOutcome) :
    Returns (buildOpenaiFailureReason phase o) fun _ => True := by
  unfold buildOpenaiFailureReason
  dsimp only
  apply Returns.ite
  · exact fun _ => Returns.pure trivial
  intro _
  apply Returns.ite
  · exact fun _ => Returns.pure trivial
  intro _
  apply Returns.ite
  · exact fun _ => Returns.pure trivial
  intro _
  apply Returns.bind ((jsonExtractString_returns le_rfl).mono fun _ _ => trivial)
  intro message _
  apply Returns.bind (trimText_returns _)
  intro message _
  apply Returns.bind ((jsonExtractString_returns le_rfl).mono fun _ _ => trivial)
  intro code _
  apply Returns.bind (trimText_returns _)
  intro code _
  apply Returns.ite
  · exact fun _ => Returns.pure trivial
  · exact fun _ => Returns.pure trivial

/-- What the loop makes of a reply: no reason to retry names a call, and a call names a tool. -/
def ReplyNames : Except Bytes Reply → Prop
  | .ok (.tool call) => ∃ tool, executedTool call.name = some tool
  | _ => True

theorem parseTool_names {name : Bytes} (hname : name.length ≤ m4ToolNameMax) (response : Bytes) :
    Returns (parseM4ToolFromResponse response name) fun call => ReplyNames (toolReply call) := by
  unfold parseM4ToolFromResponse
  cases hnamed : firstNamed parsedTools name with
  | none => exact Returns.pure trivial
  | some tool =>
    dsimp only
    apply Returns.bind (toolArguments_returns response tool)
    intro arguments _
    apply Returns.pure
    cases arguments with
    | error reason => trivial
    | ok args =>
      refine ⟨tool, ?_⟩
      change executedTool (setToolCall name args.1 args.2).name = some tool
      unfold setToolCall
      rw [List.take_of_length_le hname]
      exact executedTool_iff.mpr (parsedTool_iff.mp hnamed)

theorem looksLikeJsonObjectText_returns (text : Bytes) : Returns (looksLikeJsonObjectText text) fun _ => True := by
  unfold looksLikeJsonObjectText
  apply Returns.bind (trimText_returns text)
  exact fun _ _ => Returns.pure trivial

/-- What holds of every reason, of every answer and of every call that a name leads to. -/
structure ReplyRule (response : Bytes) (P : Except Bytes Reply → Prop) : Prop where
  refused : ∀ reason, P (.error reason)
  answered : ∀ text refused, P (.ok (.final text refused))
  called : ∀ name : Bytes, name.length ≤ m4ToolNameMax →
    Returns (parseM4ToolFromResponse response name) fun call => P (toolReply call)

theorem ReplyRule.named {P : Except Bytes Reply → Prop} {name : Bytes} (h : ReplyRule response P)
    (hname : name.length ≤ m4ToolNameMax) : Returns (toolReply <$> parseM4ToolFromResponse response name) P :=
  returns_map.mpr (h.called name hname)

theorem ReplyRule.implicit {P : Except Bytes Reply → Prop} (h : ReplyRule response P) (goal : Bytes) :
    Returns (tryParseM4ImplicitTool goal response) fun r => ∀ call, r = some call → P (toolReply call) := by
  have hsome : ∀ name : Bytes, name.length ≤ m4ToolNameMax →
      Returns (some <$> parseM4ToolFromResponse response name) fun r =>
        ∀ call, r = some call → P (toolReply call) := by
    intro name hname
    rw [returns_map]
    refine (h.called name hname).mono fun call hcall other hother => ?_
    obtain rfl := Option.some.inj hother
    exact hcall
  have hnone : Returns (pure none : Checked (Option (Except Bytes ToolCall))) fun r =>
      ∀ call, r = some call → P (toolReply call) := by
    apply Returns.pure
    intro call hcall
    cases hcall
  have hkey : ∀ key : String, ∃ found, jsonHasKeyLocal response (ascii key) = .ok found := by
    intro key
    obtain ⟨found, hfound, -⟩ := jsonHasKeyLocal_returns response (ascii key)
    exact ⟨found, hfound⟩
  obtain ⟨kind, hkind⟩ := hkey "type"
  obtain ⟨tool, htool⟩ := hkey "tool"
  obtain ⟨text, htext⟩ := hkey "response"
  obtain ⟨query, hquery⟩ := hkey "query"
  obtain ⟨username, husername⟩ := hkey "username"
  unfold tryParseM4ImplicitTool
  rw [hkind, ok_bind, htool, ok_bind, htext, ok_bind]
  apply Returns.ite
  · exact fun _ => hnone
  intro _
  rw [hquery, ok_bind]
  apply Returns.ite
  · intro _
    apply hsome
    split_ifs
    · decide
    · decide
  intro _
  rw [husername, ok_bind]
  apply Returns.ite
  · exact fun _ => hsome _ (by decide)
  · exact fun _ => hnone

/-- It holds of every reply. -/
theorem ReplyRule.returns {P : Except Bytes Reply → Prop} (h : ReplyRule response P) (c : PromptContext) :
    Returns (parseM4Reply c response) P := by
  have hfinal : Returns (parseM4FinalFromResponse c response) P := by
    refine (parseM4Final_returns c response).mono fun reply hreply => ?_
    rcases hreply with ⟨reason, rfl⟩ | ⟨text, refused, rfl⟩
    · exact h.refused reason
    · exact h.answered text refused
  obtain ⟨kind, hkind, hkindLength, -⟩ := stringBehind_cut response (ascii "type") m4ToolNameMax
  obtain ⟨tool, htool, htoolLength, -⟩ := stringBehind_cut response (ascii "tool") m4ToolNameMax
  obtain ⟨text, htext, -⟩ := stringBehind_cut response (ascii "response") 1024
  unfold parseM4Reply
  rw [hkind, ok_bind]
  apply Returns.ite
  · intro _
    apply Returns.ite
    · exact fun _ => hfinal
    intro _
    apply Returns.ite
    · exact fun _ => Returns.pure (h.refused _)
    intro _
    rw [htool, ok_bind]
    dsimp only
    apply Returns.ite
    · exact fun _ => Returns.pure (h.refused _)
    · intro _
      apply h.named
      split_ifs
      · exact hkindLength
      · exact htoolLength
  intro _
  rw [htool, ok_bind]
  apply Returns.ite
  · exact fun _ => h.named htoolLength
  intro _
  rw [htext, ok_bind]
  apply Returns.ite
  · exact fun _ => hfinal
  intro _
  apply Returns.bind (looksLikeJsonObjectText_returns response)
  intro object _
  apply Returns.ite
  · intro _
    apply Returns.bind (h.implicit _)
    intro call hcall
    cases call with
    | none => exact Returns.pure (h.refused _)
    | some call => exact Returns.pure (hcall call rfl)
  · exact fun _ => hfinal

theorem parseM4Reply_names (c : PromptContext) (response : Bytes) : Returns (parseM4Reply c response) ReplyNames := by
  have hrule : ReplyRule response ReplyNames := by
    constructor
    · exact fun _ => trivial
    · exact fun _ _ => trivial
    · exact fun _ hname => parseTool_names hname response
  exact hrule.returns c

theorem outcome_small (o : FetchOutcome) : o.capture.body.length < 2 ^ 64 := lt_of_le_of_lt o.bounded (by decide)

theorem parseM4ModelResponse_names (o : FetchOutcome) (c : PromptContext) :
    Returns (parseM4ModelResponse o c) ReplyNames := by
  unfold parseM4ModelResponse
  apply Returns.bind (extractOpenaiOutputText_returns (outcome_small o) _ _)
  intro text _
  cases text with
  | none => exact Returns.pure trivial
  | some text =>
    apply Returns.ite
    · exact fun _ => Returns.pure trivial
    · exact fun _ => parseM4Reply_names c text

/-- What comes of a request to the model. -/
inductive ModelDone (env : LoopEnv) (o : FetchOutcome) (s : Loop) : Loop → Prop where
  | retried {r : Loop × Bool} : o.success = false → openaiFailureRetryable o = true → s.retries < m4OpenaiMaxRetries →
      Asked env { s with retries := s.retries + 1 } r → ModelDone env o s r.1
  | failed (reason : Bytes) : o.success = false →
      ¬ (openaiFailureRetryable o = true ∧ s.retries < m4OpenaiMaxRetries) →
      ModelDone env o s (closeTurn reason .failed s)
  | answered {text : Bytes} {refused : Bool} (terminal : Terminal) : o.success = true →
      parseM4ModelResponse o s.context = .ok (.ok (.final text refused)) →
      ModelDone env o s (closeTurn text terminal { s with toolResult := text })
  | executed {call : ToolCall} {tool : Tool} {next : Loop} : o.success = true →
      parseM4ModelResponse o s.context = .ok (.ok (.tool call)) → executedTool call.name = some tool →
      Executed env tool call s next → ModelDone env o s next
  | reparsed {reason : Bytes} {r : Loop × Bool} : o.success = true →
      parseM4ModelResponse o s.context = .ok (.error reason) → s.retries < m4OpenaiMaxRetries →
      Asked env { s with retries := s.retries + 1 } r →
      ModelDone env o s (if r.2 then r.1 else closeTurn (ascii "invalid model response") .failed r.1)
  | unparsed {reason : Bytes} : o.success = true → parseM4ModelResponse o s.context = .ok (.error reason) →
      ¬ s.retries < m4OpenaiMaxRetries → ModelDone env o s (closeTurn (ascii "invalid model response") .failed s)

theorem modelDone_returns (env : LoopEnv) (o : FetchOutcome) (s : Loop) :
    Returns (modelDone env o s) fun r => ModelDone env o s r.1 := by
  unfold modelDone
  by_cases hsuccess : o.success = true
  swap
  · rw [if_pos (by simp [hsuccess])]
    rw [Bool.not_eq_true] at hsuccess
    apply Returns.ite
    · intro hretry
      rw [Bool.and_eq_true, decide_eq_true_eq] at hretry
      exact (startM4ModelTurn_asked env _).mono fun r hr => .retried hsuccess hretry.1 hretry.2 hr
    · intro hlast
      rw [Bool.and_eq_true, decide_eq_true_eq] at hlast
      apply Returns.bind (buildOpenaiFailureReason_returns "openai loop" o)
      intro reason _
      exact Returns.pure (.failed reason hsuccess hlast)
  rw [if_neg (by simp [hsuccess])]
  obtain ⟨reply, hreply, hnames⟩ := parseM4ModelResponse_names o s.context
  rw [hreply, ok_bind]
  rcases reply with reason | ⟨text, refused⟩ | call
  · apply Returns.ite
    · intro hretries
      apply Returns.bind (startM4ModelTurn_asked env _)
      intro r hr
      have hdone := ModelDone.reparsed hsuccess hreply hretries hr
      obtain ⟨next, started⟩ := r
      cases started with
      | false => exact Returns.pure hdone
      | true => exact Returns.pure hdone
    · exact fun hretries => Returns.pure (.unparsed hsuccess hreply hretries)
  · exact Returns.pure (.answered _ hsuccess hreply)
  · obtain ⟨tool, htool⟩ := hnames
    apply Returns.bind (executeTool_executed htool)
    intro next hnext
    exact Returns.pure (.executed hsuccess hreply htool hnext)

/-- A summary can be asked for: there is a header, or a bridge that needs none, and the request starts. -/
def MaySummarize (env : LoopEnv) (s : Loop) : Prop :=
  (useHostOpenaiBridge env s = true ∨ env.apiHeader = true) ∧ env.starts = true

/-- What comes of asking for a summary. -/
inductive Summarizing (env : LoopEnv) (s : Loop) : Loop → Prop where
  | sent : MaySummarize env s → Summarizing env s (sendRequest .summary .m4SummaryModel s)
  | closed (text : Bytes) : ¬ MaySummarize env s → Summarizing env s (closeTurn text .failed s)

theorem startM4SummaryModelTurn_summarizing (env : LoopEnv) (s : Loop) :
    Summarizing env s (startM4SummaryModelTurn env s).1 := by
  unfold startM4SummaryModelTurn
  by_cases hheader : (! useHostOpenaiBridge env s && ! env.apiHeader) = true
  · rw [if_pos hheader]
    refine .closed _ fun h => ?_
    rcases h.1 with hbridge | hkey
    · simp [hbridge] at hheader
    · simp [hkey] at hheader
  · have hmay : useHostOpenaiBridge env s = true ∨ env.apiHeader = true := by
      by_contra hnone
      simp only [not_or, Bool.not_eq_true] at hnone
      simp [hnone] at hheader
    rw [if_neg hheader, startRequest_eq]
    split_ifs with hstarts
    · exact .sent ⟨hmay, hstarts⟩
    · exact .closed _ fun h => hstarts h.2

/-- What comes of a request for a summary. -/
inductive SummaryDone (env : LoopEnv) (o : FetchOutcome) (s : Loop) : Loop → Prop where
  | retried {next : Loop} : o.success = false → openaiFailureRetryable o = true → s.retries < m4OpenaiMaxRetries →
      Summarizing env { s with retries := s.retries + 1 } next → SummaryDone env o s next
  | closed (text : Bytes) (terminal : Terminal) :
      ¬ (o.success = false ∧ openaiFailureRetryable o = true ∧ s.retries < m4OpenaiMaxRetries) →
      SummaryDone env o s (closeTurn text terminal s)

theorem summaryDone_returns (env : LoopEnv) (o : FetchOutcome) (s : Loop) :
    Returns (summaryDone env o s) fun r => SummaryDone env o s r.1 := by
  unfold summaryDone
  by_cases hsuccess : o.success = true
  · have hended : ¬ (o.success = false ∧ openaiFailureRetryable o = true ∧ s.retries < m4OpenaiMaxRetries) := by
      simp [hsuccess]
    apply Returns.ite
    · exact fun _ => Returns.pure (.closed _ _ hended)
    intro _
    rw [if_neg (by simp [hsuccess])]
    apply Returns.bind (extractOpenaiOutputText_returns (outcome_small o) _ _)
    intro text _
    apply Returns.ite
    · exact fun _ => Returns.pure (.closed _ _ hended)
    · exact fun _ => Returns.pure (.closed _ _ hended)
  · rw [if_neg (by simp [hsuccess]), if_pos (by simp [hsuccess])]
    rw [Bool.not_eq_true] at hsuccess
    apply Returns.ite
    · intro hretry
      rw [Bool.and_eq_true, decide_eq_true_eq] at hretry
      exact Returns.pure (.retried hsuccess hretry.1 hretry.2 (startM4SummaryModelTurn_summarizing env _))
    · intro hlast
      rw [Bool.and_eq_true, decide_eq_true_eq] at hlast
      apply Returns.bind (buildOpenaiFailureReason_returns "openai summary" o)
      intro reason _
      exact Returns.pure (.closed reason _ fun h => hlast h.2)

/-- What comes of a request to the bridge. -/
inductive BridgeDone (env : LoopEnv) (o : FetchOutcome) (s : Loop) : Loop → Prop where
  | truncated (text : Bytes) : o.capture.truncated = true →
      BridgeDone env o s (closeTurn text .failed ({ s with toolResult := text }.act (.completed false)))
  | completed {result : Bytes} {mid : Loop} {r : Loop × Bool} : o.capture.truncated = false →
      bridgeResult o = .ok result →
      Completed env none { s with toolResult := result, hostBridge := bridgeToolPrefersHostOpenai s.call.name } mid r →
      BridgeDone env o s r.1

theorem captureRawResponseBody_returns (body : Bytes) : Returns (captureRawResponseBody body) fun _ => True :=
  returns_map.mpr (trimText_returns body)

theorem bridgeResult_returns (o : FetchOutcome) : Returns (bridgeResult o) (· ≠ []) := by
  unfold bridgeResult
  apply Returns.bind (captureRawResponseBody_returns _)
  intro captured _
  apply Returns.pure
  split_ifs with hempty
  · unfold failureReasonOr
    split_ifs with hreason
    · decide
    · simpa [toolResultLimit] using hreason
  · exact hempty

theorem bridgeDone_returns (env : LoopEnv) (o : FetchOutcome) (s : Loop) :
    Returns (bridgeDone env o s) fun r => BridgeDone env o s r.1 := by
  unfold bridgeDone
  apply Returns.ite
  · intro htruncated
    rw [completeTool_error]
    exact returns_ok.mpr (.truncated _ htruncated)
  intro hwhole
  rw [Bool.not_eq_true] at hwhole
  obtain ⟨result, hresult, hne⟩ := bridgeResult_returns o
  rw [hresult, ok_bind]
  dsimp only
  rw [if_neg hne, decide_eq_true hne]
  refine (completeTool_completed env none _).mono fun r hr => ?_
  obtain ⟨mid, hmid⟩ := hr
  exact .completed hwhole hresult hmid

theorem fetchedResult_returns (o : FetchOutcome) (s : Loop) : Returns (fetchedResult o s) fun _ => True := by
  unfold fetchedResult
  dsimp only
  apply Returns.ite
  · intro _
    apply Returns.bind (captureRawResponseBody_returns _)
    exact fun _ _ => Returns.pure trivial
  intro _
  apply Returns.ite
  · exact fun _ => Returns.pure trivial
  · intro _
    apply Returns.bind (buildOpenaiFailureReason_returns _ o)
    exact fun _ _ => Returns.pure trivial

/-- A page that is to be summarized. -/
def Summarized (s : Loop) : Prop := s.phase = .m4FetchUrl ∧ goalLooksLikeSummaryRequest s.goal = true

/-- The result of a fetch, of which a page is only shown in part. -/
def keptResult (o : FetchOutcome) (result : Bytes) (s : Loop) : Bytes :=
  if s.phase = .m4FetchUrl then compactFetchPreview toolResultLimit result o.capture.truncated else result

/-- What is kept of a fetch before its tool is completed. -/
structure Fetched (o : FetchOutcome) (result : Bytes) (s kept : Loop) : Prop where
  toolResult : kept.toolResult = keptResult o result s
  turn : kept.turn = s.turn
  started : kept.started = s.started
  active : kept.active = s.active
  retries : kept.retries = s.retries
  hostBridge : kept.hostBridge = s.hostBridge
  step : kept.step = s.step
  call : kept.call = s.call
  goal : kept.goal = s.goal

/-- What comes of the request of a tool. -/
inductive ToolDone (env : LoopEnv) (o : FetchOutcome) (s : Loop) : Loop → Prop where
  | failed {result : Bytes} : fetchedResult o s = .ok (false, result) →
      ToolDone env o s (closeTurn result .failed ({ s with toolResult := result }.act (.completed false)))
  | searched {result : Bytes} {mid : Loop} {r : Loop × Bool} : fetchedResult o s = .ok (true, result) → IsSearch s →
      Completed env (some (ascii "last_posts")) { s with toolResult := result } mid r → ToolDone env o s r.1
  | summarized {result : Bytes} {mid next : Loop} : fetchedResult o s = .ok (true, result) → Summarized s →
      mid.turn = s.turn ++ [.completed true, .recorded s.call.name mid.toolResult] → mid.active = s.active →
      mid.started = true → mid.retries = 0 → Summarizing env mid next → ToolDone env o s next
  | completed {result : Bytes} {kept mid : Loop} {r : Loop × Bool} : fetchedResult o s = .ok (true, result) →
      ¬ IsSearch s → ¬ Summarized s → Fetched o result s kept → Completed env none kept mid r → ToolDone env o s r.1

theorem toolDone_returns (env : LoopEnv) (o : FetchOutcome) (s : Loop) :
    Returns (toolDone env o s) fun r => ToolDone env o s r.1 := by
  obtain ⟨⟨okStatus, result⟩, hfetched, -⟩ := fetchedResult_returns o s
  unfold toolDone
  rw [hfetched, ok_bind]
  dsimp only
  by_cases hsearch : IsSearch s
  · rw [if_pos (by exact hsearch)]
    cases okStatus with
    | false => exact returns_ok.mpr (.failed hfetched)
    | true =>
      refine (completeTool_completed env _ _).mono fun r hr => ?_
      obtain ⟨mid, hmid⟩ := hr
      exact .searched hfetched hsearch hmid
  rw [if_neg (by exact hsearch)]
  cases okStatus with
  | false =>
    rw [if_neg (by simp)]
    exact returns_ok.mpr (.failed hfetched)
  | true =>
    by_cases hfetch : s.phase = .m4FetchUrl
    swap
    · rw [if_neg (fun h => hfetch h.1)]
      refine (completeTool_completed env _ _).mono fun r hr => ?_
      obtain ⟨mid, hmid⟩ := hr
      refine .completed hfetched hsearch (fun h => hfetch h.1) ⟨(if_neg hfetch).symm, ?_, ?_, ?_, ?_, ?_, ?_, ?_, ?_⟩ hmid
      all_goals rfl
    · rw [if_pos ⟨hfetch, rfl⟩]
      by_cases hsummary : goalLooksLikeSummaryRequest s.goal = true
      · rw [if_pos hsummary]
        apply Returns.bind (appendToolResult_recorded _ _ _)
        intro kept hkept
        refine Returns.pure
          (.summarized hfetched ⟨hfetch, hsummary⟩ ?_ ?_ ?_ rfl (startM4SummaryModelTurn_summarizing env _))
        · simp [Loop.nextStep, Loop.act, hkept.turn, hkept.toolResult]
        · exact hkept.active
        · exact hkept.started
      · rw [if_neg hsummary]
        refine (completeTool_completed env _ _).mono fun r hr => ?_
        obtain ⟨mid, hmid⟩ := hr
        refine .completed hfetched hsearch (fun h => hsummary h.2) ⟨(if_pos hfetch).symm, ?_, ?_, ?_, ?_, ?_, ?_, ?_, ?_⟩ hmid
        all_goals rfl

/-- What comes of the end of the loop's request. -/
inductive FetchDone (env : LoopEnv) (o : FetchOutcome) (s : Loop) (next : Loop) : Prop where
  | model : s.phase = .m4Model → ModelDone env o { s with inFlight := false } next → FetchDone env o s next
  | summary : s.phase = .m4SummaryModel → SummaryDone env o { s with inFlight := false } next → FetchDone env o s next
  | bridge : s.phase = .m5BridgeTool → BridgeDone env o { s with inFlight := false } next → FetchDone env o s next
  | tool : s.phase ≠ .m4Model → s.phase ≠ .m4SummaryModel → s.phase ≠ .m5BridgeTool →
      ToolDone env o { s with inFlight := false } next → FetchDone env o s next

theorem handleM4FetchDone_returns (env : LoopEnv) (o : FetchOutcome) (h : s.active = true) :
    Returns (handleM4FetchDone env o s) fun r => FetchDone env o s r.1 := by
  unfold handleM4FetchDone
  rw [if_neg (by simp [h])]
  dsimp only
  split
  · next hphase => exact (modelDone_returns env o _).mono fun _ hr => .model hphase hr
  · next hphase => exact (summaryDone_returns env o _).mono fun _ hr => .summary hphase hr
  · next hphase => exact (bridgeDone_returns env o _).mono fun _ hr => .bridge hphase hr
  · next hmodel hsummary hbridge => exact (toolDone_returns env o _).mono fun _ hr => .tool hmodel hsummary hbridge hr

end Outcomes

section Events

variable {env : LoopEnv} {line response : Bytes} {s next : Loop} {event : LoopEvent} {o : FetchOutcome} {c : PromptContext}

/-- A line that begins a turn. -/
def Accepted (env : LoopEnv) (line : Bytes) (s : Loop) : Prop :=
  isM4Candidate line = true ∧ s.active = false ∧ env.busy = false

instance (env : LoopEnv) (line : Bytes) (s : Loop) : Decidable (Accepted env line s) :=
  inferInstanceAs (Decidable (_ ∧ _))

/-- What comes of a line. -/
inductive Lined (env : LoopEnv) (line : Bytes) (s : Loop) : Loop → Prop where
  | ignored : ¬ Accepted env line s → Lined env line s s
  | answered (text : Bytes) : Accepted env line s → looksLikeToolInventoryRequest (m4Goal line) = true →
      Lined env line s (closeTurn text .completed (beginTurn (m4Goal line) s))
  | asked {r : Loop × Bool} : Accepted env line s → looksLikeToolInventoryRequest (m4Goal line) = false →
      Asked env (beginTurn (m4Goal line) s) r → Lined env line s r.1

theorem handleM4GoalLine_returns (env : LoopEnv) (line : Bytes) (s : Loop) :
    Returns (handleM4GoalLine env line s) (Lined env line s) := by
  unfold handleM4GoalLine
  apply Returns.ite
  · intro hcandidate
    refine Returns.pure (.ignored fun h => ?_)
    rw [h.1] at hcandidate
    cases hcandidate
  intro hcandidate
  apply Returns.ite
  · intro hbusy
    refine Returns.pure (.ignored fun h => ?_)
    rw [h.2.1, h.2.2] at hbusy
    cases hbusy
  intro hidle
  have haccepted : Accepted env line s := by simpa [Accepted] using And.intro hcandidate hidle
  apply Returns.ite
  · exact fun hinventory => Returns.pure (.answered _ haccepted hinventory)
  · intro hinventory
    rw [returns_map]
    exact (startM4ModelTurn_asked env _).mono fun r hr => .asked haccepted (by simpa using hinventory) hr

/-- What comes of an event. -/
inductive Handled (s : Loop) : LoopEvent → Loop → Prop where
  | line {env : LoopEnv} {text : Bytes} {next : Loop} : Lined env text s next → Handled s (.line env text) next
  | stray (env : LoopEnv) (o : FetchOutcome) : s.active = false → Handled s (.fetchDone env o) s
  | fetchDone {env : LoopEnv} {o : FetchOutcome} {next : Loop} : s.active = true → FetchDone env o s next →
      Handled s (.fetchDone env o) next
  | sessionReset : Handled s .sessionReset (sessionReset s)

/-- No event traps the loop. -/
theorem handle_returns (s : Loop) (event : LoopEvent) : Returns (s.handle event) (Handled s event) := by
  cases event with
  | line env text => exact (handleM4GoalLine_returns env text s).mono fun _ => .line
  | sessionReset => exact Returns.pure .sessionReset
  | fetchDone env o =>
    refine returns_map.mpr ?_
    by_cases hactive : s.active = true
    · exact (handleM4FetchDone_returns env o hactive).mono fun _ h => .fetchDone hactive h
    · unfold handleM4FetchDone
      rw [if_pos (by simp [hactive])]
      exact Returns.pure (.stray env o (by simpa using hactive))

theorem sessionLoop_allowed : sessionLoop.allowed s event ↔ event.Possible s := by
  obtain ⟨next, hnext, -⟩ := handle_returns s event
  change event.Possible s ∧ (s.handle event).toOption.isSome = true ↔ _
  rw [hnext]
  exact and_iff_left rfl

theorem sessionLoop_step (h : s.handle event = .ok next) : sessionLoop.step s event = next := by
  change (s.handle event).toOption.getD s = next
  rw [h]
  rfl

theorem sessionLoop_handled (s : Loop) (event : LoopEvent) : Handled s event (sessionLoop.step s event) := by
  obtain ⟨next, hnext, hhandled⟩ := handle_returns s event
  rwa [sessionLoop_step hnext]

/-- A request is in flight only in a turn. -/
def Awaits (s : Loop) : Prop := s.inFlight = true → s.active = true ∧ s.started = true

theorem closeTurn_awaits (text : Bytes) (terminal : Terminal) (s : Loop) : Awaits (closeTurn text terminal s) := by
  intro h
  cases h

theorem Asked.awaits {r : Loop × Bool} (h : Asked env s r) (hactive : s.active = true) (hstarted : s.started = true) :
    Awaits r.1 := by
  cases h with
  | sent body => exact fun _ => ⟨hactive, hstarted⟩
  | closed reason => exact closeTurn_awaits _ _ _
  | dropped =>
    intro h
    cases h

theorem ToolStarted.awaits (h : ToolStarted env s next) (hactive : s.active = true) (hstarted : s.started = true) :
    Awaits next := by
  cases h with
  | sent => exact fun _ => ⟨hactive, hstarted⟩
  | closed text terminal => exact closeTurn_awaits _ _ _

theorem Summarizing.awaits (h : Summarizing env s next) (hactive : s.active = true) (hstarted : s.started = true) :
    Awaits next := by
  cases h with
  | sent => exact fun _ => ⟨hactive, hstarted⟩
  | closed text => exact closeTurn_awaits _ _ _

theorem Executed.awaits {tool : Tool} {call : ToolCall} (h : Executed env tool call s next) (hactive : s.active = true)
    (hstarted : s.started = true) : Awaits next := by
  by_cases hatOnce : AtOnce tool call s
  · obtain ⟨result, mid, started, hprepared, -, hasked⟩ := h.atOnce hatOnce
    exact hasked.awaits (hprepared.active.trans hactive) (hprepared.started hstarted)
  · cases h.deferred hatOnce with
    | denied text terminal => exact closeTurn_awaits _ _ _
    | refused text terminal => exact closeTurn_awaits _ _ _
    | called _ hproper => exact hproper.awaits hactive hstarted

theorem Completed.awaits {key : Option Bytes} {mid : Loop} {r : Loop × Bool} (h : Completed env key s mid r)
    (hactive : s.active = true) (hstarted : s.started = true) : Awaits r.1 := by
  by_cases hgoes : GoesOn s.toolResult s
  · exact (h.asked hgoes).awaits (h.prepared.active.trans hactive) (h.prepared.started hstarted)
  · obtain ⟨text, terminal, rfl⟩ := h.closed hgoes
    exact closeTurn_awaits _ _ _

theorem FetchDone.awaits {o : FetchOutcome} (h : FetchDone env o s next) (hactive : s.active = true)
    (hstarted : s.started = true) : Awaits next := by
  cases h with
  | model _ hmodel =>
    cases hmodel with
    | retried _ _ _ hasked => exact hasked.awaits hactive hstarted
    | failed reason => exact closeTurn_awaits _ _ _
    | answered terminal => exact closeTurn_awaits _ _ _
    | executed _ _ _ hexecuted => exact hexecuted.awaits hactive hstarted
    | reparsed _ _ _ hasked =>
      split_ifs
      · exact hasked.awaits hactive hstarted
      · exact closeTurn_awaits _ _ _
    | unparsed => exact closeTurn_awaits _ _ _
  | summary _ hsummary =>
    cases hsummary with
    | retried _ _ _ hproper => exact hproper.awaits hactive hstarted
    | closed text terminal => exact closeTurn_awaits _ _ _
  | bridge _ hbridge =>
    cases hbridge with
    | truncated text => exact closeTurn_awaits _ _ _
    | completed _ _ hcompleted => exact hcompleted.awaits hactive hstarted
  | tool _ _ _ htool =>
    cases htool with
    | failed => exact closeTurn_awaits _ _ _
    | searched _ _ hcompleted => exact hcompleted.awaits hactive hstarted
    | summarized _ _ _ hmid hmidStarted _ hproper => exact hproper.awaits (hmid.trans hactive) hmidStarted
    | completed _ _ _ hfetched hcompleted =>
      exact hcompleted.awaits (hfetched.active.trans hactive) (hfetched.started.trans hstarted)

theorem beginTurn_started (goal : Bytes) (s : Loop) : (beginTurn goal s).started = true := by
  simp [beginTurn, appendUserTurn]

theorem Handled.awaits (h : Handled s event next) (hs : Awaits s) (hpossible : event.Possible s) : Awaits next := by
  cases h with
  | line hline =>
    cases hline with
    | ignored => exact hs
    | answered text => exact closeTurn_awaits _ _ _
    | asked _ _ hasked =>
      refine hasked.awaits ?_ (beginTurn_started _ _)
      simp [beginTurn, appendUserTurn]
  | stray env o => exact hs
  | fetchDone hactive hdone => exact hdone.awaits hactive (hs hpossible).2
  | sessionReset => exact fun hflight => ⟨(hs hflight).1, rfl⟩

theorem reachable_awaits (h : sessionLoop.Reachable s) : Awaits s := by
  apply h.invariant
  · rintro _ rfl hflight
    cases hflight
  · intro s event hs hallowed
    exact (sessionLoop_handled s event).awaits hs (sessionLoop_allowed.mp hallowed)

/-- An event that the loop meets in the last state of a run. -/
theorem leads_handle {events : List LoopEvent} (h : sessionLoop.Leads {} events s) (hpossible : event.Possible s)
    (hnext : s.handle event = .ok next) : sessionLoop.Leads {} (events ++ [event]) next := by
  have hlast := h.snoc (sessionLoop_allowed.mpr hpossible)
  rwa [sessionLoop_step hnext] at hlast

/-- A reply that names a tool is read without what the loop knows. -/
theorem parseM4Reply_tool {kind name : Bytes} (hkind : jsonExtractStringLocal response (ascii "type") m4ToolNameMax = .ok kind)
    (htype : kind = ascii "tool") (hname : jsonExtractStringLocal response (ascii "tool") m4ToolNameMax = .ok name)
    (hne : name ≠ []) : parseM4Reply c response = toolReply <$> parseM4ToolFromResponse response name := by
  subst htype
  have hlead : (! startsWithTool (ascii "tool") (ascii "tool") && ! isSupportedM4ToolName (ascii "tool")) = false := by
    decide
  have hfinal : startsWithTool (ascii "tool") (ascii "final") = false := by decide
  unfold parseM4Reply
  rw [hkind, ok_bind, if_pos (by decide), hfinal, if_neg Bool.false_ne_true, hlead, if_neg Bool.false_ne_true, hname,
    ok_bind]
  simp only [hne, false_and, if_false]

/-- A reply of the model calls a tool. -/
theorem handle_call {call : ToolCall} (hactive : s.active = true) (hphase : s.phase = .m4Model)
    (hsuccess : o.success = true) (hparse : parseM4ModelResponse o s.context = .ok (.ok (.tool call)))
    (hnext : executeTool env call { s with inFlight := false } = .ok next) :
    s.handle (.fetchDone env o) = .ok next := by
  have hmodel : modelDone env o { s with inFlight := false } = .ok (next, true) := by
    unfold modelDone
    rw [if_neg (by simp [hsuccess])]
    change (parseM4ModelResponse o s.context >>= _) = _
    rw [hparse, ok_bind]
    dsimp only
    rw [hnext]
    rfl
  have hdone : handleM4FetchDone env o s = modelDone env o { s with inFlight := false } := by
    unfold handleM4FetchDone
    rw [if_neg (by simp [hactive])]
    dsimp only
    split
    · rfl
    · next hother => exact absurd (hphase.symm.trans hother) (by decide)
    · next hother => exact absurd (hphase.symm.trans hother) (by decide)
    · next hother _ _ => exact absurd hphase hother
  change Prod.fst <$> handleM4FetchDone env o s = _
  rw [hdone, hmodel]
  rfl

theorem startM4ModelTurn_sent (hkey : ¬ LacksKey env s) (hstarts : env.starts = true) :
    ∃ body, startM4ModelTurn env s = .ok (sendRequest (.model body) .m4Model s, true) := by
  obtain ⟨r, hr, hasked⟩ := startM4ModelTurn_asked env s
  cases hasked with
  | sent body => exact ⟨body, hr⟩
  | closed _ _ hbusy => exact absurd hstarts (by simp [hbusy])
  | dropped hlacks => exact absurd hlacks hkey

end Events

section Runs

variable {env : LoopEnv} {s : Loop} {o : FetchOutcome} {events : List LoopEvent} {call : ToolCall} {tool : Tool}

/-- A reply of the model that has the text that was captured of it. -/
def replied (text body : Bytes) (bounded : body.length ≤ agentResponseBodyLen) : FetchOutcome :=
  ⟨true, 200, { body, outputText := text }, [], bounded⟩

/-- A response that is captured whole. -/
def received (body : Bytes) (bounded : body.length ≤ agentResponseBodyLen) : FetchOutcome :=
  ⟨true, 200, { body }, [], bounded⟩

theorem replied_parse {c : PromptContext} {text body : Bytes} {reply : Except Bytes Reply}
    (bounded : body.length ≤ agentResponseBodyLen) (hne : text ≠ []) (hlen : text.length ≤ 16384)
    (hreply : parseM4Reply c text = .ok reply) : parseM4ModelResponse (replied text body bounded) c = .ok reply := by
  unfold parseM4ModelResponse replied extractOpenaiOutputText
  rw [if_pos hne, List.take_of_length_le hlen]
  change (if text = [] then _ else parseM4Reply c text) = _
  rw [if_neg hne, hreply]

/-- The loop waits for the model. -/
structure Asking (s : Loop) : Prop where
  active : s.active = true
  started : s.started = true
  inFlight : s.inFlight = true
  phase : s.phase = .m4Model

theorem line_asked {goal : Bytes} (haccepted : Accepted {} goal {})
    (hplain : looksLikeToolInventoryRequest (m4Goal goal) = false) :
    ∃ body, sessionLoop.Leads {} [.line {} goal] (sendRequest (.model body) .m4Model (beginTurn (m4Goal goal) {})) ∧
      Asking (sendRequest (.model body) .m4Model (beginTurn (m4Goal goal) {})) := by
  obtain ⟨next, hnext, hhandled⟩ := handle_returns {} (.line {} goal)
  have hleads : sessionLoop.Leads {} [.line {} goal] next :=
    leads_handle (show sessionLoop.Leads {} [] {} from ⟨trivial, rfl⟩) trivial hnext
  cases hhandled with
  | line hline =>
    cases hline with
    | ignored hnot => exact absurd haccepted hnot
    | answered _ _ hinventory => exact absurd hinventory (by simp [hplain])
    | asked _ _ hasked =>
      cases hasked with
      | sent body => exact ⟨body, hleads, rfl, beginTurn_started _ _, rfl, rfl⟩
      | closed _ _ hbusy => cases hbusy
      | dropped hlacks => exact absurd hlacks.2 (by decide)

theorem Asking.called {next : Loop} (h : Asking s) (hleads : sessionLoop.Leads {} events s) (hsuccess : o.success = true)
    (hparse : parseM4ModelResponse o s.context = .ok (.ok (.tool call)))
    (hnext : executeTool env call { s with inFlight := false } = .ok next) :
    sessionLoop.Leads {} (events ++ [.fetchDone env o]) next := by
  have hpossible : LoopEvent.Possible s (.fetchDone env o) := h.inFlight
  exact leads_handle hleads hpossible (handle_call h.active h.phase hsuccess hparse hnext)

end Runs

end MiniAgentOS.Agent
