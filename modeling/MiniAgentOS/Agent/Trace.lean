import MiniAgentOS.Agent.MemoryView

/-! The trace that the agent writes to the serial line: each event is one line with one JSON object. -/
namespace MiniAgentOS.Agent

set_option maxRecDepth 4000

section Writers

/-- A field of an event. The names are those of the source; `raw` values are written as they are. -/
inductive TraceField where
  | string (name : String) (value : Bytes)
  | raw (name : String) (value : Bytes)
  | u64 (name : String) (value : ℕ)
  | bool (name : String) (value : Bool)
  | object (name : String) (members : List (String × Bytes))

structure TraceEvent where
  event : String
  step : ℕ
  fields : List TraceField

/-- `uart::write_str`. -/
def writeStr (text : Bytes) : Bytes := text.flatMap fun b => if b = lf then [cr, b] else [b]

/-- `trace_json_escaped`. -/
def traceJsonEscaped (value : Bytes) : Bytes := value.flatMap fun b => (escapeByte b).getD [b]

/-- A name in quotes behind a comma, and the colon. -/
def traceName (name : String) : Bytes := comma :: quote :: ascii name ++ [quote, colon]

/-- `trace_json_string_field`. -/
def traceJsonStringField (name : String) (value : Bytes) : Bytes :=
  traceName name ++ quote :: traceJsonEscaped value ++ [quote]

/-- `trace_json_u64_field`. -/
def traceJsonU64Field (name : String) (value : ℕ) : Bytes := traceName name ++ u64ToDec value

/-- `trace_json_bool_field`. -/
def traceJsonBoolField (name : String) (value : Bool) : Bytes :=
  traceName name ++ if value then ascii "true" else ascii "false"

def traceRawField (name : String) (value : Bytes) : Bytes := traceName name ++ quote :: value ++ [quote]

/-- The members of `arguments`. -/
def traceArguments : List (String × Bytes) → Bytes
  | [] => []
  | [(name, value)] => quote :: ascii name ++ [quote, colon, quote] ++ traceJsonEscaped value ++ [quote]
  | (name, value) :: next :: rest => quote :: ascii name ++ [quote, colon, quote] ++ traceJsonEscaped value ++
      [quote, comma] ++ traceArguments (next :: rest)

def traceObjectField (name : String) (members : List (String × Bytes)) : Bytes :=
  traceName name ++ openBrace :: traceArguments members ++ [closeBrace]

def TraceField.text : TraceField → Bytes
  | .string name value => traceJsonStringField name value
  | .raw name value => traceRawField name value
  | .u64 name value => traceJsonU64Field name value
  | .bool name value => traceJsonBoolField name value
  | .object name members => traceObjectField name members

/-- `trace_begin`, at a time of the clock. -/
def traceBegin (ms : ℕ) (event : String) (step : ℕ) : Bytes :=
  ascii "TRACE " ++ openBrace :: quote :: ascii "event" ++ [quote, colon, quote] ++ ascii event ++ [quote] ++
    traceName "ts_ms" ++ u64ToDec ms ++ traceName "step" ++ u64ToDec step

/-- What an event puts on the serial line when the trace is on. -/
def TraceEvent.line (ms : ℕ) (e : TraceEvent) : Bytes :=
  traceBegin ms e.event e.step ++ e.fields.flatMap TraceField.text ++ writeStr [closeBrace, lf]

/-- The functions return at once when the trace is off. -/
def emitTrace (enabled : Bool) (ms : ℕ) (e : TraceEvent) : Bytes := if enabled then e.line ms else []

end Writers

section Events

def traceEvent (event : String) (step : ℕ) : TraceEvent := ⟨event, step, []⟩

def traceSkillCalled (skill : Bytes) (step : ℕ) : TraceEvent := ⟨"skill_called", step, [.raw "skill" skill]⟩

def traceSkillResult (skill : Bytes) (step : ℕ) (status : Bytes) : TraceEvent :=
  ⟨"skill_result", step, [.raw "skill" skill, .raw "status" status]⟩

def tracePolicyChecked (skill : Bytes) (step : ℕ) (status : Bytes) : TraceEvent :=
  ⟨"policy_checked", step, [.raw "skill" skill, .raw "status" status]⟩

def traceSkillDenied (skill : Bytes) (step : ℕ) (reason : Bytes) : TraceEvent :=
  ⟨"skill_denied", step, [.raw "skill" skill, .raw "reason" reason]⟩

def traceGoalStatus (event : String) (step : ℕ) (status : Bytes) : TraceEvent := ⟨event, step, [.raw "status" status]⟩

def traceRetryScheduled (step : ℕ) (phase : Bytes) (attempt : ℕ) : TraceEvent :=
  ⟨"retry_scheduled", step, [.string "phase" phase, .u64 "attempt" attempt]⟩

def traceFetchPhaseChanged (step : ℕ) (phase : Bytes) (retry rounds : ℕ) (proxy : Bool) : TraceEvent :=
  ⟨"fetch_phase_changed", step,
    [.string "phase" phase, .u64 "retry" retry, .u64 "round" rounds, .bool "proxy" proxy]⟩

def traceFetchCacheHit (step : ℕ) (cache subject : Bytes) : TraceEvent :=
  ⟨"fetch_cache_hit", step, [.string "cache" cache, .string "subject" subject]⟩

def traceModelOutputPreview (step : ℕ) (text : Bytes) : TraceEvent :=
  ⟨"model_output_preview", step, [.string "text" text]⟩

def traceModelRequestSnapshot (step interactionId : ℕ) (phase model instructions input reasoningEffort : Bytes)
    (maxOutputTokens : ℕ) : TraceEvent :=
  ⟨"model_request_snapshot", step,
    [.u64 "interaction_id" interactionId, .string "phase" phase, .string "model" model,
      .string "instructions" instructions, .string "input" input, .string "reasoning_effort" reasoningEffort,
      .u64 "max_output_tokens" maxOutputTokens]⟩

def traceModelResponseSnapshot (step interactionId : ℕ) (phase : Bytes) (httpStatus : ℕ)
    (bodyTruncated parsedOutput : Bool) (text : Bytes) : TraceEvent :=
  ⟨"model_response_snapshot", step,
    [.u64 "interaction_id" interactionId, .string "phase" phase, .u64 "http_status" httpStatus,
      .bool "body_truncated" bodyTruncated, .bool "parsed_output" parsedOutput, .string "text" text]⟩

def traceModelParseError (step : ℕ) (reason : Bytes) : TraceEvent :=
  ⟨"model_parse_error", step, [.string "reason" reason]⟩

def traceToolCallWithArg (event : String) (step : ℕ) (tool : Bytes) (argName : String) (argValue : Bytes) : TraceEvent :=
  ⟨event, step, [.string "tool" tool, .object "arguments" [(argName, argValue)]]⟩

def traceToolCallWithTwoArgs (event : String) (step : ℕ) (tool : Bytes) (arg1Name : String) (arg1Value : Bytes)
    (arg2Name : String) (arg2Value : Bytes) : TraceEvent :=
  ⟨event, step, [.string "tool" tool, .object "arguments" [(arg1Name, arg1Value), (arg2Name, arg2Value)]]⟩

def traceToolCallWithoutArgs (event : String) (step : ℕ) (tool : Bytes) : TraceEvent :=
  ⟨event, step, [.string "tool" tool, .object "arguments" []]⟩

def traceToolCallCompleted (step : ℕ) (tool status : Bytes) : TraceEvent :=
  ⟨"tool_call_completed", step, [.string "tool" tool, .string "status" status]⟩

def traceToolCallDenied (step : ℕ) (tool reason : Bytes) : TraceEvent :=
  ⟨"tool_call_denied", step, [.string "tool" tool, .string "reason" reason]⟩

/-- A field that is left out when its value is empty. -/
def optionalField (name : String) (value : Bytes) : List TraceField :=
  if value = [] then [] else [.string name value]

def traceFetchResultSnapshot (step : ℕ) (ok : Bool) (status bodyLen : ℕ) (bodyTruncated : Bool) (transport : Bytes) :
    TraceEvent :=
  ⟨"fetch_result_snapshot", step,
    [.bool "ok" ok, .u64 "http_status" status, .u64 "body_len" bodyLen, .bool "body_truncated" bodyTruncated] ++
      optionalField "transport_reason" transport⟩

def traceModelRequestBuilt (step bodyLen : ℕ) : TraceEvent := ⟨"model_request_built", step, [.u64 "body_len" bodyLen]⟩

def traceModelTurnCompleted (step : ℕ) (stopReason : Bytes) : TraceEvent :=
  ⟨"model_turn_completed", step, [.string "stop_reason" stopReason]⟩

def traceContextSectionSnapshot (step interactionId : ℕ) (name : Bytes) (chars : ℕ) : TraceEvent :=
  ⟨"context_section_snapshot", step,
    [.u64 "interaction_id" interactionId, .string "name" name, .u64 "chars" chars]⟩

def traceLoopStopped (step : ℕ) (reason : Bytes) : TraceEvent := ⟨"loop_stopped", step, [.string "stop_reason" reason]⟩

def traceGoalCompiled : TraceEvent := ⟨"goal_compiled", 0, [.raw "kind" (ascii "agent_task")]⟩

def traceGoalCompilationFailed (reason : Bytes) : TraceEvent :=
  ⟨"goal_compilation_failed", 0, [.raw "reason" reason]⟩

def traceGoalCompilationFallback (reason : Bytes) : TraceEvent :=
  ⟨"goal_compilation_fallback", 0, [.string "reason" reason]⟩

def traceModelInterpretationResult (action : Bytes) : TraceEvent :=
  ⟨"model_interpretation_result", 0, [.string "action" action]⟩

def traceIntentCompiled (action sourceUrl sinkUrl : Bytes) (summarySentences : ℕ) (outputLanguage outputStyle : Bytes) :
    TraceEvent :=
  ⟨"intent_compiled", 0,
    [.string "interaction_kind" (ascii "task"), .string "action" action] ++ optionalField "source_url" sourceUrl ++
      optionalField "sink_url" sinkUrl ++ [.u64 "max_items" summarySentences] ++
      optionalField "output_language" outputLanguage ++ optionalField "style" outputStyle ++
      [.bool "requires_clarification" false]⟩

def fromStateField (state : MemoryState) : List TraceField :=
  if state = .none then [] else [.string "from_state" (stateName state)]

def traceMemoryEventLocal (event : String) (step : ℕ) (slot : MemorySlot) (fromState toState : MemoryState) :
    TraceEvent :=
  ⟨event, step,
    [.string "entry_id" slot.id, .string "kind" (kindName slot.kind)] ++ fromStateField fromState ++
      [.string "to_state" (stateName toState), .u64 "turn_index" slot.updatedTurn]⟩

/-- A slot without a kind or a summary is not shown. -/
def traceMemoryEntrySnapshotLocal (step : ℕ) (slot : MemorySlot) : Option TraceEvent :=
  if slot.kind = .none ∨ slot.summary.length = 0 then none
  else
    let chars := slot.summary.length + slot.detail.length
    some ⟨"memory_entry_snapshot", step,
      [.string "id" slot.id, .string "kind" (kindName slot.kind), .string "summary" slot.summary,
        .string "source" slot.source, .string "state" (stateName slot.state), .u64 "created_turn" slot.createdTurn,
        .u64 "updated_turn" slot.updatedTurn, .u64 "chars" chars, .u64 "estimated_tokens" (estimateTokens chars)]⟩

def traceMemoryCompactedLocal (step : ℕ) (slot : MemorySlot) (fromState : MemoryState)
    (sourceChars retainedChars : ℕ) (mode : Bytes) : TraceEvent :=
  ⟨"memory_compacted", step,
    [.string "entry_id" slot.id, .string "kind" (kindName slot.kind)] ++ fromStateField fromState ++
      [.string "to_state" (ascii "compacted"), .string "mode" mode, .u64 "source_chars" sourceChars,
        .u64 "retained_chars" retainedChars, .u64 "dropped_chars" (sourceChars - retainedChars),
        .u64 "turn_index" slot.updatedTurn]⟩

/-- The event of `record_context_budget`. -/
def recordContextBudget (step instructions request toolResult workingMemory knownSources workspaceMemory sessionState
    recentConversation : ℕ) : TraceEvent :=
  ⟨"context_budget_snapshot", step,
    [.u64 "instructions_chars" instructions, .u64 "current_request_chars" request,
      .u64 "latest_tool_result_chars" toolResult, .u64 "working_memory_chars" workingMemory,
      .u64 "known_sources_chars" knownSources, .u64 "workspace_memory_chars" workspaceMemory,
      .u64 "session_state_chars" sessionState, .u64 "recent_conversation_chars" recentConversation,
      .u64 "estimated_total_tokens" (estimateTokens (instructions + request + toolResult + workingMemory +
        knownSources + workspaceMemory + sessionState + recentConversation))]⟩

end Events

section Objects

variable {value : Bytes} {field : TraceField} {e : TraceEvent} {ms : ℕ}

/-- The names of the source are plain. -/
def PlainName (name : String) : Bool := name.toList.all PlainChar

/-- The name of a field is not that of the event itself. -/
def FieldName (name : String) : Bool := PlainName name && decide (ascii name ≠ ascii "event")

theorem FieldName.plain {name : String} (h : FieldName name = true) : PlainName name = true :=
  (Bool.and_eq_true_iff.mp h).1

theorem FieldName.ne_event {name : String} (h : FieldName name = true) : ascii name ≠ ascii "event" :=
  of_decide_eq_true (Bool.and_eq_true_iff.mp h).2

theorem PlainName.ascii {name : String} (h : PlainName name = true) : PlainText (ascii name) :=
  plain_ascii String.ofList_toList.symm h

def TraceField.member : TraceField → Bytes × Json
  | .string name value => (ascii name, .str value)
  | .raw name value => (ascii name, .str value)
  | .u64 name value => (ascii name, .num value)
  | .bool name value => (ascii name, .bool value)
  | .object name members => (ascii name, .obj (members.map fun m => (ascii m.1, .str m.2)))

/-- The object that an event stands for. -/
def TraceEvent.json (ms : ℕ) (e : TraceEvent) : Json :=
  .obj ((ascii "event", .str (ascii e.event)) :: (ascii "ts_ms", .num ms) :: (ascii "step", .num e.step) ::
    e.fields.map TraceField.member)

/-- Texts are UTF-8, and what is written raw needs no escape. -/
def TraceField.Sound : TraceField → Prop
  | .string name value => FieldName name ∧ Utf8 value
  | .raw name value => FieldName name ∧ PlainText value
  | .u64 name value => FieldName name ∧ value < 2 ^ 64
  | .bool name _ => FieldName name
  | .object name members => FieldName name ∧ ∀ m ∈ members, PlainName m.1 ∧ Utf8 m.2

structure TraceEvent.Sound (e : TraceEvent) : Prop where
  event : PlainName e.event
  step : e.step < 2 ^ 64
  fields : ∀ field ∈ e.fields, field.Sound

theorem traceJsonEscaped_char {c : Bytes} (h : Utf8Char c) : traceJsonEscaped c = escapeChar c := by
  rcases h.high with ⟨b, rfl, -⟩ | hhigh
  · simp [traceJsonEscaped, escapeChar]
  · have hself : traceJsonEscaped c = c := by
      have hbyte : ∀ b ∈ c, (escapeByte b).getD [b] = [b] := by
        intro b hb
        rw [escapeByte_high b (hhigh b hb), Option.getD_none]
      rw [traceJsonEscaped, List.flatMap_congr hbyte, List.flatMap_singleton']
    obtain ⟨first, more, rfl, -⟩ := h.shape
    rw [hself, escapeChar, escapeByte_high first (hhigh first List.mem_cons_self), Option.getD_none]

/-- On texts the two escape functions of the source agree. -/
theorem traceJsonEscaped_utf8 (h : Utf8 value) : traceJsonEscaped value = jsonEscape value := by
  induction h with
  | nil => rfl
  | cons hchar _ ih => rw [jsonEscape_char hchar, ← ih, ← traceJsonEscaped_char hchar, traceJsonEscaped,
      List.flatMap_append, traceJsonEscaped, traceJsonEscaped]

theorem traceName_eq {name : String} (h : PlainName name = true) :
    traceName name = comma :: (quote :: jsonEscape (ascii name) ++ [quote] ++ [colon]) := by
  rw [(PlainName.ascii h).escape]
  simp [traceName]

theorem compactMembers_cons (m : Bytes × Json) (members : List (Bytes × Json)) :
    compactMembers (m :: members) = compactMember m ++ members.flatMap fun n => comma :: compactMember n := by
  induction members generalizing m with
  | nil => simp [compactMembers]
  | cons n members ih => rw [compactMembers, ih, List.flatMap_cons, List.cons_append]

theorem traceArguments_eq {members : List (String × Bytes)} (h : ∀ m ∈ members, PlainName m.1 ∧ Utf8 m.2) :
    traceArguments members = compactMembers (members.map fun m => (ascii m.1, .str m.2)) := by
  fun_induction traceArguments members with
  | case1 => rfl
  | case2 name value =>
    obtain ⟨hname, hvalue⟩ := h _ List.mem_cons_self
    simp [compactMembers, compactMember, Json.compact, (PlainName.ascii hname).escape, traceJsonEscaped_utf8 hvalue]
  | case3 name value next rest ih =>
    obtain ⟨hname, hvalue⟩ := h _ List.mem_cons_self
    rw [ih fun m hm => h m (List.mem_cons_of_mem _ hm)]
    simp [compactMembers, compactMember, Json.compact, (PlainName.ascii hname).escape, traceJsonEscaped_utf8 hvalue]

theorem TraceField.text_eq (h : field.Sound) : field.text = comma :: compactMember field.member := by
  cases field with
  | string name value =>
    rw [text, traceJsonStringField, traceName_eq (FieldName.plain h.1), traceJsonEscaped_utf8 h.2]
    simp [member, compactMember, Json.compact]
  | raw name value =>
    rw [text, traceRawField, traceName_eq (FieldName.plain h.1)]
    simp [member, compactMember, Json.compact, h.2.escape]
  | u64 name value =>
    rw [text, traceJsonU64Field, traceName_eq (FieldName.plain h.1)]
    simp [member, compactMember, Json.compact]
  | bool name value =>
    rw [text, traceJsonBoolField, traceName_eq (FieldName.plain h)]
    cases value <;> simp [member, compactMember, Json.compact]
  | object name members =>
    rw [text, traceObjectField, traceName_eq (FieldName.plain h.1), traceArguments_eq h.2]
    simp [member, compactMember, Json.compact]

theorem membersValid_iff {members : List (Bytes × Json)} : MembersValid members ↔ ∀ m ∈ members, MemberValid m := by
  induction members with
  | nil => simp [MembersValid]
  | cons m members ih => simp [MembersValid, ih]

theorem TraceField.member_valid (h : field.Sound) : MemberValid field.member := by
  have hname : ∀ {name : String}, FieldName name = true → Utf8 (ascii name) := fun h =>
    (PlainName.ascii (FieldName.plain h)).utf8
  cases field with
  | string name value => exact ⟨hname h.1, h.2⟩
  | raw name value => exact ⟨hname h.1, h.2.utf8⟩
  | u64 name value => exact ⟨hname h.1, lt_trans h.2 (by decide)⟩
  | bool name value => exact ⟨hname h, trivial⟩
  | object name members =>
    refine ⟨hname h.1, membersValid_iff.mpr ?_⟩
    intro m hm
    obtain ⟨n, hn, rfl⟩ := List.mem_map.mp hm
    obtain ⟨hplain, hvalue⟩ := h.2 n hn
    exact ⟨(PlainName.ascii hplain).utf8, hvalue⟩

/-- No other member of the object has the key of the event. -/
theorem TraceEvent.event_member (h : e.Sound) {members : List (Bytes × Json)} (hjson : e.json ms = .obj members)
    {m : Bytes × Json} (hm : m ∈ members) (hkey : m.1 = ascii "event") : m = (ascii "event", .str (ascii e.event)) := by
  obtain rfl := Json.obj.inj hjson
  rcases List.mem_cons.mp hm with rfl | hrest
  · rfl
  · exfalso
    rw [List.mem_cons, List.mem_cons] at hrest
    rcases hrest with rfl | rfl | hfield
    · exact absurd hkey (show ascii "ts_ms" ≠ ascii "event" by decide)
    · exact absurd hkey (show ascii "step" ≠ ascii "event" by decide)
    · obtain ⟨field, hmem, rfl⟩ := List.mem_map.mp hfield
      have hsound := h.fields field hmem
      cases field with
      | string => exact FieldName.ne_event hsound.1 hkey
      | raw => exact FieldName.ne_event hsound.1 hkey
      | u64 => exact FieldName.ne_event hsound.1 hkey
      | bool => exact FieldName.ne_event hsound hkey
      | object => exact FieldName.ne_event hsound.1 hkey

theorem TraceEvent.json_valid (h : e.Sound) (hms : ms < 2 ^ 64) : (e.json ms).Valid := by
  have hnum : ∀ n < 2 ^ 64, n < 10 ^ 20 := fun n hn => hn.trans (by decide)
  have hname : ∀ {name : String}, PlainName name = true → Utf8 (ascii name) := fun h => (PlainName.ascii h).utf8
  refine ⟨⟨hname (by decide), hname h.event⟩, ⟨hname (by decide), hnum ms hms⟩,
    ⟨hname (by decide), hnum _ h.step⟩, membersValid_iff.mpr ?_⟩
  intro m hm
  obtain ⟨field, hfield, rfl⟩ := List.mem_map.mp hm
  exact field.member_valid (h.fields field hfield)

/-- An event is one line: the mark, its object, and the end of the line. -/
theorem TraceEvent.line_eq (h : e.Sound) (ms : ℕ) :
    e.line ms = ascii "TRACE " ++ (e.json ms).compact ++ [cr, lf] := by
  have hfields : e.fields.flatMap TraceField.text = (e.fields.map TraceField.member).flatMap fun n =>
      comma :: compactMember n := by
    rw [List.flatMap_map]
    exact List.flatMap_congr fun field hfield => field.text_eq (h.fields field hfield)
  have hplain : ∀ {name : String}, PlainName name = true → jsonEscape (ascii name) = ascii name :=
    fun h => (PlainName.ascii h).escape
  have hend : writeStr [closeBrace, lf] = [closeBrace, cr, lf] := by decide
  rw [line, traceBegin, hfields, hend, json, Json.compact, compactMembers_cons, List.flatMap_cons, List.flatMap_cons,
    traceName_eq (by decide), traceName_eq (by decide)]
  simp [compactMember, Json.compact, hplain h.event, hplain (by decide : PlainName "event" = true)]

end Objects

section Calls

/-- The events of the agent: raw values and names are constants of the source, all other texts are
UTF-8, and the numbers are machine words. -/
inductive Traced : TraceEvent → Prop where
  | event {event : String} {step : ℕ} : PlainName event → step < 256 → Traced (traceEvent event step)
  | skillCalled {skill : Bytes} {step : ℕ} : PlainText skill → step < 256 → Traced (traceSkillCalled skill step)
  | skillResult {skill status : Bytes} {step : ℕ} : PlainText skill → PlainText status → step < 256 →
      Traced (traceSkillResult skill step status)
  | policyChecked {skill status : Bytes} {step : ℕ} : PlainText skill → PlainText status → step < 256 →
      Traced (tracePolicyChecked skill step status)
  | skillDenied {skill reason : Bytes} {step : ℕ} : PlainText skill → PlainText reason → step < 256 →
      Traced (traceSkillDenied skill step reason)
  | goalStatus {event : String} {step : ℕ} {status : Bytes} : PlainName event → PlainText status → step < 256 →
      Traced (traceGoalStatus event step status)
  | retryScheduled {step attempt : ℕ} {phase : Bytes} : Utf8 phase → attempt < 256 → step < 256 →
      Traced (traceRetryScheduled step phase attempt)
  | fetchPhaseChanged {step retry rounds : ℕ} {phase : Bytes} {proxy : Bool} : Utf8 phase → retry < 256 →
      rounds < 256 → step < 256 → Traced (traceFetchPhaseChanged step phase retry rounds proxy)
  | fetchCacheHit {step : ℕ} {cache subject : Bytes} : Utf8 cache → Utf8 subject → step < 256 →
      Traced (traceFetchCacheHit step cache subject)
  | modelOutputPreview {step : ℕ} {text : Bytes} : Utf8 text → step < 256 → Traced (traceModelOutputPreview step text)
  | modelRequestSnapshot {step interactionId maxOutputTokens : ℕ}
      {phase model instructions input reasoningEffort : Bytes} : interactionId < 2 ^ 32 → Utf8 phase → Utf8 model →
      Utf8 instructions → Utf8 input → Utf8 reasoningEffort → maxOutputTokens < 2 ^ 64 → step < 256 →
      Traced (traceModelRequestSnapshot step interactionId phase model instructions input reasoningEffort maxOutputTokens)
  | modelResponseSnapshot {step interactionId httpStatus : ℕ} {phase text : Bytes} {bodyTruncated parsedOutput : Bool} :
      interactionId < 2 ^ 32 → Utf8 phase → httpStatus < 2 ^ 16 → Utf8 text → step < 256 →
      Traced (traceModelResponseSnapshot step interactionId phase httpStatus bodyTruncated parsedOutput text)
  | modelParseError {step : ℕ} {reason : Bytes} : Utf8 reason → step < 256 → Traced (traceModelParseError step reason)
  | toolCallWithArg {event argName : String} {step : ℕ} {tool argValue : Bytes} : PlainName event → Utf8 tool →
      PlainName argName → Utf8 argValue → step < 256 → Traced (traceToolCallWithArg event step tool argName argValue)
  | toolCallWithTwoArgs {event arg1Name arg2Name : String} {step : ℕ} {tool arg1Value arg2Value : Bytes} :
      PlainName event → Utf8 tool → PlainName arg1Name → Utf8 arg1Value → PlainName arg2Name → Utf8 arg2Value →
      step < 256 → Traced (traceToolCallWithTwoArgs event step tool arg1Name arg1Value arg2Name arg2Value)
  | toolCallWithoutArgs {event : String} {step : ℕ} {tool : Bytes} : PlainName event → Utf8 tool → step < 256 →
      Traced (traceToolCallWithoutArgs event step tool)
  | toolCallCompleted {step : ℕ} {tool status : Bytes} : Utf8 tool → Utf8 status → step < 256 →
      Traced (traceToolCallCompleted step tool status)
  | toolCallDenied {step : ℕ} {tool reason : Bytes} : Utf8 tool → Utf8 reason → step < 256 →
      Traced (traceToolCallDenied step tool reason)
  | fetchResultSnapshot {step status bodyLen : ℕ} {ok bodyTruncated : Bool} {transport : Bytes} : status < 2 ^ 16 →
      bodyLen < 2 ^ 64 → Utf8 transport → step < 256 →
      Traced (traceFetchResultSnapshot step ok status bodyLen bodyTruncated transport)
  | modelRequestBuilt {step bodyLen : ℕ} : bodyLen < 2 ^ 64 → step < 256 → Traced (traceModelRequestBuilt step bodyLen)
  | modelTurnCompleted {step : ℕ} {stopReason : Bytes} : Utf8 stopReason → step < 256 →
      Traced (traceModelTurnCompleted step stopReason)
  | contextSectionSnapshot {step interactionId chars : ℕ} {name : Bytes} : interactionId < 2 ^ 32 → Utf8 name →
      chars < 2 ^ 64 → step < 256 → Traced (traceContextSectionSnapshot step interactionId name chars)
  | loopStopped {step : ℕ} {reason : Bytes} : Utf8 reason → step < 256 → Traced (traceLoopStopped step reason)
  | goalCompiled : Traced traceGoalCompiled
  | goalCompilationFailed {reason : Bytes} : PlainText reason → Traced (traceGoalCompilationFailed reason)
  | goalCompilationFallback {reason : Bytes} : Utf8 reason → Traced (traceGoalCompilationFallback reason)
  | modelInterpretationResult {action : Bytes} : Utf8 action → Traced (traceModelInterpretationResult action)
  | intentCompiled {action sourceUrl sinkUrl outputLanguage outputStyle : Bytes} {summarySentences : ℕ} : Utf8 action →
      Utf8 sourceUrl → Utf8 sinkUrl → summarySentences < 2 ^ 64 → Utf8 outputLanguage → Utf8 outputStyle →
      Traced (traceIntentCompiled action sourceUrl sinkUrl summarySentences outputLanguage outputStyle)
  | memoryEvent {event : String} {step : ℕ} {slot : MemorySlot} {fromState toState : MemoryState} : PlainName event →
      Utf8 slot.id → slot.updatedTurn < 2 ^ 64 → step < 256 →
      Traced (traceMemoryEventLocal event step slot fromState toState)
  | memoryEntrySnapshot {step : ℕ} {slot : MemorySlot} {e : TraceEvent} : Utf8 slot.id → Utf8 slot.summary →
      Utf8 slot.source → slot.createdTurn < 2 ^ 64 → slot.updatedTurn < 2 ^ 64 →
      slot.summary.length + slot.detail.length < 2 ^ 63 → step < 256 →
      traceMemoryEntrySnapshotLocal step slot = some e → Traced e
  | memoryCompacted {step sourceChars retainedChars : ℕ} {slot : MemorySlot} {fromState : MemoryState} {mode : Bytes} :
      Utf8 slot.id → slot.updatedTurn < 2 ^ 64 → sourceChars < 2 ^ 64 → retainedChars < 2 ^ 64 → Utf8 mode →
      step < 256 → Traced (traceMemoryCompactedLocal step slot fromState sourceChars retainedChars mode)
  | contextBudget {step instructions request toolResult workingMemory knownSources workspaceMemory sessionState
      recentConversation : ℕ} : instructions + request + toolResult + workingMemory + knownSources + workspaceMemory +
        sessionState + recentConversation < 2 ^ 63 → step < 256 →
      Traced (recordContextBudget step instructions request toolResult workingMemory knownSources workspaceMemory
        sessionState recentConversation)

variable {e : TraceEvent}

theorem optionalField_sound {name : String} {value : Bytes} (hname : FieldName name) (h : Utf8 value) :
    ∀ field ∈ optionalField name value, field.Sound := by
  unfold optionalField
  split_ifs
  · simp
  · simp [TraceField.Sound, hname, h]

theorem fromStateField_sound (state : MemoryState) : ∀ field ∈ fromStateField state, field.Sound := by
  unfold fromStateField
  split_ifs
  · simp
  · have hname : FieldName "from_state" = true := by decide
    simp [TraceField.Sound, hname, (stateName_plain state).utf8]

theorem sound_of {event : String} {step : ℕ} {fields : List TraceField} (hevent : PlainName event) (hstep : step < 256)
    (hfields : ∀ field ∈ fields, field.Sound) : TraceEvent.Sound ⟨event, step, fields⟩ :=
  ⟨hevent, hstep.trans (by decide), hfields⟩

theorem forall_none : ∀ field ∈ ([] : List TraceField), field.Sound := by simp

/-- The fields of an event, one after the other. -/
theorem forall_cons {field : TraceField} {fields : List TraceField} (h : field.Sound)
    (hrest : ∀ field ∈ fields, field.Sound) : ∀ other ∈ field :: fields, other.Sound :=
  List.forall_mem_cons.mpr ⟨h, hrest⟩

theorem forall_append {front rest : List TraceField} (hfront : ∀ field ∈ front, field.Sound)
    (hrest : ∀ field ∈ rest, field.Sound) : ∀ field ∈ front ++ rest, field.Sound :=
  List.forall_mem_append.mpr ⟨hfront, hrest⟩

theorem bool_sound {name : String} {value : Bool} (h : FieldName name) : (TraceField.bool name value).Sound := h

theorem arguments_one {name : String} {value : Bytes} (hname : PlainName name) (h : Utf8 value) :
    ∀ m ∈ [(name, value)], PlainName m.1 ∧ Utf8 m.2 := by
  intro m hm
  rw [List.mem_singleton.mp hm]
  exact ⟨hname, h⟩

theorem Traced.sound (h : Traced e) : e.Sound := by
  have hzero : 0 < 256 := by decide
  cases h with
  | event hevent hstep =>
    exact sound_of hevent hstep forall_none
  | skillCalled hskill hstep =>
    exact sound_of (by decide) hstep (forall_cons ⟨by decide, hskill⟩ forall_none)
  | skillResult hskill hstatus hstep =>
    exact sound_of (by decide) hstep <|
      forall_cons ⟨by decide, hskill⟩ <|
      forall_cons ⟨by decide, hstatus⟩ <|
      forall_none
  | policyChecked hskill hstatus hstep =>
    exact sound_of (by decide) hstep <|
      forall_cons ⟨by decide, hskill⟩ <|
      forall_cons ⟨by decide, hstatus⟩ <|
      forall_none
  | skillDenied hskill hreason hstep =>
    exact sound_of (by decide) hstep <|
      forall_cons ⟨by decide, hskill⟩ <|
      forall_cons ⟨by decide, hreason⟩ <|
      forall_none
  | goalStatus hevent hstatus hstep =>
    exact sound_of hevent hstep (forall_cons ⟨by decide, hstatus⟩ forall_none)
  | retryScheduled hphase hattempt hstep =>
    exact sound_of (by decide) hstep <|
      forall_cons ⟨by decide, hphase⟩ <|
      forall_cons ⟨by decide, by omega⟩ <|
      forall_none
  | fetchPhaseChanged hphase hretry hrounds hstep =>
    exact sound_of (by decide) hstep <|
      forall_cons ⟨by decide, hphase⟩ <|
      forall_cons ⟨by decide, by omega⟩ <|
      forall_cons ⟨by decide, by omega⟩ <|
      forall_cons (bool_sound (by decide)) <|
      forall_none
  | fetchCacheHit hcache hsubject hstep =>
    exact sound_of (by decide) hstep <|
      forall_cons ⟨by decide, hcache⟩ <|
      forall_cons ⟨by decide, hsubject⟩ <|
      forall_none
  | modelOutputPreview htext hstep =>
    exact sound_of (by decide) hstep (forall_cons ⟨by decide, htext⟩ forall_none)
  | modelRequestSnapshot hid hphase hmodel hinstructions hinput hreasoning htokens hstep =>
    exact sound_of (by decide) hstep <|
      forall_cons ⟨by decide, by omega⟩ <|
      forall_cons ⟨by decide, hphase⟩ <|
      forall_cons ⟨by decide, hmodel⟩ <|
      forall_cons ⟨by decide, hinstructions⟩ <|
      forall_cons ⟨by decide, hinput⟩ <|
      forall_cons ⟨by decide, hreasoning⟩ <|
      forall_cons ⟨by decide, htokens⟩ <|
      forall_none
  | modelResponseSnapshot hid hphase hstatus htext hstep =>
    exact sound_of (by decide) hstep <|
      forall_cons ⟨by decide, by omega⟩ <|
      forall_cons ⟨by decide, hphase⟩ <|
      forall_cons ⟨by decide, by omega⟩ <|
      forall_cons (bool_sound (by decide)) <|
      forall_cons (bool_sound (by decide)) <|
      forall_cons ⟨by decide, htext⟩ <|
      forall_none
  | modelParseError hreason hstep =>
    exact sound_of (by decide) hstep (forall_cons ⟨by decide, hreason⟩ forall_none)
  | toolCallWithArg hevent htool hname hvalue hstep =>
    exact sound_of hevent hstep <|
      forall_cons ⟨by decide, htool⟩ <|
      forall_cons ⟨by decide, arguments_one hname hvalue⟩ <|
      forall_none
  | toolCallWithTwoArgs hevent htool hname1 hvalue1 hname2 hvalue2 hstep =>
    exact sound_of hevent hstep <|
      forall_cons ⟨by decide, htool⟩ <|
      forall_cons ⟨by decide, List.forall_mem_cons.mpr ⟨⟨hname1, hvalue1⟩, arguments_one hname2 hvalue2⟩⟩ <|
      forall_none
  | toolCallWithoutArgs hevent htool hstep =>
    exact sound_of hevent hstep (forall_cons ⟨by decide, htool⟩ (forall_cons ⟨by decide, by simp⟩ forall_none))
  | toolCallCompleted htool hstatus hstep =>
    exact sound_of (by decide) hstep <|
      forall_cons ⟨by decide, htool⟩ <|
      forall_cons ⟨by decide, hstatus⟩ <|
      forall_none
  | toolCallDenied htool hreason hstep =>
    exact sound_of (by decide) hstep <|
      forall_cons ⟨by decide, htool⟩ <|
      forall_cons ⟨by decide, hreason⟩ <|
      forall_none
  | modelRequestBuilt hlen hstep =>
    exact sound_of (by decide) hstep (forall_cons ⟨by decide, hlen⟩ forall_none)
  | modelTurnCompleted hreason hstep =>
    exact sound_of (by decide) hstep (forall_cons ⟨by decide, hreason⟩ forall_none)
  | contextSectionSnapshot hid hname hchars hstep =>
    exact sound_of (by decide) hstep <|
      forall_cons ⟨by decide, by omega⟩ <|
      forall_cons ⟨by decide, hname⟩ <|
      forall_cons ⟨by decide, hchars⟩ <|
      forall_none
  | loopStopped hreason hstep =>
    exact sound_of (by decide) hstep (forall_cons ⟨by decide, hreason⟩ forall_none)
  | fetchResultSnapshot hstatus hlen htransport hstep =>
    apply sound_of (by decide) hstep
    apply forall_append
    · exact forall_cons (bool_sound (by decide)) (forall_cons ⟨by decide, by omega⟩ (forall_cons ⟨by decide, hlen⟩
        (forall_cons (bool_sound (by decide)) forall_none)))
    · exact optionalField_sound (by decide) htransport
  | goalCompiled => exact sound_of (by decide) hzero (forall_cons ⟨by decide, plain_ascii rfl (by decide)⟩ forall_none)
  | goalCompilationFailed hreason => exact sound_of (by decide) hzero (forall_cons ⟨by decide, hreason⟩ forall_none)
  | goalCompilationFallback hreason => exact sound_of (by decide) hzero (forall_cons ⟨by decide, hreason⟩ forall_none)
  | modelInterpretationResult haction =>
    exact sound_of (by decide) hzero (forall_cons ⟨by decide, haction⟩ forall_none)
  | intentCompiled haction hsource hsink hsentences hlanguage hstyle =>
    apply sound_of (by decide) hzero
    refine forall_append ?_ (forall_cons (bool_sound (by decide)) forall_none)
    refine forall_append ?_ (optionalField_sound (by decide) hstyle)
    refine forall_append ?_ (optionalField_sound (by decide) hlanguage)
    refine forall_append ?_ (forall_cons ⟨by decide, hsentences⟩ forall_none)
    refine forall_append ?_ (optionalField_sound (by decide) hsink)
    refine forall_append ?_ (optionalField_sound (by decide) hsource)
    have htask : PlainText (ascii "task") := plain_ascii rfl (by decide)
    exact forall_cons ⟨by decide, htask.utf8⟩ (forall_cons ⟨by decide, haction⟩ forall_none)
  | @memoryEvent event step slot fromState toState hevent hid hturn hstep =>
    apply sound_of hevent hstep
    refine forall_append (forall_append ?_ (fromStateField_sound fromState)) ?_
    · exact forall_cons ⟨by decide, hid⟩ (forall_cons ⟨by decide, (kindName_plain slot.kind).utf8⟩ forall_none)
    · exact forall_cons ⟨by decide, (stateName_plain toState).utf8⟩ (forall_cons ⟨by decide, hturn⟩ forall_none)
  | @memoryEntrySnapshot step slot e hid hsummary hsource hcreated hupdated hchars hstep hsome =>
    unfold traceMemoryEntrySnapshotLocal at hsome
    split_ifs at hsome
    obtain rfl := Option.some.inj hsome
    have htokens := estimateTokens_le (slot.summary.length + slot.detail.length)
    exact sound_of (by decide) hstep <|
      forall_cons ⟨by decide, hid⟩ <|
      forall_cons ⟨by decide, (kindName_plain slot.kind).utf8⟩ <|
      forall_cons ⟨by decide, hsummary⟩ <|
      forall_cons ⟨by decide, hsource⟩ <|
      forall_cons ⟨by decide, (stateName_plain slot.state).utf8⟩ <|
      forall_cons ⟨by decide, hcreated⟩ <|
      forall_cons ⟨by decide, hupdated⟩ <|
      forall_cons ⟨by decide, by omega⟩ <|
      forall_cons ⟨by decide, by omega⟩ forall_none
  | @memoryCompacted step sourceChars retainedChars slot fromState mode hid hturn hsource hretained hmode hstep =>
    have hcompacted : PlainText (ascii "compacted") := plain_ascii rfl (by decide)
    apply sound_of (by decide) hstep
    refine forall_append (forall_append ?_ (fromStateField_sound fromState)) ?_
    · exact forall_cons ⟨by decide, hid⟩ (forall_cons ⟨by decide, (kindName_plain slot.kind).utf8⟩ forall_none)
    · exact forall_cons ⟨by decide, hcompacted.utf8⟩ <|
        forall_cons ⟨by decide, hmode⟩ <|
        forall_cons ⟨by decide, hsource⟩ <|
        forall_cons ⟨by decide, hretained⟩ <|
        forall_cons ⟨by decide, by omega⟩ <|
        forall_cons ⟨by decide, hturn⟩ forall_none
  | @contextBudget step instructions request toolResult workingMemory knownSources workspaceMemory sessionState
      recentConversation htotal hstep =>
    have htokens := estimateTokens_le (instructions + request + toolResult + workingMemory + knownSources +
      workspaceMemory + sessionState + recentConversation)
    exact sound_of (by decide) hstep <|
      forall_cons ⟨by decide, by omega⟩ <|
      forall_cons ⟨by decide, by omega⟩ <|
      forall_cons ⟨by decide, by omega⟩ <|
      forall_cons ⟨by decide, by omega⟩ <|
      forall_cons ⟨by decide, by omega⟩ <|
      forall_cons ⟨by decide, by omega⟩ <|
      forall_cons ⟨by decide, by omega⟩ <|
      forall_cons ⟨by decide, by omega⟩ <|
      forall_cons ⟨by decide, by omega⟩ forall_none

end Calls

end MiniAgentOS.Agent
