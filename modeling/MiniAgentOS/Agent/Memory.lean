import MiniAgentOS.Text.JsonText

/-! The retained memory of the agent: five slots, what is noted in them, and the compaction of long
results. Buffers are the bytes written to them; what does not fit is dropped without notice. -/
namespace MiniAgentOS.Agent
open Checked

def memoryIdMax : ℕ := 24
def memorySummaryMax : ℕ := 192
def memoryDetailMax : ℕ := 512
def memorySourceMax : ℕ := 128
def compactionTriggerChars : ℕ := 240
def compactionExcerptMax : ℕ := 192

inductive SlotId where
  | task
  | source
  | workspace
  | execution
  | conversation
  deriving DecidableEq, Repr

def SlotId.all : List SlotId := [.task, .source, .workspace, .execution, .conversation]

inductive MemoryKind where
  | none
  | task
  | source
  | workspace
  | execution
  | conversation
  deriving DecidableEq, Repr

inductive MemoryState where
  | none
  | raw
  | compacted
  | derived
  deriving DecidableEq, Repr

/-- The kind that the callers of `set_slot` give. -/
def SlotId.kind : SlotId → MemoryKind
  | .task => .task
  | .source => .source
  | .workspace => .workspace
  | .execution => .execution
  | .conversation => .conversation

def slotIdBytes : SlotId → Bytes
  | .task => ascii "mem-task"
  | .source => ascii "mem-source"
  | .workspace => ascii "mem-workspace"
  | .execution => ascii "mem-execution"
  | .conversation => ascii "mem-conversation"

def kindName : MemoryKind → Bytes
  | .task => ascii "task"
  | .source => ascii "source"
  | .workspace => ascii "workspace"
  | .execution => ascii "execution"
  | .conversation => ascii "conversation"
  | .none => ascii "unknown"

def stateName : MemoryState → Bytes
  | .raw => ascii "raw"
  | .compacted => ascii "compacted"
  | .derived => ascii "derived"
  | .none => ascii "unknown"

structure MemorySlot where
  kind : MemoryKind := .none
  state : MemoryState := .none
  id : Bytes := []
  summary : Bytes := []
  detail : Bytes := []
  source : Bytes := []
  createdTurn : ℕ := 0
  updatedTurn : ℕ := 0
  deriving DecidableEq, Repr

structure Memory where
  started : Bool := false
  turn : ℕ := 0
  slot : SlotId → MemorySlot := fun _ => {}

def memoryReset : Memory := { started := true }

def ensureStarted (m : Memory) : Memory := if m.started then m else memoryReset

def setSlot (name : SlotId) (kind : MemoryKind) (state : MemoryState) (source summary detail : Bytes) (m : Memory) :
    Memory :=
  let m := ensureStarted m
  let old := m.slot name
  let slot : MemorySlot :=
    { kind := kind
      state := state
      id := if old.id = [] then (slotIdBytes name).take memoryIdMax else old.id
      summary := copyUtf8Prefix memorySummaryMax summary
      detail := copyUtf8Prefix memoryDetailMax detail
      source := copyUtf8Prefix memorySourceMax source
      createdTurn := if old.id = [] then m.turn else old.createdTurn
      updatedTurn := m.turn }
  { m with slot := Function.update m.slot name slot }

section Compaction

/-- A buffer that is filled with one piece after the other. -/
def fillBuffer (capacity : ℕ) (pieces : List Bytes) : Bytes := pieces.foldl (appendBytes capacity) []

/-- The occurrences that do not overlap; `skip` bytes belong to the last one. -/
def countFrom (pat : Bytes) : ℕ → Bytes → ℕ
  | _, [] => 0
  | skip + 1, _ :: buf => countFrom pat skip buf
  | 0, b :: buf => if pat <+: b :: buf then countFrom pat (pat.length - 1) buf + 1 else countFrom pat 0 buf

def countOccurrences (buf pat : Bytes) : ℕ := if pat = [] then 0 else countFrom pat 0 buf

def containsBytes (buf pat : Bytes) : Bool := countOccurrences buf pat ≠ 0

/-- The text with each run of blanks as one space, as far as there is room. -/
def normalizeLoop (room : ℕ) : Bool → Bytes → Bytes → Bytes
  | _, out, [] => out
  | lastSpace, out, ch :: raw =>
    if out.length < room then
      if isSpace ch then
        if lastSpace then normalizeLoop room lastSpace out raw
        else normalizeLoop room true (out ++ [space]) raw
      else normalizeLoop room false (out ++ [ch]) raw
    else out

def normalizedExcerptFrom (room : ℕ) (src : Bytes) : Bytes :=
  let raw := copyUtf8Prefix compactionExcerptMax src
  let out := (normalizeLoop room true [] raw).rdropWhile isSpace
  if raw.length < src.length ∧ out.length + 3 ≤ room then out ++ ascii "..." else out

/-- What `append_normalized_excerpt` appends. -/
def excerpt (src : Bytes) : Bytes := normalizedExcerptFrom compactionExcerptMax src

/-- Whether `starts_with` holds of the whole tool name. -/
def startsWithTool (tool name : Bytes) : Bool := name <+: tool

def buildGenericCompactedDetail (tool result sourceLabel : Bytes) : Bytes :=
  fillBuffer memoryDetailMax [ascii "Retained ", sourceLabel, ascii " excerpt from ", tool, ascii ": ",
    excerpt result, ascii ". Full raw result not carried forward."]

def buildSearchCompacted (result : Bytes) : Checked (Bytes × Bytes) := do
  let count := countOccurrences result (ascii "\"url\":\"")
  let title ← jsonExtractStringLocal result (ascii "title") 160
  let url ← jsonExtractStringLocal result (ascii "url") 160
  let snippet ← jsonExtractStringLocal result (ascii "snippet") 256
  let results := if count = 0 then [] else [ascii " (", u64ToDec count, ascii " results)"]
  let part (mark text : Bytes) := if text = [] then [] else [mark, excerpt text]
  pure (fillBuffer memorySummaryMax
      ([ascii "Compacted search results from search_web"] ++ results ++ [ascii "."]),
    fillBuffer memoryDetailMax ([ascii "Retained top result"] ++ part (ascii ": ") title ++
      part (ascii " | ") url ++ part (ascii " | ") snippet ++
      [ascii ". Full raw search JSON not carried forward."]))

def buildFetchCompacted (result : Bytes) : Bytes × Bytes :=
  let preview := ascii "Fetched URL content preview:\n"
  let body := if preview <+: result then result.drop preview.length else result
  let note := if containsBytes result (ascii "...(truncated)") then
      [ascii " The original preview was already truncated before retention."] else []
  (fillBuffer memorySummaryMax [ascii "Compacted fetched source from fetch_url."],
    fillBuffer memoryDetailMax ([ascii "Retained excerpt: ", excerpt body,
      ascii ". Full fetched page content not carried forward."] ++ note))

def buildExecutionCompacted (result : Bytes) : Checked (Bytes × Bytes) := do
  let exitCode ← (·.getD 0) <$> jsonExtractU64 result result.length (ascii "exit_code")
  let stdout ← jsonExtractStringLocal result (ascii "stdout") 256
  let stderr ← jsonExtractStringLocal result (ascii "stderr") 256
  let outcome := if exitCode = 0 then
      ascii "Compacted successful execution result from read_process_output (exit_code="
    else ascii "Compacted failed execution result from read_process_output (exit_code="
  let part (mark text : Bytes) := if text = [] then [] else [mark, excerpt text]
  pure (fillBuffer memorySummaryMax [outcome, u64ToDec exitCode, ascii ")."],
    fillBuffer memoryDetailMax ([ascii "Retained exit_code=", u64ToDec exitCode] ++
      part (ascii "; stdout: ") stdout ++ part (ascii "; stderr: ") stderr ++
      [ascii ". Full raw process output not carried forward."]))

def buildWorkspaceCompacted (tool result : Bytes) : Bytes × Bytes :=
  (fillBuffer memorySummaryMax [ascii "Compacted workspace result from ", tool, ascii "."],
    buildGenericCompactedDetail tool result (ascii "workspace"))

def buildConversationCompacted (text : Bytes) : Bytes × Bytes :=
  (fillBuffer memorySummaryMax [ascii "Compacted assistant response."],
    fillBuffer memoryDetailMax [ascii "Retained response excerpt: ", excerpt text,
      ascii ". Full response text not carried forward."])

/-- The tools of the workspace. -/
def isWorkspaceTool (tool : Bytes) : Bool :=
  startsWithTool tool (ascii "list_workspace") || startsWithTool tool (ascii "read_file") ||
    startsWithTool tool (ascii "write_file") || startsWithTool tool (ascii "apply_patch")

def shouldCompact (tool result : Bytes) : Bool :=
  decide (compactionTriggerChars < result.length) ||
    (startsWithTool tool (ascii "fetch_url") && decide (160 < result.length)) ||
    (startsWithTool tool (ascii "search_web") && decide (160 < result.length)) ||
    (startsWithTool tool (ascii "read_process_output") && decide (160 < result.length)) ||
    (startsWithTool tool (ascii "read_file") && decide (160 < result.length))

def compactToolResultIfNeeded (tool result : Bytes) : Checked (Option (Bytes × Bytes)) :=
  if !shouldCompact tool result then pure none
  else if startsWithTool tool (ascii "search_web") then some <$> buildSearchCompacted result
  else if startsWithTool tool (ascii "fetch_url") then pure (some (buildFetchCompacted result))
  else if startsWithTool tool (ascii "read_process_output") then some <$> buildExecutionCompacted result
  else if isWorkspaceTool tool then pure (some (buildWorkspaceCompacted tool result))
  else pure none

end Compaction

section Notes

/-- The start of a text, without the line ends behind it. -/
def summaryFromText (room : ℕ) (text : Bytes) : Bytes := (copyUtf8Prefix room text).rdropWhile (· == lf)

def toolKindSlot (tool : Bytes) : Option SlotId :=
  if startsWithTool tool (ascii "fetch_url") || startsWithTool tool (ascii "search_web") then some .source
  else if isWorkspaceTool tool then some .workspace
  else if startsWithTool tool (ascii "run_process") || startsWithTool tool (ascii "read_process_output") then
    some .execution
  else none

def toolKindName (tool : Bytes) : Bytes :=
  match toolKindSlot tool with
  | some .source => ascii "source"
  | some .workspace => ascii "workspace"
  | some .execution => ascii "execution"
  | _ => []

def buildToolSummary (tool result : Bytes) : Bytes :=
  let stop := if result = [] then [] else [ascii "."]
  fillBuffer memorySummaryMax
    ([ascii "Retained ", toolKindName tool, ascii " result from ", tool] ++ stop)

def noteUserRequest (text : Bytes) (m : Memory) : Memory :=
  let m := ensureStarted m
  let m := { m with turn := (m.turn + 1) % 2 ^ 16 }
  setSlot .task .task .derived (ascii "user_turn") (summaryFromText memorySummaryMax text) [] m

/-- The state, summary and detail that `note_tool_result` retains. -/
def retained (slot : SlotId) (tool result : Bytes) : Checked (MemoryState × Bytes × Bytes) := do
  match ← compactToolResultIfNeeded tool result with
  | some (summary, detail) => pure (.compacted, summary, detail)
  | none =>
    let rawState : MemoryState :=
      if slot = .source ∧ startsWithTool tool (ascii "search_web") then .derived else .raw
    pure (rawState, buildToolSummary tool result, summaryFromText memoryDetailMax result)

def noteToolResult (tool result : Bytes) (m : Memory) : Checked Memory :=
  let m := ensureStarted m
  match toolKindSlot tool with
  | none => pure m
  | some slot => do
    let (state, summary, detail) ← retained slot tool result
    pure (setSlot slot slot.kind state tool summary detail m)

def noteAssistantResponse (text : Bytes) (m : Memory) : Memory :=
  let m := ensureStarted m
  if compactionTriggerChars < text.length then
    let (summary, detail) := buildConversationCompacted text
    setSlot .conversation .conversation .compacted (ascii "assistant_turn") summary detail m
  else
    let summary := summaryFromText memorySummaryMax text
    setSlot .conversation .conversation .derived (ascii "assistant_turn") summary [] m

/-- The calls that change the memory. -/
inductive MemoryCall where
  | reset
  | user (text : Bytes)
  | tool (tool result : Bytes)
  | assistant (text : Bytes)
  deriving DecidableEq, Repr

def Memory.step (m : Memory) : MemoryCall → Checked Memory
  | .reset => pure memoryReset
  | .user text => pure (noteUserRequest text m)
  | .tool tool result => noteToolResult tool result m
  | .assistant text => pure (noteAssistantResponse text m)

/-- The memory after the calls, since the start of the machine. -/
def remember (calls : List MemoryCall) : Checked Memory := calls.foldlM Memory.step {}

end Notes

section Writers

variable {capacity : ℕ} {out : Bytes}

theorem take_take_append (a b : Bytes) (n : ℕ) : (a.take n ++ b).take n = (a ++ b).take n := by
  rw [List.take_append, List.take_append, List.take_take, Nat.min_self, List.length_take]
  have hleft : n - min n a.length = n - a.length := by omega
  rw [hleft]

theorem appendBytes_take (h : out.length ≤ capacity) (bytes : Bytes) :
    appendBytes capacity out bytes = (out ++ bytes).take capacity := by
  rw [appendBytes, List.take_append, List.take_of_length_le h]

theorem foldl_appendBytes (h : out.length ≤ capacity) (pieces : List Bytes) :
    pieces.foldl (appendBytes capacity) out = (out ++ pieces.flatten).take capacity := by
  induction pieces generalizing out with
  | nil => simp [List.take_of_length_le h]
  | cons piece pieces ih =>
    have hroom : ((out ++ piece).take capacity).length ≤ capacity := by
      rw [List.length_take]
      omega
    rw [List.foldl_cons, appendBytes_take h, ih hroom, take_take_append, List.flatten_cons, List.append_assoc]

/-- A buffer holds the start of what is written to it. -/
theorem fillBuffer_eq (capacity : ℕ) (pieces : List Bytes) :
    fillBuffer capacity pieces = pieces.flatten.take capacity := foldl_appendBytes (Nat.zero_le _) pieces

end Writers

end MiniAgentOS.Agent
