import MiniAgentOS.Agent.Prompt
import MiniAgentOS.Text.Grammar
import MiniAgentOS.Text.JsonText
import MiniAgentOS.Text.Prefix

/-! The tools of the session agent, and how a reply of the model names one. Four chains of comparisons look a name up,
each in an order of its own, and each compares the front of the name only. -/
namespace MiniAgentOS.Agent
open Checked Session

section Names

inductive Tool where
  | fetchUrl
  | postUrl
  | postTweet
  | searchWeb
  | searchRecentPosts
  | getUserPosts
  | readSessionState
  | writeSessionState
  | listWorkspace
  | readFile
  | writeFile
  | applyPatch
  | runProcess
  | readProcessOutput
  | memoryStatus
  | listMemory
  | readMemory
  deriving DecidableEq, Repr

def toolName : Tool → Bytes
  | .fetchUrl => ascii "fetch_url"
  | .postUrl => ascii "post_url"
  | .postTweet => ascii "post_tweet"
  | .searchWeb => ascii "search_web"
  | .searchRecentPosts => ascii "search_recent_posts"
  | .getUserPosts => ascii "get_user_posts"
  | .readSessionState => ascii "read_session_state"
  | .writeSessionState => ascii "write_session_state"
  | .listWorkspace => ascii "list_workspace"
  | .readFile => ascii "read_file"
  | .writeFile => ascii "write_file"
  | .applyPatch => ascii "apply_patch"
  | .runProcess => ascii "run_process"
  | .readProcessOutput => ascii "read_process_output"
  | .memoryStatus => ascii "memory_status"
  | .listMemory => ascii "list_memory"
  | .readMemory => ascii "read_memory"

/-- The first tool of a chain whose name the text starts with. -/
def firstNamed (chain : List Tool) (name : Bytes) : Option Tool :=
  chain.find? fun tool => startsWithTool name (toolName tool)

/-- The order of `is_supported_m4_tool_name`. -/
def supportedTools : List Tool :=
  [.fetchUrl, .postUrl, .postTweet, .searchWeb, .searchRecentPosts, .getUserPosts, .readSessionState,
    .writeSessionState, .listWorkspace, .readFile, .writeFile, .applyPatch, .runProcess, .readProcessOutput,
    .memoryStatus, .listMemory, .readMemory]

/-- The order of `parse_m4_tool_from_response`. -/
def parsedTools : List Tool :=
  [.memoryStatus, .listMemory, .readMemory, .fetchUrl, .postUrl, .postTweet, .searchWeb, .searchRecentPosts,
    .getUserPosts, .readSessionState, .writeSessionState, .listWorkspace, .readFile, .writeFile, .applyPatch,
    .runProcess, .readProcessOutput]

/-- The order of `execute_sync_tool`. -/
def syncTools : List Tool := [.memoryStatus, .listMemory, .readMemory, .readSessionState, .writeSessionState]

/-- The order of `execute_async_tool`. -/
def asyncTools : List Tool :=
  [.fetchUrl, .postUrl, .postTweet, .searchWeb, .searchRecentPosts, .getUserPosts, .listWorkspace, .readFile,
    .writeFile, .applyPatch, .runProcess, .readProcessOutput]

def isSupportedM4ToolName (name : Bytes) : Bool := (firstNamed supportedTools name).isSome

/-- The tool that a name executes: a synchronous one, or else an asynchronous one. -/
def executedTool (name : Bytes) : Option Tool := (firstNamed syncTools name).or (firstNamed asyncTools name)

end Names

section Arguments

/-- `M4_TOOL_NAME`, `M4_TOOL_ARG1` and `M4_TOOL_ARG2`. -/
structure ToolCall where
  name : Bytes := []
  arg1 : Bytes := []
  arg2 : Bytes := []
  deriving DecidableEq, Repr

def m4ToolNameMax : ℕ := 32
def m4ToolArg1Max : ℕ := 512
def m4ToolArg2Max : ℕ := 4096

def setToolCall (tool arg1 arg2 : Bytes) : ToolCall :=
  ⟨tool.take m4ToolNameMax, arg1.take m4ToolArg1Max, arg2.take m4ToolArg2Max⟩

/-- The arguments of a call, or why they are refused. -/
abbrev Arguments := Except Bytes (Bytes × Bytes)

/-- One argument, which may be missing where there is no reason to refuse it. -/
def oneArgument (response : Bytes) (key : String) (missing : Option String) : Checked Arguments := do
  let arg1 ← jsonExtractStringLocal response (ascii key) m4ToolArg1Max
  match missing with
  | some reason => pure (if arg1 = [] then .error (ascii reason) else .ok (arg1, []))
  | none => pure (.ok (arg1, []))

/-- A long argument, which may be empty where the text says so. -/
def longArgument (response : Bytes) (key missing incomplete : String) : Checked (Except Bytes Bytes) := do
  let arg2 ← jsonExtractStringLocal response (ascii key) m4ToolArg2Max
  if arg2 = [] then
    if ! (← jsonHasKeyLocal response (ascii key)) then pure (.error (ascii missing))
    else if ! (← jsonStringKeyIsExplicitlyEmpty response (ascii key)) then pure (.error (ascii incomplete))
    else pure (.ok arg2)
  else pure (.ok arg2)

/-- The branches of `parse_m4_tool_from_response`. -/
def toolArguments (response : Bytes) : Tool → Checked Arguments
  | .memoryStatus => pure (.ok ([], []))
  | .listMemory => oneArgument response "kind" none
  | .readMemory => oneArgument response "id" (some "missing memory id")
  | .fetchUrl => oneArgument response "url" (some "missing fetch url")
  | .postUrl => do
    let url ← jsonExtractStringLocal response (ascii "url") m4ToolArg1Max
    let json ← jsonExtractStringLocal response (ascii "json") m4ToolArg2Max
    if url = [] then pure (.error (ascii "missing post url"))
    else if json = [] then pure (.error (ascii "missing post json"))
    else pure (.ok (url, json))
  | .postTweet => oneArgument response "text" (some "missing tweet text")
  | .searchWeb => oneArgument response "query" (some "missing web search query")
  | .searchRecentPosts => oneArgument response "query" (some "missing search query")
  | .getUserPosts => oneArgument response "username" (some "missing username")
  | .readSessionState => oneArgument response "key" (some "missing session key")
  | .writeSessionState => do
    let key ← jsonExtractStringLocal response (ascii "key") m4ToolArg1Max
    let value ← jsonExtractStringLocal response (ascii "value") m4ToolArg2Max
    pure (if key = [] then .error (ascii "missing session key") else .ok (key, value))
  | .listWorkspace => oneArgument response "path" none
  | .readFile => oneArgument response "path" (some "missing file path")
  | .writeFile => do
    let path ← jsonExtractStringLocal response (ascii "path") m4ToolArg1Max
    if path = [] then pure (.error (ascii "missing file path"))
    else
      let content ← longArgument response "content" "missing file content" "incomplete file content"
      pure (content.map fun content => (path, content))
  | .applyPatch => do
    let patch ← longArgument response "patch" "missing patch" "incomplete patch"
    pure (patch.map fun patch => ([], patch))
  | .runProcess => oneArgument response "path" (some "missing process path")
  | .readProcessOutput => oneArgument response "process_id" (some "missing process id")

def parseM4ToolFromResponse (response tool : Bytes) : Checked (Except Bytes ToolCall) :=
  match firstNamed parsedTools tool with
  | some named => do
    let arguments ← toolArguments response named
    pure (arguments.map fun args => setToolCall tool args.1 args.2)
  | none => pure (.error (ascii "unsupported tool"))

end Arguments

section Replies

/-- What a reply of the model asks for: an answer, with whether it refuses the goal, or a call of a tool. -/
inductive Reply where
  | final (text : Bytes) (refused : Bool)
  | tool (call : ToolCall)
  deriving DecidableEq, Repr

def parseM4FinalFromResponse (c : PromptContext) (response : Bytes) : Checked (Except Bytes Reply) := do
  let final (text : Bytes) : Except Bytes Reply := .ok (.final text (startsWithTool text (ascii "unsupported goal")))
  let whole ← jsonExtractStringLocal response (ascii "response") toolResultLimit
  if whole ≠ [] then pure (final whole)
  else
    let front ← jsonExtractStringPartialLocal response (ascii "response") toolResultLimit
    if front ≠ [] then pure (final front)
    else if ← latestToolResultRequiresExecutionRecovery c then
      pure (.error (ascii "non-json final not allowed after failed process result"))
    else
      let text := (← trimText response).take toolResultLimit
      pure (if text = [] then .error (ascii "missing final response") else final text)

def looksLikeJsonObjectText (text : Bytes) : Checked Bool := do
  let text ← trimText text
  pure (1 < text.length && text.head? == some openBrace && text.getLast? == some closeBrace)

def toolReply (call : Except Bytes ToolCall) : Except Bytes Reply := call.map .tool

/-- `try_parse_m4_implicit_tool_from_response`: a call that names no tool. -/
def tryParseM4ImplicitTool (goal response : Bytes) : Checked (Option (Except Bytes ToolCall)) := do
  if (← jsonHasKeyLocal response (ascii "type")) || (← jsonHasKeyLocal response (ascii "tool")) ||
      (← jsonHasKeyLocal response (ascii "response")) then pure none
  else if ← jsonHasKeyLocal response (ascii "query") then
    let tool := if requestMentionsXTopic goal then ascii "search_recent_posts" else ascii "search_web"
    some <$> parseM4ToolFromResponse response tool
  else if ← jsonHasKeyLocal response (ascii "username") then
    some <$> parseM4ToolFromResponse response (ascii "get_user_posts")
  else pure none

/-- `parse_m4_model_response` from where it has the text of the reply. -/
def parseM4Reply (c : PromptContext) (response : Bytes) : Checked (Except Bytes Reply) := do
  let kind ← jsonExtractStringLocal response (ascii "type") m4ToolNameMax
  if kind ≠ [] then
    if startsWithTool kind (ascii "final") then parseM4FinalFromResponse c response
    else if ! startsWithTool kind (ascii "tool") && ! isSupportedM4ToolName kind then
      pure (.error (ascii "unsupported model response"))
    else
      let tool ← jsonExtractStringLocal response (ascii "tool") m4ToolNameMax
      let tool := if tool = [] ∧ isSupportedM4ToolName kind then kind else tool
      if tool = [] then pure (.error (ascii "missing tool"))
      else toolReply <$> parseM4ToolFromResponse response tool
  else
    let tool ← jsonExtractStringLocal response (ascii "tool") m4ToolNameMax
    if tool ≠ [] then toolReply <$> parseM4ToolFromResponse response tool
    else
      let text ← jsonExtractStringLocal response (ascii "response") 1024
      if text ≠ [] then parseM4FinalFromResponse c response
      else if ← looksLikeJsonObjectText response then
        match ← tryParseM4ImplicitTool c.goal response with
        | some call => pure (toolReply call)
        | none => pure (.error (ascii "unsupported json shape"))
      else parseM4FinalFromResponse c response

end Replies

end MiniAgentOS.Agent
