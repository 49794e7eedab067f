import MiniAgentOS.Agent.MemoryView
import MiniAgentOS.Session.History
import MiniAgentOS.Session.State

/-! The request to the model: a prompt of bounded sections, and the JSON object around it. -/
namespace MiniAgentOS.Agent
open Checked Session

section Phrases

/-- The bytes of a text in any script. -/
def utf8Text (text : String) : Bytes := text.toList.flatMap fun c => utf8Bytes c.toNat

/-- `contains_ascii_phrase`, which ignores the case of letters. -/
def containsAsciiPhrase (buf pat : Bytes) : Bool :=
  pat ≠ [] ∧ buf.tails.any fun rest => pat.map asciiLower <+: rest.map asciiLower

def containsBytesPhrase (buf pat : Bytes) : Bool := pat ≠ [] ∧ buf.tails.any fun rest => pat <+: rest

/-- Whether one of the phrases or of the texts is there. -/
def mentions (buf : Bytes) (phrases texts : List String) : Bool :=
  phrases.any (fun phrase => containsAsciiPhrase buf (ascii phrase)) ||
    texts.any fun text => containsBytesPhrase buf (utf8Text text)

def requestMentionsPythonOrCodeArtifact (buf : Bytes) : Bool :=
  mentions buf
    [".py", "python"]
    ["脚本", "程序", "代码", "文件"]

def requestMentionsExecutionOrObservedResult (buf : Bytes) : Bool :=
  mentions buf
    ["run", "execute", "check", "verify", "result", "output", "compute"]
    ["运行", "执行", "计算", "结果", "输出", "验证", "检查", "发给我", "告诉我"]

def requestMentionsXTopic (buf : Bytes) : Bool :=
  mentions buf
    ["twitter", "tweet", "x post", "x.com"]
    ["推特", "推文", "发帖"]

def requestRequiresExplicitMemoryInspection (buf : Bytes) : Bool :=
  mentions buf
    ["read_memory", "memory_status", "memory status", "memory-status", "list_memory", "memory list",
     "memory-list", "memory read", "memory-read", "mem-"]
    ["记忆", "内存"]

def requestHasTimelyMarker (buf : Bytes) : Bool :=
  mentions buf
    ["latest", "recent", "current", "today", "now", "up or down"]
    ["最近", "最新", "当前", "目前", "今天", "近期", "刚刚", "刚才"]

def requestHasResearchSubjectMarker (buf : Bytes) : Bool :=
  mentions buf
    ["interest rate", "rates", "federal reserve", "fed", "tariff", "market", "price", "bank",
     "gold", "yield", "statement", "viewpoint", "opinion", "news"]
    ["利率", "汇率", "银行", "黄金", "金价", "价格", "市场", "走势", "波动", "降息", "加息", "美联储", "央行", "新闻", "消息",
     "表态", "观点", "看法"]

def requestLooksLikeReferenceFollowup (buf : Bytes) : Bool :=
  mentions buf
    ["same source", "that source", "that result", "previous answer", "source link", "summarize only"]
    ["刚才", "刚刚", "上面", "上一个", "前面", "同一来源", "来源链接", "只总结", "用中文总结"]

def requestAuthorizesBoundedPythonExecution (buf : Bytes) : Bool :=
  requestMentionsPythonOrCodeArtifact buf && requestMentionsExecutionOrObservedResult buf

def requestPrefersLiveWebResearch (buf : Bytes) : Bool :=
  requestHasTimelyMarker buf && requestHasResearchSubjectMarker buf && !requestMentionsXTopic buf &&
    !requestAuthorizesBoundedPythonExecution buf

end Phrases

section Texts

/-- A long text is written in parts. -/
def textOf (parts : List String) : Bytes := (parts.map ascii).flatten

/-- The text of `INSTRUCTIONS`, in parts. -/
def instructionParts : List String := [
  "You are the MiniAgentOS M4/M5/M6/M7 session agent. Available tools: fetch_url(url), ",
  "post_url(url,json), post_tweet(text), search_web(query), search_recent_posts(query), ",
  "get_user_posts(username), read_session_state(key), write_session_state(key,value), ",
  "list_workspace(path), read_file(path), write_file(path,content), apply_patch(patch), ",
  "run_process(path), read_process_output(process_id), memory_status(), list_memory(kind), ",
  "read_memory(id). You must return only compact JSON with no markdown. If you want to call one tool, ",
  "return exactly one compact JSON object such as ",
  "\x7b\"type\":\"tool\",\"tool\":\"fetch_url\",\"url\":\"...\"\x7d, ",
  "\x7b\"type\":\"tool\",\"tool\":\"post_url\",\"url\":\"...\",\"json\":\"\x7b...\x7d\"\x7d, ",
  "\x7b\"type\":\"tool\",\"tool\":\"post_tweet\",\"text\":\"...\"\x7d, ",
  "\x7b\"type\":\"tool\",\"tool\":\"search_web\",\"query\":\"...\"\x7d, ",
  "\x7b\"type\":\"tool\",\"tool\":\"search_recent_posts\",\"query\":\"...\"\x7d, ",
  "\x7b\"type\":\"tool\",\"tool\":\"get_user_posts\",\"username\":\"...\"\x7d, ",
  "\x7b\"type\":\"tool\",\"tool\":\"read_session_state\",\"key\":\"...\"\x7d, ",
  "\x7b\"type\":\"tool\",\"tool\":\"write_session_state\",\"key\":\"...\",\"value\":\"...\"\x7d, ",
  "\x7b\"type\":\"tool\",\"tool\":\"list_workspace\",\"path\":\"\"\x7d, ",
  "\x7b\"type\":\"tool\",\"tool\":\"read_file\",\"path\":\"hello.py\"\x7d, ",
  "\x7b\"type\":\"tool\",\"tool\":\"write_file\",\"path\":\"hello.py\",\"content\":\"print(\\\"hi\\\")\\n\"\x7d, ",
  "\x7b\"type\":\"tool\",\"tool\":\"apply_patch\",\"patch\":\"*** Begin Patch\\n*** Update File: ",
  "hello.py\\n@@\\n-old\\n+new\\n*** End Patch\"\x7d, ",
  "\x7b\"type\":\"tool\",\"tool\":\"run_process\",\"path\":\"hello.py\"\x7d, ",
  "\x7b\"type\":\"tool\",\"tool\":\"read_process_output\",\"process_id\":\"1\"\x7d, ",
  "\x7b\"type\":\"tool\",\"tool\":\"memory_status\"\x7d, ",
  "\x7b\"type\":\"tool\",\"tool\":\"list_memory\",\"kind\":\"source\"\x7d, or ",
  "\x7b\"type\":\"tool\",\"tool\":\"read_memory\",\"id\":\"mem-task\"\x7d. If you are done, return ",
  "\x7b\"type\":\"final\",\"response\":\"...\"\x7d. Never omit the type and tool fields on a tool call; ",
  "a bare object like \x7b\"query\":\"...\"\x7d is invalid. Use at most one tool call per turn. ",
  "The Current request section is authoritative and always takes precedence over older conversation. ",
  "Keep final responses concise and directly answer the user's request. Tool results are compact JSON; ",
  "inspect them before deciding the next step. Working memory sections are bounded retained summaries, ",
  "not full raw history; use memory_status, list_memory, or read_memory when you need to inspect what ",
  "the runtime currently retained. ",
  "For web research, use search_web for general web search, treat search results as candidate sources, ",
  "and fetch at least one supporting URL before answering if the request asks for evidence, comparison, ",
  "or a sourced answer. For time-sensitive questions about recent developments, current rates, prices, ",
  "market moves, policy changes, or a person's latest public views, prefer search_web before answering ",
  "instead of relying on stale memory or prior conversation alone. If search_web already returned ",
  "non-empty results, your next step should usually be fetch_url on one of those URLs, not another ",
  "search_web. ",
  "If you already fetched supporting page content and it answers a single factual request, return a ",
  "final sourced answer instead of searching again just to confirm the same fact. Only run search_web ",
  "again when the earlier search was empty, clearly irrelevant, stale for the user's request, or the ",
  "user explicitly asked you to broaden, refine, compare additional sources, or get something more ",
  "recent. Use search_recent_posts only for X topic searches, not general web search or account ",
  "timelines. ",
  "For workspace and process tools, stay inside the bounded workspace, prefer list_workspace/read_file ",
  "before editing, use apply_patch for targeted edits, use write_file for full-file replacement, use ",
  "run_process only for bounded Python file execution inside the workspace, and after every run_process ",
  "your next step must be read_process_output for that process_id before any final response. ",
  "If the user asks you to fix code, make a check pass, verify a change, confirm behavior, compute a ",
  "result by running code, or create a file and then run it, you must observe the real process result ",
  "first, and if the observed exit_code is non-zero you must continue by inspecting or editing and then ",
  "rerunning until you have observed success; do not stop after editing alone and do not ask for ",
  "confirmation to run if the Current request already asked you to run, compute, verify, or send the ",
  "result. ",
  "When a coding request explicitly includes both writing or editing code and then executing, checking, ",
  "computing, or reporting its output, writing the file is not sufficient: continue through run_process ",
  "and read_process_output before any final response. Escape newlines inside JSON strings as \\n. If a ",
  "tool result contains \x7b\"ok\":false,...\x7d, adjust and continue instead of pretending it ",
  "succeeded. After fetch_url returns content for a summary request, answer with a final response ",
  "instead of fetching the same URL again unless the user explicitly asks to refetch. ",
  "Prefer using the Latest tool result section before refetching. For follow-up questions about prior ",
  "posts or fetched data, prefer read_session_state. For questions about what a specific person or ",
  "account posted recently, prefer get_user_posts(username). If the user asks something outside the ",
  "available tools, return a brief final refusal."]

def instructions : Bytes := textOf instructionParts

def executionRequirement : Bytes := textOf [
  "The current request already authorizes bounded Python execution inside the workspace. If you ",
  "write or edit a Python file in order to answer this request, you must continue through run_process ",
  "and read_process_output before any final response. Do not ask for permission again; return the ",
  "observed result."]

def timelyRequirement : Bytes := textOf [
  "The current request is a new time-sensitive research question. Your next step should be ",
  "search_web for the current subject, even if earlier turns covered a related topic. Do not answer ",
  "from stale general knowledge, prior conversation, or an older fetched page unless the user ",
  "explicitly asked about that same source or result. If you return a search tool call, include both ",
  "\x7b\"type\":\"tool\"\x7d and \x7b\"tool\":\"search_web\"\x7d; do not return a bare JSON object ",
  "like \x7b\"query\":\"...\"\x7d."]

def inspectionRequirement : Bytes := textOf [
  "The current request explicitly asks you to inspect runtime memory. Before any final answer, ",
  "call the appropriate memory tool instead of inferring memory contents from summaries alone. If the ",
  "request names a memory id such as mem-source, your next step should usually be read_memory for that ",
  "id."]

def nextStepRequirement : Bytes := textOf [
  "You already have non-empty search results. Your next step should usually be fetch_url on one of ",
  "those URLs, not another search_web. Only search again if the result set was empty, clearly ",
  "irrelevant, stale, or the user explicitly asked you to broaden or refine the search."]

def completionRequirement : Bytes := textOf [
  "You already fetched supporting page content. For a single factual request, if this fetched ",
  "content answers the question, your next response should be a final answer that cites the fetched ",
  "URL. Do not call search_web again just to reconfirm the same fact unless the fetched content is ",
  "empty, missing the needed fact, stale, or the user explicitly asked for broader or additional ",
  "sources."]

def recoveryRequirement : Bytes := textOf [
  "You just observed a failed bounded process result. Your next response must be exactly one ",
  "compact JSON tool call that inspects, edits, reruns, or reads process output. Do not return ",
  "natural-language planning text, apologies, or permission questions while recovery is still required."]

def modelName : Bytes := ascii "gpt-5.4-mini"

end Texts

section Builder

def m4CurrentRequestLimit : ℕ := 1024
def m4LatestToolResultLimit : ℕ := 1024
def m4WorkingMemoryLimit : ℕ := 640
def m4KnownSourcesLimit : ℕ := 640
def m4WorkspaceMemoryLimit : ℕ := 640
def m4StateSnapshotLimit : ℕ := 1280
def fetchBodyMax : ℕ := 65536

/-- What the prompt is built from: the goal, the tool that ran last and its result, the memory, the
session state and the history. -/
structure PromptContext where
  goal : Bytes
  tool : Bytes
  toolResult : Bytes
  memory : Memory
  state : SessionState
  history : Bytes

def lastToolWas (c : PromptContext) (name : String) : Bool := startsWithTool c.tool (ascii name)

def latestToolResultRequiresExecutionRecovery (c : PromptContext) : Checked Bool := do
  if c.toolResult = [] then pure false
  else
    let exitCode ← jsonExtractU64 c.toolResult c.toolResult.length (ascii "exit_code")
    pure (exitCode.getD 0 ≠ 0 || containsAsciiPhrase c.toolResult (ascii "\"status\":\"timed_out\"") ||
      containsAsciiPhrase c.toolResult (ascii "\"ok\":false"))

def latestToolResultHasNonemptySearchResults (c : PromptContext) : Bool :=
  lastToolWas c "search_web" && c.toolResult ≠ [] && containsAsciiPhrase c.toolResult (ascii "\"results\":[") &&
    !containsAsciiPhrase c.toolResult (ascii "\"results\":[]")

def latestToolResultIsFetchPreview (c : PromptContext) : Bool :=
  c.toolResult ≠ [] && startsWithTool c.toolResult (ascii "Fetched URL content preview:")

def appendPromptSectionHeader (prompt : Bytes) (title : String) : Bytes :=
  promptAppend (promptAppend prompt (ascii title)) (ascii ":\n")

def appendBoundedPromptBytes (prompt src : Bytes) (limit : ℕ) (empty : String) : Bytes :=
  let sectionEnd := min (prompt.length + limit) m4PromptBufLimit
  let take := copyUtf8Prefix (sectionEnd - prompt.length) src
  let prompt := if take = [] then promptAppend prompt (ascii empty) else prompt ++ take
  promptAppend prompt (ascii "\n\n")

/-- A section that is there under a condition. -/
def appendRequirement (shown : Bool) (title : String) (text : Bytes) (limit : ℕ) (prompt : Bytes) : Bytes :=
  if shown then appendBoundedPromptBytes (appendPromptSectionHeader prompt title) text limit "(none)" else prompt

/-- A section that `write` fills, given the room for it. -/
def appendSection (title : String) (limit : ℕ) (write : ℕ → Bytes) (prompt : Bytes) : Bytes :=
  let prompt := appendPromptSectionHeader prompt title
  let sectionEnd := min (prompt.length + limit) m4PromptBufLimit
  let text := write (sectionEnd - prompt.length)
  if text = [] then promptAppend prompt (ascii "(empty)\n\n") else promptAppend (prompt ++ text) (ascii "\n\n")

/-- `append_state_snapshot_to` for an empty buffer. -/
def stateSnapshot (state : SessionState) (room : ℕ) : Bytes :=
  fillBuffer room (state.slots.flatMap fun slot =>
    if slot.key = [] then [] else [ascii "State[", slot.key, ascii "] = ", slot.value, [lf]])

/-- The sections of the prompt before the history. -/
def promptSections (c : PromptContext) (recovery : Bool) : Bytes :=
  let prompt := appendPromptSectionHeader [] "Current request"
  let prompt := appendBoundedPromptBytes prompt c.goal m4CurrentRequestLimit "(empty)"
  let prompt := appendRequirement (requestAuthorizesBoundedPythonExecution c.goal) "Execution requirement"
    executionRequirement 384 prompt
  let prompt := appendRequirement
    (requestPrefersLiveWebResearch c.goal && !requestLooksLikeReferenceFollowup c.goal)
    "Timely research requirement" timelyRequirement 512 prompt
  let prompt := appendPromptSectionHeader prompt "Latest tool result"
  let prompt := appendBoundedPromptBytes prompt c.toolResult m4LatestToolResultLimit "(none)"
  let prompt := appendRequirement (requestRequiresExplicitMemoryInspection c.goal &&
      !lastToolWas c "memory_status" && !lastToolWas c "list_memory" && !lastToolWas c "read_memory")
    "Memory inspection requirement" inspectionRequirement 384 prompt
  let prompt := appendRequirement (latestToolResultHasNonemptySearchResults c) "Research next-step requirement"
    nextStepRequirement 384 prompt
  let prompt := appendRequirement (latestToolResultIsFetchPreview c) "Research completion requirement"
    completionRequirement 448 prompt
  let prompt := appendRequirement recovery "Execution recovery requirement" recoveryRequirement 384 prompt
  let prompt := appendSection "Working memory" m4WorkingMemoryLimit
    (fun room => appendWorkingMemoryTo room [] m4WorkingMemoryLimit c.memory) prompt
  let prompt := appendSection "Known sources" m4KnownSourcesLimit
    (fun room => appendKnownSourcesTo room [] m4KnownSourcesLimit c.memory) prompt
  let prompt := appendSection "Workspace memory" m4WorkspaceMemoryLimit
    (fun room => appendWorkspaceMemoryTo room [] m4WorkspaceMemoryLimit c.memory) prompt
  appendSection "Session state" m4StateSnapshotLimit (stateSnapshot c.state) prompt

/-- The prompt of `build_m4_openai_request_body`. -/
def buildM4Prompt (c : PromptContext) : Checked Bytes := do
  let recovery ← latestToolResultRequiresExecutionRecovery c
  pure (promptWithHistory (promptSections c recovery) c.goal c.history)

def writeRequestBody (capacity : ℕ) (out prompt : Bytes) : Bytes :=
  let out := appendBytes capacity out (ascii "\x7b\"model\":\"")
  let out := jsonEscapeAppend capacity out modelName
  let out := appendBytes capacity out (ascii "\",\"instructions\":\"")
  let out := jsonEscapeAppend capacity out instructions
  let out := appendBytes capacity out (ascii "\",\"input\":\"")
  let out := jsonEscapeAppend capacity out prompt
  appendBytes capacity out
    (ascii "\",\"reasoning\":\x7b\"effort\":\"low\"\x7d,\"max_output_tokens\":1400\x7d")

def buildM4OpenaiRequestBody (capacity : ℕ) (c : PromptContext) : Checked Bytes := do
  let prompt ← buildM4Prompt c
  pure (writeRequestBody capacity [] prompt)

end Builder

section Front

variable {front prompt : Bytes} {c : PromptContext}

theorem promptAppend_front (prompt bytes : Bytes) : prompt <+: promptAppend prompt bytes := List.prefix_append _ _

theorem appendPromptSectionHeader_front (prompt : Bytes) (title : String) :
    prompt <+: appendPromptSectionHeader prompt title :=
  (promptAppend_front _ _).trans (promptAppend_front _ _)

theorem appendBoundedPromptBytes_front (prompt src : Bytes) (limit : ℕ) (empty : String) :
    prompt <+: appendBoundedPromptBytes prompt src limit empty := by
  unfold appendBoundedPromptBytes
  dsimp only
  split_ifs
  · exact (promptAppend_front _ _).trans (promptAppend_front _ _)
  · exact (List.prefix_append _ _).trans (promptAppend_front _ _)

theorem appendRequirement_front (shown : Bool) (title : String) (text : Bytes) (limit : ℕ) (prompt : Bytes) :
    prompt <+: appendRequirement shown title text limit prompt := by
  unfold appendRequirement
  split_ifs
  · exact (appendPromptSectionHeader_front _ _).trans (appendBoundedPromptBytes_front _ _ _ _)
  · exact List.prefix_rfl

theorem appendSection_front (title : String) (limit : ℕ) (write : ℕ → Bytes) (prompt : Bytes) :
    prompt <+: appendSection title limit write prompt := by
  have hheader := appendPromptSectionHeader_front prompt title
  unfold appendSection
  dsimp only
  split_ifs
  · exact hheader.trans (promptAppend_front _ _)
  · exact hheader.trans ((List.prefix_append _ _).trans (promptAppend_front _ _))

/-- The section of the current request. -/
def currentRequest (goal : Bytes) : Bytes :=
  let text := copyUtf8Prefix m4CurrentRequestLimit goal
  ascii "Current request:\n" ++ (if text = [] then ascii "(empty)" else text) ++ ascii "\n\n"

theorem currentRequest_length_le (goal : Bytes) : (currentRequest goal).length ≤ 1050 := by
  have hlen := copyUtf8Prefix_length_le m4CurrentRequestLimit goal
  have htext : (if copyUtf8Prefix m4CurrentRequestLimit goal = [] then ascii "(empty)"
      else copyUtf8Prefix m4CurrentRequestLimit goal).length ≤ 1024 := by
    split_ifs
    · rw [ascii_length rfl]
      decide
    · exact hlen
  unfold currentRequest
  dsimp only
  rw [List.length_append, List.length_append, ascii_length rfl, ascii_length rfl]
  simp only [List.length_cons, List.length_nil]
  omega

theorem currentRequest_utf8 (goal : Bytes) : Utf8 (currentRequest goal) := by
  have hline : Utf8 (ascii "\n\n") := by decide +kernel
  have htext : Utf8 (if copyUtf8Prefix m4CurrentRequestLimit goal = [] then ascii "(empty)"
      else copyUtf8Prefix m4CurrentRequestLimit goal) := by
    split_ifs
    · exact (plain_ascii rfl (by decide)).utf8
    · exact copyUtf8Prefix_utf8 _ _
  have htitle : Utf8 (ascii "Current request:\n") := by decide +kernel
  exact (htitle.append htext).append hline

theorem promptAppend_eq {bytes : Bytes} (h : prompt.length + bytes.length ≤ m4PromptBufLimit) :
    promptAppend prompt bytes = prompt ++ bytes := by
  rw [promptAppend, List.take_of_length_le (by omega)]

theorem currentRequest_title :
    appendPromptSectionHeader [] "Current request" = ascii "Current request:\n" := by
  have htitle : promptAppend [] (ascii "Current request") = ascii "Current request" :=
    promptAppend_eq (by rw [ascii_length rfl]; decide)
  rw [appendPromptSectionHeader, htitle, promptAppend_eq]
  · simp [ascii]
  · rw [ascii_length rfl, ascii_length rfl]
    decide

theorem currentRequest_first (goal : Bytes) : appendBoundedPromptBytes
    (appendPromptSectionHeader [] "Current request") goal m4CurrentRequestLimit "(empty)" = currentRequest goal := by
  have hlen : (ascii "Current request:\n").length = 17 := ascii_length rfl
  have hroom : min (17 + m4CurrentRequestLimit) m4PromptBufLimit - 17 = m4CurrentRequestLimit := by decide
  have hcopy : _ ≤ 1024 := copyUtf8Prefix_length_le m4CurrentRequestLimit goal
  unfold appendBoundedPromptBytes currentRequest
  rw [currentRequest_title, hlen]
  dsimp only
  rw [hroom]
  have hend : (ascii "\n\n").length = 2 := ascii_length rfl
  split_ifs
  · have hempty : (ascii "(empty)").length = 7 := ascii_length rfl
    have hshort : promptAppend (ascii "Current request:\n") (ascii "(empty)") =
        ascii "Current request:\n" ++ ascii "(empty)" := promptAppend_eq (by rw [hlen, hempty]; decide)
    rw [hshort, promptAppend_eq]
    rw [List.length_append, hlen, hempty, hend]
    decide
  · rw [promptAppend_eq]
    rw [List.length_append, hlen, hend]
    unfold m4PromptBufLimit
    omega

/-- The prompt begins with the current request. -/
theorem currentRequest_front (c : PromptContext) (recovery : Bool) :
    currentRequest c.goal <+: promptSections c recovery := by
  unfold promptSections
  dsimp only
  rw [currentRequest_first]
  refine List.IsPrefix.trans ?_ (appendSection_front _ _ _ _)
  refine List.IsPrefix.trans ?_ (appendSection_front _ _ _ _)
  refine List.IsPrefix.trans ?_ (appendSection_front _ _ _ _)
  refine List.IsPrefix.trans ?_ (appendSection_front _ _ _ _)
  refine List.IsPrefix.trans ?_ (appendRequirement_front _ _ _ _ _)
  refine List.IsPrefix.trans ?_ (appendRequirement_front _ _ _ _ _)
  refine List.IsPrefix.trans ?_ (appendRequirement_front _ _ _ _ _)
  refine List.IsPrefix.trans ?_ (appendRequirement_front _ _ _ _ _)
  refine List.IsPrefix.trans ?_ (appendBoundedPromptBytes_front _ _ _ _)
  refine List.IsPrefix.trans ?_ (appendPromptSectionHeader_front _ _)
  refine List.IsPrefix.trans ?_ (appendRequirement_front _ _ _ _ _)
  exact appendRequirement_front _ _ _ _ _

/-- The cut to what the model takes leaves the front of the prompt. -/
theorem promptWithHistory_front (hvalid : Utf8 front) (hlen : front.length ≤ m4ModelInputLimit)
    (hfront : front <+: prompt) (goal history : Bytes) : front <+: promptWithHistory prompt goal history := by
  unfold promptWithHistory
  dsimp only
  have hall := hfront.trans ((promptAppend_front prompt recentConversationHeader).trans
    (promptAppend_front _ (conversationSection (historySuffixExcludingCurrentUser goal history
      (min ((promptAppend prompt recentConversationHeader).length + m4RecentConversationLimit) m4PromptBufLimit -
        (promptAppend prompt recentConversationHeader).length) m4RecentConversationLimit))))
  split_ifs with hlong
  · obtain ⟨rest, hrest⟩ := hall
    rw [← hrest]
    obtain ⟨more, hcopy, -⟩ := copyUtf8Prefix_append hvalid hlen rest
    exact ⟨more, hcopy.symm⟩
  · exact hall

theorem promptWithHistory_length_le (prompt goal history : Bytes) :
    (promptWithHistory prompt goal history).length ≤ m4ModelInputLimit := by
  unfold promptWithHistory
  dsimp only
  split_ifs with hlong
  · exact copyUtf8Prefix_length_le _ _
  · omega

end Front

section Body

variable {capacity : ℕ} {text prompt : Bytes}

/-- Bytes that can be printed take two bytes at most. -/
def PrintText (text : Bytes) : Prop := ∀ b ∈ text, 32 ≤ b.toNat ∧ b.toNat ≤ 126

set_option maxRecDepth 4000 in
theorem print_byte : ∀ b : UInt8, 32 ≤ b.toNat ∧ b.toNat ≤ 126 → b ≤ 0x7f ∧ (escapeChar [b]).length ≤ 2 :=
  forall_byte (by decide)

theorem PrintText.utf8 (h : PrintText text) : Utf8 text := utf8_ascii fun b hb => (print_byte b (h b hb)).1

theorem PrintText.escape_length_le (h : PrintText text) : (jsonEscape text).length ≤ 2 * text.length := by
  induction text with
  | nil => exact Nat.zero_le _
  | cons b text ih =>
    obtain ⟨hlow, htwo⟩ := print_byte b (h b List.mem_cons_self)
    have hrest := ih fun a ha => h a (List.mem_cons_of_mem _ ha)
    have hchar := jsonEscape_char (.one hlow) text
    rw [List.singleton_append] at hchar
    rw [hchar, List.length_append, List.length_cons]
    omega

theorem print_ascii {s : String} {l : List Char} (h : s = String.ofList l)
    (hl : l.all (fun c => 32 ≤ c.toNat ∧ c.toNat ≤ 126) = true) : PrintText (ascii s) := by
  rw [ascii_eq h]
  intro b hb
  obtain ⟨c, hc, rfl⟩ := List.mem_map.mp hb
  have hprint := of_decide_eq_true (List.all_eq_true.mp hl c hc)
  have hnat : (UInt8.ofNat c.toNat).toNat = c.toNat := by
    rw [UInt8.toNat_ofNat', Nat.mod_eq_of_lt (by omega)]
  rw [hnat]
  exact hprint

/-- A part of a long text. -/
structure PrintPart (s : String) : Prop where
  print : PrintText (ascii s)
  length : (ascii s).length ≤ 112

theorem printPart {s : String} {l : List Char} (h : s = String.ofList l)
    (hl : l.all (fun c => 32 ≤ c.toNat ∧ c.toNat ≤ 126) = true) (hlen : l.length ≤ 112) : PrintPart s :=
  ⟨print_ascii h hl, by rwa [ascii_length h]⟩

theorem printParts {parts : List String} (h : ∀ s ∈ parts, PrintPart s) :
    PrintText (textOf parts) ∧ (textOf parts).length ≤ 112 * parts.length := by
  induction parts with
  | nil => exact ⟨fun b hb => absurd hb List.not_mem_nil, Nat.zero_le _⟩
  | cons s parts ih =>
    obtain ⟨hprint, hlen⟩ := ih fun other hother => h other (List.mem_cons_of_mem _ hother)
    have hs := h s List.mem_cons_self
    have hsplit : textOf (s :: parts) = ascii s ++ textOf parts := by
      rw [textOf, List.map_cons, List.flatten_cons]
      rfl
    rw [hsplit, List.length_cons]
    constructor
    · intro b hb
      rcases List.mem_append.mp hb with hpart | hrest
      · exact hs.print b hpart
      · exact hprint b hrest
    · have hpart := hs.length
      rw [List.length_append]
      omega

set_option maxRecDepth 8000 in
theorem instructionParts_print : ∀ s ∈ instructionParts, PrintPart s := by
  unfold instructionParts
  simp only [List.forall_mem_cons, List.not_mem_nil, false_imp_iff, implies_true, and_true]
  repeat' apply And.intro
  all_goals exact printPart rfl (by decide +kernel) (by decide +kernel)

theorem instructions_escape_length_le : (jsonEscape instructions).length ≤ 14560 := by
  obtain ⟨hprint, hlen⟩ := printParts instructionParts_print
  have hparts : 112 * instructionParts.length = 112 * 65 := rfl
  rw [hparts] at hlen
  exact hprint.escape_length_le.trans (Nat.mul_le_mul_left 2 hlen)

/-- The value of the request. -/
def requestJson (prompt : Bytes) : Json :=
  .obj [(ascii "model", .str modelName), (ascii "instructions", .str instructions), (ascii "input", .str prompt),
    (ascii "reasoning", .obj [(ascii "effort", .str (ascii "low"))]), (ascii "max_output_tokens", .num 1400)]

theorem requestJson_compact (prompt : Bytes) : (requestJson prompt).compact =
    ascii "\x7b\"model\":\"" ++ jsonEscape modelName ++ ascii "\",\"instructions\":\"" ++ jsonEscape instructions ++
      ascii "\",\"input\":\"" ++ jsonEscape prompt ++
      ascii "\",\"reasoning\":\x7b\"effort\":\"low\"\x7d,\"max_output_tokens\":1400\x7d" := by
  have hmodel := compactMember_ascii (s := "model") rfl (by decide)
  have hinstructions := compactMember_ascii (s := "instructions") rfl (by decide)
  have hinput := compactMember_ascii (s := "input") rfl (by decide)
  have hreasoning := compactMember_ascii (s := "reasoning") rfl (by decide)
  have heffort := compactMember_ascii (s := "effort") rfl (by decide)
  have htokens := compactMember_ascii (s := "max_output_tokens") rfl (by decide)
  have hlow := (plain_ascii (s := "low") rfl (by decide)).escape
  have hnumber : u64ToDec 1400 = ascii "1400" := by
    rw [ascii_eq rfl]
    decide +kernel
  have hmodel' : ascii "\x7b\"model\":\"" = openBrace :: quote :: ascii "model" ++ [quote, colon, quote] := by
    rw [ascii_eq rfl, ascii_eq rfl]
    rfl
  have hinstructions' : ascii "\",\"instructions\":\"" =
      quote :: comma :: quote :: ascii "instructions" ++ [quote, colon, quote] := by
    rw [ascii_eq rfl, ascii_eq rfl]
    rfl
  have hinput' : ascii "\",\"input\":\"" = quote :: comma :: quote :: ascii "input" ++ [quote, colon, quote] := by
    rw [ascii_eq rfl, ascii_eq rfl]
    rfl
  have hclosing : ascii "\",\"reasoning\":\x7b\"effort\":\"low\"\x7d,\"max_output_tokens\":1400\x7d" =
      quote :: comma :: quote :: ascii "reasoning" ++ quote :: colon :: openBrace :: quote :: ascii "effort" ++
        quote :: colon :: quote :: ascii "low" ++ quote :: closeBrace :: comma :: quote ::
        ascii "max_output_tokens" ++ quote :: colon :: ascii "1400" ++ [closeBrace] := by
    rw [ascii_eq rfl, ascii_eq rfl, ascii_eq rfl, ascii_eq rfl, ascii_eq rfl, ascii_eq rfl]
    rfl
  unfold requestJson
  generalize instructions = text
  simp -implicitDefEqProofs only [Json.compact, compactMembers, hmodel, hinstructions, hinput, hreasoning, heffort,
    htokens, hlow, hnumber, hmodel', hinstructions', hinput', hclosing, List.append_assoc, List.cons_append,
    List.nil_append]

theorem requestJson_length_le (h : prompt.length ≤ m4ModelInputLimit) :
    (requestJson prompt).compact.length ≤ fetchBodyMax := by
  have hinstructions := instructions_escape_length_le
  have hsix := jsonEscape_length_le prompt
  have hmodel : jsonEscape modelName = modelName := (plain_ascii rfl (by decide)).escape
  have hname : modelName.length = 12 := ascii_length rfl
  have hopening : (ascii "\x7b\"model\":\"").length = 10 := ascii_length rfl
  have hkey : (ascii "\",\"instructions\":\"").length = 18 := ascii_length rfl
  have hinput : (ascii "\",\"input\":\"").length = 11 := ascii_length rfl
  have hclosing : (ascii "\",\"reasoning\":\x7b\"effort\":\"low\"\x7d,\"max_output_tokens\":1400\x7d").length = 56 :=
    ascii_length rfl
  rw [requestJson_compact, hmodel]
  simp only [List.length_append]
  -- the texts are closed, so no tactic may look into them
  generalize (jsonEscape instructions).length = n at hinstructions ⊢
  generalize (jsonEscape prompt).length = k at hsix ⊢
  generalize modelName.length = name at hname ⊢
  rw [hopening, hkey, hinput, hclosing]
  unfold m4ModelInputLimit at h
  unfold fetchBodyMax
  omega

/-- In a buffer with room for it, the request is written as the compact text of its value. -/
theorem writeRequestBody_writes (capacity : ℕ) (prompt : Bytes) :
    Writes capacity (fun out => writeRequestBody capacity out prompt) (requestJson prompt).compact := by
  refine Writes.of_eq ?_ (requestJson_compact prompt).symm
  exact (((((((Writes.start capacity).bytes _).escape _).bytes _).escape _).bytes _).escape _).bytes _

theorem requestJson_valid (h : Utf8 prompt) : (requestJson prompt).Valid := by
  have hkey : ∀ {s : String} {l : List Char}, s = String.ofList l → l.all PlainChar = true → Utf8 (ascii s) :=
    fun hs hl => (plain_ascii hs hl).utf8
  have hinstructions : Utf8 instructions := (printParts instructionParts_print).1.utf8
  refine ⟨⟨hkey rfl (by decide), ?_⟩, ⟨hkey rfl (by decide), hinstructions⟩, ⟨hkey rfl (by decide), h⟩,
    ⟨hkey rfl (by decide), ⟨hkey rfl (by decide), ?_⟩, trivial⟩, ⟨hkey rfl (by decide), ?_⟩, trivial⟩
  · exact hkey rfl (by decide)
  · exact hkey rfl (by decide)
  · change 1400 < 10 ^ 20
    omega

theorem requestJson_repair (prompt : Bytes) :
    (requestJson (utf8Repair prompt)).compact = (requestJson prompt).compact := by
  rw [requestJson_compact, requestJson_compact, jsonEscape_repair]

theorem requestJson_utf8 (prompt : Bytes) : Utf8 (requestJson prompt).compact := by
  have hopening : Utf8 (ascii "\x7b\"model\":\"") := (print_ascii rfl (by decide)).utf8
  have hkey : Utf8 (ascii "\",\"instructions\":\"") := (print_ascii rfl (by decide)).utf8
  have hinput : Utf8 (ascii "\",\"input\":\"") := (print_ascii rfl (by decide)).utf8
  have hclosing : Utf8 (ascii "\",\"reasoning\":\x7b\"effort\":\"low\"\x7d,\"max_output_tokens\":1400\x7d") :=
    (print_ascii rfl (by decide)).utf8
  have hescape : ∀ text : Bytes, Utf8 (jsonEscape text) := fun text => (jsonEscape_escaped text).utf8
  rw [requestJson_compact]
  generalize instructions = text
  apply Utf8.append _ hclosing
  apply Utf8.append _ (hescape prompt)
  apply Utf8.append _ hinput
  apply Utf8.append _ (hescape text)
  apply Utf8.append _ hkey
  exact hopening.append (hescape modelName)

end Body

section Request

variable {c : PromptContext}

theorem latestToolResultRequiresExecutionRecovery_returns (c : PromptContext) :
    Returns (latestToolResultRequiresExecutionRecovery c) fun _ => True := by
  apply Returns.ite
  · exact fun _ => Returns.pure trivial
  intro _
  apply Returns.bind (jsonExtractU64_returns le_rfl)
  intro exitCode _
  exact Returns.pure trivial

/-- The body is the whole text of an object whose input is the prompt, repaired. -/
theorem buildM4OpenaiRequestBody_eq (c : PromptContext) : ∃ prompt,
    buildM4Prompt c = .ok prompt ∧
    buildM4OpenaiRequestBody fetchBodyMax c = .ok (requestJson (utf8Repair prompt)).compact ∧
    prompt.length ≤ m4ModelInputLimit ∧ currentRequest c.goal <+: prompt := by
  obtain ⟨recovery, hrecovery, -⟩ := latestToolResultRequiresExecutionRecovery_returns c
  have hprompt : buildM4Prompt c = .ok (promptWithHistory (promptSections c recovery) c.goal c.history) := by
    rw [buildM4Prompt, hrecovery, ok_bind]
    rfl
  have hfront := promptWithHistory_front (currentRequest_utf8 c.goal)
    ((currentRequest_length_le c.goal).trans (by decide)) (currentRequest_front c recovery) c.goal c.history
  have hlen := promptWithHistory_length_le (promptSections c recovery) c.goal c.history
  generalize promptWithHistory (promptSections c recovery) c.goal c.history = prompt at hprompt hfront hlen
  have hbody : writeRequestBody fetchBodyMax [] prompt = (requestJson (utf8Repair prompt)).compact := by
    have hroom : ([] : Bytes).length + (requestJson prompt).compact.length ≤ fetchBodyMax := by
      rw [List.length_nil, Nat.zero_add]
      exact requestJson_length_le hlen
    have hwrites := writeRequestBody_writes fetchBodyMax prompt [] hroom
    rw [List.nil_append] at hwrites
    rw [requestJson_repair]
    exact hwrites
  refine ⟨prompt, hprompt, ?_, hlen, hfront⟩
  rw [buildM4OpenaiRequestBody, hprompt, ok_bind, hbody]
  rfl

/-- Whatever the goal, the tool result, the memory, the state and the history are: the prompt keeps to
its bound and begins with the current request, and the body is the whole text of an object whose input
is the prompt, repaired. -/
theorem buildM4OpenaiRequestBody_complete (c : PromptContext) : ∃ prompt body,
    buildM4Prompt c = .ok prompt ∧ buildM4OpenaiRequestBody fetchBodyMax c = .ok body ∧
    prompt.length ≤ m4ModelInputLimit ∧ currentRequest c.goal <+: prompt ∧
    JsonText (requestJson (utf8Repair prompt)) body ∧ Utf8 body := by
  obtain ⟨prompt, hprompt, hbody, hlen, hfront⟩ := buildM4OpenaiRequestBody_eq c
  refine ⟨prompt, (requestJson (utf8Repair prompt)).compact, hprompt, hbody, hlen, hfront, ?_, ?_⟩
  · exact (requestJson (utf8Repair prompt)).compact_text (requestJson_valid (utf8Repair_utf8 prompt))
  · exact requestJson_utf8 (utf8Repair prompt)

end Request

end MiniAgentOS.Agent
