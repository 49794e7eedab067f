import MiniAgentOS.Agent.Tools
import MiniAgentOS.Text.Capacity

/-! Which tool a name denotes: the four chains agree, since no name of a tool is in front of another. But each takes
a longer name for the tool whose name is in front of it. -/
namespace MiniAgentOS.Agent
open Checked Session

section Chains

variable {name : Bytes} {tool other : Tool} {chain : List Tool}

theorem toolName_length (tool : Tool) : 4 < (toolName tool).length ∧ (toolName tool).length ≤ 19 := by
  cases tool <;> decide

theorem mem_chains (tool : Tool) : tool ∈ supportedTools ∧ tool ∈ parsedTools ∧
    (tool ∈ syncTools ∨ tool ∈ asyncTools) ∧ (tool ∈ syncTools → tool ∉ asyncTools) := by
  cases tool <;> decide

/-- No tool's name is in front of another tool's. -/
theorem toolName_compared : ∀ tool ∈ supportedTools, ∀ other ∈ supportedTools,
    toolName tool <+: toolName other → tool = other := by
  decide +kernel

theorem tool_unique (h : toolName tool <+: name) (hother : toolName other <+: name) : tool = other := by
  rcases List.prefix_or_prefix_of_prefix h hother with hpre | hpre
  · exact toolName_compared tool (mem_chains tool).1 other (mem_chains other).1 hpre
  · exact (toolName_compared other (mem_chains other).1 tool (mem_chains tool).1 hpre).symm

theorem firstNamed_eq_some : firstNamed chain name = some tool ↔ tool ∈ chain ∧ toolName tool <+: name := by
  unfold firstNamed
  constructor
  · intro h
    have hfound := List.find?_some h
    exact ⟨List.mem_of_find?_eq_some h, startsWithTool_iff.mp hfound⟩
  · intro ⟨hmem, hname⟩
    cases hfind : chain.find? fun tool => startsWithTool name (toolName tool) with
    | none => exact absurd (startsWithTool_iff.mpr hname) (List.find?_eq_none.mp hfind tool hmem)
    | some found =>
      have hfound := List.find?_some hfind
      rw [tool_unique hname (startsWithTool_iff.mp hfound)]

theorem parsedTool_iff : firstNamed parsedTools name = some tool ↔ toolName tool <+: name := by
  rw [firstNamed_eq_some, and_iff_right (mem_chains tool).2.1]

theorem executedTool_iff : executedTool name = some tool ↔ toolName tool <+: name := by
  obtain ⟨-, -, hchain, -⟩ := mem_chains tool
  unfold executedTool
  constructor
  · intro h
    rcases Option.or_eq_some_iff.mp h with hsync | ⟨-, hasync⟩
    · exact (firstNamed_eq_some.mp hsync).2
    · exact (firstNamed_eq_some.mp hasync).2
  · intro h
    cases hsync : firstNamed syncTools name with
    | some found =>
      rw [Option.some_or, tool_unique h (firstNamed_eq_some.mp hsync).2]
    | none =>
      have hnot : tool ∉ syncTools := fun hmem => by
        rw [firstNamed_eq_some.mpr ⟨hmem, h⟩] at hsync
        cases hsync
      rw [Option.none_or, firstNamed_eq_some]
      exact ⟨hchain.resolve_left hnot, h⟩

theorem isSupported_iff : isSupportedM4ToolName name = true ↔ ∃ tool, toolName tool <+: name := by
  unfold isSupportedM4ToolName
  rw [Option.isSome_iff_exists]
  constructor
  · intro ⟨tool, h⟩
    exact ⟨tool, (firstNamed_eq_some.mp h).2⟩
  · intro ⟨tool, h⟩
    exact ⟨tool, firstNamed_eq_some.mpr ⟨(mem_chains tool).1, h⟩⟩

end Chains

section Names

variable {c : PromptContext} {response name : Bytes} {tool : Tool}

def typeText (response : Bytes) : Bytes := stringBehind response (ascii "type")

def toolText (response : Bytes) : Bytes := stringBehind response (ascii "tool")

/-- The name that a reply gives, whole: that of its tool, or else its type. -/
def givenName (response : Bytes) : Bytes := if toolText response ≠ [] then toolText response else typeText response

/-- A type that the loop takes for a call of a tool. -/
def AcceptedType (kind : Bytes) : Prop := kind = [] ∨ ascii "tool" <+: kind ∨ ∃ tool, toolName tool <+: kind

/-- An argument that the tool needs is missing. -/
def Incomplete (response : Bytes) (tool : Tool) : Prop := ∃ reason, toolArguments response tool = .ok (.error reason)

/-- The reply holds no answer that the loop takes. -/
def Unanswered (c : PromptContext) (response : Bytes) : Prop :=
  ∃ reason, parseM4FinalFromResponse c response = .ok (.error reason)

theorem oneArgument_returns (response : Bytes) (key : String) (missing : Option String) :
    Returns (oneArgument response key missing) fun _ => True := by
  obtain ⟨text, htext, -⟩ := stringBehind_cut response (ascii key) m4ToolArg1Max
  unfold oneArgument
  rw [htext, ok_bind]
  cases missing with
  | none => exact Returns.pure trivial
  | some reason => exact Returns.pure trivial

theorem longArgument_returns (response : Bytes) (key missing incomplete : String) :
    Returns (longArgument response key missing incomplete) fun _ => True := by
  obtain ⟨text, htext, -⟩ := stringBehind_cut response (ascii key) m4ToolArg2Max
  unfold longArgument
  rw [htext, ok_bind]
  apply Returns.ite
  · intro _
    apply Returns.bind (jsonHasKeyLocal_returns response (ascii key))
    intro found _
    apply Returns.ite
    · exact fun _ => Returns.pure trivial
    · intro _
      apply Returns.bind (jsonStringKeyIsExplicitlyEmpty_returns response (ascii key))
      intro empty _
      apply Returns.ite
      · exact fun _ => Returns.pure trivial
      · exact fun _ => Returns.pure trivial
  · exact fun _ => Returns.pure trivial

theorem toolArguments_returns (response : Bytes) (tool : Tool) : Returns (toolArguments response tool) fun _ => True := by
  obtain ⟨url, hurl, -⟩ := stringBehind_cut response (ascii "url") m4ToolArg1Max
  obtain ⟨json, hjson, -⟩ := stringBehind_cut response (ascii "json") m4ToolArg2Max
  obtain ⟨key, hkey, -⟩ := stringBehind_cut response (ascii "key") m4ToolArg1Max
  obtain ⟨value, hvalue, -⟩ := stringBehind_cut response (ascii "value") m4ToolArg2Max
  obtain ⟨path, hpath, -⟩ := stringBehind_cut response (ascii "path") m4ToolArg1Max
  cases tool with
  | memoryStatus => exact Returns.pure trivial
  | postUrl =>
    rw [toolArguments, hurl, ok_bind, hjson, ok_bind]
    apply Returns.ite
    · exact fun _ => Returns.pure trivial
    · intro _
      apply Returns.ite
      · exact fun _ => Returns.pure trivial
      · exact fun _ => Returns.pure trivial
  | writeSessionState =>
    rw [toolArguments, hkey, ok_bind, hvalue, ok_bind]
    exact Returns.pure trivial
  | writeFile =>
    rw [toolArguments, hpath, ok_bind]
    apply Returns.ite
    · exact fun _ => Returns.pure trivial
    · intro _
      apply Returns.bind (longArgument_returns response _ _ _)
      exact fun _ _ => Returns.pure trivial
  | applyPatch =>
    apply Returns.bind (longArgument_returns response _ _ _)
    exact fun _ _ => Returns.pure trivial
  | _ =>
    rw [toolArguments]
    exact oneArgument_returns response _ _

/-- What the loop makes of an answer: it is taken or refused, and is never a call. -/
def FinalReply (reply : Except Bytes Reply) : Prop :=
  (∃ reason, reply = .error reason) ∨ ∃ text refused, reply = .ok (.final text refused)

theorem recovery_returns (c : PromptContext) :
    Returns (latestToolResultRequiresExecutionRecovery c) fun _ => True := by
  unfold latestToolResultRequiresExecutionRecovery
  apply Returns.ite
  · exact fun _ => Returns.pure trivial
  · intro _
    apply Returns.bind (jsonExtractU64_returns le_rfl)
    exact fun _ _ => Returns.pure trivial

theorem parseM4Final_returns (c : PromptContext) (response : Bytes) :
    Returns (parseM4FinalFromResponse c response) FinalReply := by
  have hfinal : ∀ text : Bytes, FinalReply (.ok (.final text (startsWithTool text (ascii "unsupported goal")))) :=
    fun text => .inr ⟨text, _, rfl⟩
  obtain ⟨whole, hwhole, -⟩ := stringBehind_cut response (ascii "response") toolResultLimit
  unfold parseM4FinalFromResponse
  dsimp only
  rw [hwhole, ok_bind]
  apply Returns.ite
  · exact fun _ => Returns.pure (hfinal whole)
  intro _
  apply Returns.bind (jsonExtractStringPartialLocal_returns response (ascii "response") toolResultLimit)
  intro front _
  apply Returns.ite
  · exact fun _ => Returns.pure (hfinal front)
  intro _
  apply Returns.bind (recovery_returns c)
  intro recovery _
  apply Returns.ite
  · exact fun _ => Returns.pure (.inl ⟨_, rfl⟩)
  intro _
  apply Returns.bind (trimText_returns response)
  intro text _
  apply Returns.pure
  split
  · exact .inl ⟨_, rfl⟩
  · exact hfinal _

/-- A name that goes with the given one as far as the buffer for names is looked up as the given one. -/
theorem parseTool_given (h : SameFront m4ToolNameMax name (givenName response)) (hlength : name.length ≤ m4ToolNameMax) :
    ((∀ tool, ¬ toolName tool <+: givenName response) ∧
      parseM4ToolFromResponse response name = .ok (.error (ascii "unsupported tool"))) ∨
    ∃ tool arguments, toolName tool <+: givenName response ∧ toolArguments response tool = .ok arguments ∧
      executedTool name = some tool ∧ parseM4ToolFromResponse response name =
        .ok (arguments.map fun args => ⟨name, args.1.take m4ToolArg1Max, args.2.take m4ToolArg2Max⟩) := by
  have hstarts : ∀ tool, toolName tool <+: name ↔ toolName tool <+: givenName response := by
    intro tool
    obtain ⟨-, hshort⟩ := toolName_length tool
    apply h.starts_iff
    unfold m4ToolNameMax
    omega
  unfold parseM4ToolFromResponse
  cases hnamed : firstNamed parsedTools name with
  | none =>
    left
    refine ⟨?_, rfl⟩
    intro tool hpre
    rw [parsedTool_iff.mpr ((hstarts tool).mpr hpre)] at hnamed
    cases hnamed
  | some tool =>
    right
    have hname := parsedTool_iff.mp hnamed
    obtain ⟨arguments, harguments, -⟩ := toolArguments_returns response tool
    refine ⟨tool, arguments, (hstarts tool).mp hname, harguments, executedTool_iff.mpr hname, ?_⟩
    dsimp only
    rw [harguments, ok_bind]
    unfold setToolCall
    rw [List.take_of_length_le hlength]
    rfl

/-- What the loop makes of a reply that gives a name and is no answer. -/
inductive NamedReply (response : Bytes) : Except Bytes Reply → Prop where
  | unsupported (reason : Bytes) : ¬ AcceptedType (typeText response) → NamedReply response (.error reason)
  | unnamed (reason : Bytes) : (∀ tool, ¬ toolName tool <+: givenName response) → NamedReply response (.error reason)
  | incomplete {tool : Tool} {reason : Bytes} : toolName tool <+: givenName response →
      toolArguments response tool = .ok (.error reason) → NamedReply response (.error reason)
  | called {tool : Tool} {call : ToolCall} {args : Bytes × Bytes} : AcceptedType (typeText response) →
      toolName tool <+: givenName response → toolArguments response tool = .ok (.ok args) →
      executedTool call.name = some tool → NamedReply response (.ok (.tool call))

theorem parseTool_named (h : SameFront m4ToolNameMax name (givenName response)) (hlength : name.length ≤ m4ToolNameMax)
    (haccepted : AcceptedType (typeText response)) :
    Returns (toolReply <$> parseM4ToolFromResponse response name) (NamedReply response) := by
  rcases parseTool_given h hlength with ⟨hnone, hparse⟩ | ⟨tool, arguments, hname, harguments, hexecuted, hparse⟩
  · rw [hparse, Except.map_ok, returns_ok]
    exact .unnamed _ hnone
  · rw [hparse, Except.map_ok, returns_ok]
    cases arguments with
    | error reason => exact .incomplete hname harguments
    | ok args => exact .called haccepted hname harguments hexecuted

theorem parseM4Reply_final (h : ascii "final" <+: typeText response) :
    parseM4Reply c response = parseM4FinalFromResponse c response := by
  obtain ⟨kind, hkind, -, hfront, -⟩ := stringBehind_cut response (ascii "type") m4ToolNameMax
  have hpre : ascii "final" <+: kind := (hfront.starts_iff (by decide)).mpr h
  have hne : kind ≠ [] := by
    rintro rfl
    exact absurd (List.prefix_nil.mp hpre) (by decide)
  unfold parseM4Reply
  rw [hkind, ok_bind, if_pos hne, if_pos (startsWithTool_iff.mpr hpre)]

theorem parseM4Reply_named (hgiven : givenName response ≠ []) (hfinal : ¬ ascii "final" <+: typeText response) :
    Returns (parseM4Reply c response) (NamedReply response) := by
  obtain ⟨kind, hkind, hkindLength, hkindFront, -⟩ := stringBehind_cut response (ascii "type") m4ToolNameMax
  obtain ⟨tool, htool, htoolLength, htoolFront, -⟩ := stringBehind_cut response (ascii "tool") m4ToolNameMax
  have hkindNil : kind = [] ↔ typeText response = [] := hkindFront.nil_iff (by decide)
  have htoolNil : tool = [] ↔ toolText response = [] := htoolFront.nil_iff (by decide)
  have hsupported : isSupportedM4ToolName kind = true ↔ ∃ tool, toolName tool <+: typeText response := by
    rw [isSupported_iff]
    refine exists_congr fun other => hkindFront.starts_iff ?_
    have hshort := (toolName_length other).2
    unfold m4ToolNameMax
    omega
  unfold parseM4Reply
  rw [hkind, ok_bind]
  by_cases hempty : kind = []
  · have hgivenTool : givenName response = toolText response := by
      unfold givenName at hgiven ⊢
      split_ifs at hgiven ⊢ with hne
      · rfl
      · exact absurd (hkindNil.mp hempty) hgiven
    have hne : tool ≠ [] := by
      rw [ne_eq, htoolNil, ← hgivenTool]
      exact hgiven
    rw [if_neg (not_not_intro hempty), htool, ok_bind, if_pos hne]
    exact parseTool_named (hgivenTool ▸ htoolFront) htoolLength (.inl (hkindNil.mp hempty))
  have hanswer : ¬ startsWithTool kind (ascii "final") = true := by
    rw [startsWithTool_iff, hkindFront.starts_iff (by decide)]
    exact hfinal
  rw [if_pos hempty, if_neg hanswer]
  have hiff : AcceptedType (typeText response) ↔
      startsWithTool kind (ascii "tool") = true ∨ isSupportedM4ToolName kind = true := by
    have hne : typeText response ≠ [] := fun h => hempty (hkindNil.mpr h)
    have hstarts : ascii "tool" <+: kind ↔ ascii "tool" <+: typeText response := hkindFront.starts_iff (by decide)
    unfold AcceptedType
    rw [hsupported, startsWithTool_iff, hstarts]
    simp [hne]
  by_cases haccepted : AcceptedType (typeText response)
  swap
  · have hnot : (! startsWithTool kind (ascii "tool") && ! isSupportedM4ToolName kind) = true := by
      rw [hiff, not_or] at haccepted
      simp [haccepted]
    rw [if_pos hnot]
    exact Returns.pure (.unsupported _ haccepted)
  have hsome : ¬ (! startsWithTool kind (ascii "tool") && ! isSupportedM4ToolName kind) = true := by
    rcases hiff.mp haccepted with h | h
    · simp [h]
    · simp [h]
  rw [if_neg hsome, htool, ok_bind]
  dsimp only
  by_cases hmissing : tool = []
  · have hgivenType : givenName response = typeText response := if_neg (not_not_intro (htoolNil.mp hmissing))
    by_cases hnamed : isSupportedM4ToolName kind = true
    · have hname : (if tool = [] ∧ isSupportedM4ToolName kind = true then kind else tool) = kind :=
        if_pos ⟨hmissing, hnamed⟩
      rw [hname, if_neg hempty]
      exact parseTool_named (hgivenType ▸ hkindFront) hkindLength haccepted
    · have hname : (if tool = [] ∧ isSupportedM4ToolName kind = true then kind else tool) = tool :=
        if_neg fun h => hnamed h.2
      rw [hname, if_pos hmissing]
      refine Returns.pure (.unnamed _ ?_)
      intro other hpre
      rw [hgivenType] at hpre
      exact hnamed (hsupported.mpr ⟨other, hpre⟩)
  · have hname : (if tool = [] ∧ isSupportedM4ToolName kind = true then kind else tool) = tool :=
      if_neg fun h => hmissing h.1
    have hgivenTool : givenName response = toolText response := if_pos fun h => hmissing (htoolNil.mpr h)
    rw [hname, if_neg hmissing]
    exact parseTool_named (hgivenTool ▸ htoolFront) htoolLength haccepted

end Names

section Exact

variable {c : PromptContext} {response : Bytes} {tool : Tool} {call : ToolCall}

/-- A reply with a name executes the tool of that name and no other, any other name is rejected, and all four chains
find the same tool for every name. -/
structure DispatchExact (c : PromptContext) (response : Bytes) : Prop where
  executed : givenName response ≠ [] → ∀ call tool, parseM4Reply c response = .ok (.ok (.tool call)) →
    executedTool call.name = some tool → givenName response = toolName tool
  answered : givenName response ≠ [] → ∀ text refused, parseM4Reply c response = .ok (.ok (.final text refused)) →
    typeText response = ascii "final"
  rejected : givenName response ≠ [] → (∀ tool, givenName response ≠ toolName tool) →
    typeText response ≠ ascii "final" → ∃ reason, parseM4Reply c response = .ok (.error reason)
  agree : ∀ name tool, (firstNamed supportedTools name = some tool ↔ firstNamed parsedTools name = some tool) ∧
    (firstNamed parsedTools name = some tool ↔ executedTool name = some tool) ∧
    (firstNamed syncTools name = some tool → firstNamed asyncTools name = none)

/-- The names that the loop compares the fronts of are whole, or the reply is refused for something else. -/
structure WholeNames (c : PromptContext) (response : Bytes) : Prop where
  final : ascii "final" <+: typeText response → typeText response = ascii "final" ∨ Unanswered c response
  tool : ¬ ascii "final" <+: typeText response → AcceptedType (typeText response) →
    ∀ tool, toolName tool <+: givenName response →
      givenName response = toolName tool ∨ Incomplete response tool

theorem chains_agree (name : Bytes) (tool : Tool) :
    (firstNamed supportedTools name = some tool ↔ firstNamed parsedTools name = some tool) ∧
    (firstNamed parsedTools name = some tool ↔ executedTool name = some tool) ∧
    (firstNamed syncTools name = some tool → firstNamed asyncTools name = none) := by
  have hmem := mem_chains tool
  refine ⟨?_, ?_, ?_⟩
  · rw [parsedTool_iff, firstNamed_eq_some, and_iff_right hmem.1]
  · rw [parsedTool_iff, executedTool_iff]
  · intro hsync
    obtain ⟨hin, hname⟩ := firstNamed_eq_some.mp hsync
    cases hasync : firstNamed asyncTools name with
    | none => rfl
    | some other =>
      obtain ⟨hother, hfront⟩ := firstNamed_eq_some.mp hasync
      rw [← tool_unique hname hfront] at hother
      exact absurd hother (hmem.2.2.2 hin)

theorem typeText_ne (h : ascii "final" <+: typeText response) : typeText response ≠ [] := by
  intro hnil
  rw [hnil] at h
  exact absurd (List.prefix_nil.mp h) (by decide)

theorem givenName_ne (h : typeText response ≠ []) : givenName response ≠ [] := by
  unfold givenName
  split_ifs with htool
  · exact htool
  · exact h

theorem toolName_ne_of_starts (h : toolName tool <+: givenName response) : givenName response ≠ [] := by
  intro hnil
  rw [hnil] at h
  have hlong := (toolName_length tool).1
  rw [List.prefix_nil.mp h] at hlong
  cases hlong

theorem DispatchExact.whole (h : DispatchExact c response) : WholeNames c response where
  final := by
    intro hfinal
    obtain ⟨reply, hreply, hshape⟩ := parseM4Final_returns c response
    rcases hshape with ⟨reason, rfl⟩ | ⟨text, refused, rfl⟩
    · exact .inr ⟨reason, hreply⟩
    · left
      rw [← parseM4Reply_final hfinal] at hreply
      exact h.answered (givenName_ne (typeText_ne hfinal)) text refused hreply
  tool := by
    intro hfinal haccepted tool hname
    obtain ⟨reply, hreply, hnamed⟩ : Returns (parseM4Reply c response) _ :=
      parseM4Reply_named (toolName_ne_of_starts hname) hfinal
    cases hnamed with
    | unsupported reason hnot => exact absurd haccepted hnot
    | unnamed reason hnone => exact absurd hname (hnone tool)
    | incomplete hother hreason => exact .inr ⟨_, tool_unique hname hother ▸ hreason⟩
    | called _ hother _ hexecuted =>
      left
      rw [tool_unique hname hother]
      exact h.executed (toolName_ne_of_starts hname) _ _ hreply hexecuted

theorem WholeNames.exact (h : WholeNames c response) : DispatchExact c response where
  executed := by
    intro hgiven call tool hreply hexecuted
    by_cases hfinal : ascii "final" <+: typeText response
    · have hanswer := parseM4Final_returns c response
      rw [← parseM4Reply_final hfinal, hreply, returns_ok] at hanswer
      rcases hanswer with ⟨reason, hreason⟩ | ⟨text, refused, htext⟩
      · cases hreason
      · cases htext
    · have hnamed : Returns (parseM4Reply c response) _ := parseM4Reply_named hgiven hfinal
      rw [hreply, returns_ok] at hnamed
      cases hnamed with
      | called haccepted hname hargs hcalled =>
        obtain rfl := Option.some.inj (hcalled.symm.trans hexecuted)
        rcases h.tool hfinal haccepted _ hname with hwhole | ⟨reason, hreason⟩
        · exact hwhole
        · rw [hargs] at hreason
          cases hreason
  answered := by
    intro hgiven text refused hreply
    by_cases hfinal : ascii "final" <+: typeText response
    · rcases h.final hfinal with hwhole | ⟨reason, hreason⟩
      · exact hwhole
      · rw [parseM4Reply_final hfinal, hreason] at hreply
        cases hreply
    · have hnamed : Returns (parseM4Reply c response) _ := parseM4Reply_named hgiven hfinal
      rw [hreply, returns_ok] at hnamed
      cases hnamed
  rejected := by
    intro hgiven hother hnotFinal
    by_cases hfinal : ascii "final" <+: typeText response
    · obtain ⟨reason, hreason⟩ := (h.final hfinal).resolve_left hnotFinal
      exact ⟨reason, (parseM4Reply_final hfinal).trans hreason⟩
    · obtain ⟨reply, hreply, hnamed⟩ : Returns (parseM4Reply c response) _ := parseM4Reply_named hgiven hfinal
      cases hnamed with
      | unsupported reason _ => exact ⟨reason, hreply⟩
      | unnamed reason _ => exact ⟨reason, hreply⟩
      | incomplete _ _ => exact ⟨_, hreply⟩
      | called haccepted hname hargs _ =>
        rcases h.tool hfinal haccepted _ hname with hwhole | ⟨reason, hreason⟩
        · exact absurd hwhole (hother _)
        · rw [hargs] at hreason
          cases hreason
  agree := chains_agree

/-- A reply whose tool has a name that is longer than that of a tool. -/
def longName : Bytes := ascii "\x7b\"type\":\"tool\",\"tool\":\"memory_status_all\"\x7d"

end Exact

end MiniAgentOS.Agent
