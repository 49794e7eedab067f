import MiniAgentOS.Agent.Steps
import MiniAgentOS.Text.Members

/-! What becomes of the arguments of a call: the reader of strings leaves what fits of them in two buffers, and a
request is built of that. -/
namespace MiniAgentOS.Agent
open Checked Fetch Session

set_option maxRecDepth 4000

section Pieces

variable {α β : Type} {piece : β → List α} {items others : List β}

/-- A part of the items has a shorter text, unless it is all of them. -/
theorem flatMap_part (h : items.Sublist others) (hpos : ∀ item, 0 < (piece item).length) :
    (items.flatMap piece).length ≤ (others.flatMap piece).length ∧
      ((others.flatMap piece).length ≤ (items.flatMap piece).length → items = others) := by
  induction h with
  | slnil => exact ⟨le_rfl, fun _ => rfl⟩
  | @cons items others item _ ih =>
    have hitem := hpos item
    rw [List.flatMap_cons, List.length_append]
    refine ⟨by omega, fun hle => ?_⟩
    omega
  | @cons_cons items others item _ ih =>
    rw [List.flatMap_cons, List.flatMap_cons, List.length_append, List.length_append]
    refine ⟨by omega, fun hle => ?_⟩
    rw [ih.2 (by omega)]

variable {capacity : ℕ} {out : Bytes} {pieces : List Bytes} {buf key text : Bytes}

theorem foldl_putPiece_part : (pieces.foldl (putPiece capacity) out).Sublist (out ++ pieces.flatten) := by
  induction pieces generalizing out with
  | nil => simp
  | cons piece pieces ih =>
    rw [List.foldl_cons, List.flatten_cons]
    refine ih.trans ?_
    unfold putPiece
    split_ifs
    · rw [List.append_assoc]
    · exact (List.Sublist.refl out).append (List.sublist_append_right _ _)

/-- A buffer holds a part of the string behind a key. -/
theorem stringBehind_part (h : jsonExtractStringLocal buf key capacity = .ok text) : text.Sublist (stringBehind buf key) := by
  obtain ⟨pieces, hlength, -, hread⟩ := jsonExtractStringLocal_pieces buf key
  have hwhole : stringBehind buf key = pieces.flatten := by
    rw [stringBehind, hread, putPieces_eq_iff.mpr hlength]
    rfl
  obtain rfl : putPieces capacity pieces = text := Except.ok.inj ((hread capacity).symm.trans h)
  rw [hwhole]
  exact foldl_putPiece_part

end Pieces

section Bodies

variable {capacity : ℕ} {path file : Bytes} {read given : BridgeBody}

/-- The arguments of a body are parts of those of another one. -/
inductive PartOf : BridgeBody → BridgeBody → Prop where
  | write {path file content text : Bytes} : path.Sublist file → content.Sublist text →
      PartOf (.write path content) (.write file text)
  | patch {patch text : Bytes} : patch.Sublist text → PartOf (.patch patch) (.patch text)
  | runPython {path file : Bytes} {timeoutSec : UInt32} : path.Sublist file →
      PartOf (.runPython path timeoutSec) (.runPython file timeoutSec)

theorem PartOf.encoded (h : PartOf read given) : read.encoded.length ≤ given.encoded.length ∧
    (given.encoded.length ≤ read.encoded.length → read = given) := by
  cases h with
  | write hpath hcontent =>
    have hpathPart := flatMap_part hpath escapedByte_pos
    have hcontentPart := flatMap_part hcontent escapedByte_pos
    simp only [BridgeBody.encoded, List.length_append]
    refine ⟨by omega, fun hle => ?_⟩
    rw [hpathPart.2 (by omega), hcontentPart.2 (by omega)]
  | patch htext =>
    have hpart := flatMap_part htext escapedByte_pos
    simp only [BridgeBody.encoded, List.length_append]
    refine ⟨by omega, fun hle => ?_⟩
    rw [hpart.2 (by omega)]
  | runPython hpath =>
    have hpart := flatMap_part hpath escapedByte_pos
    simp only [BridgeBody.encoded, List.length_append]
    refine ⟨by omega, fun hle => ?_⟩
    rw [hpart.2 (by omega)]

theorem build_length_le (capacity : ℕ) (body : BridgeBody) : (body.build capacity).length ≤ capacity := by
  obtain ⟨lead, next, more, -, htakes, -, hbuild⟩ := takes_encoded capacity body
  rw [hbuild]
  exact ((Bounded.takes_append capacity lead).comp htakes).length_le

theorem build_whole_iff (capacity : ℕ) (body : BridgeBody) :
    body.build capacity = body.encoded ↔ body.encoded.length ≤ capacity := by
  obtain ⟨lead, next, more, -, htakes, hencoded, hbuild⟩ := takes_encoded capacity body
  rw [hbuild, ← hencoded]
  exact ((Bounded.takes_append capacity lead).comp htakes).eq_iff

/-- The body of what is left of the arguments is that of the arguments exactly when all of them is left, and it fits. -/
theorem PartOf.build_iff (capacity : ℕ) (h : PartOf read given) :
    read.build capacity = given.encoded ↔ read = given ∧ given.encoded.length ≤ capacity := by
  constructor
  · intro hbuild
    have hfits := build_length_le capacity read
    rw [hbuild] at hfits
    have hread := (build_whole_iff capacity read).mpr (h.encoded.1.trans hfits)
    have hsame := h.encoded.2 (by rw [← hbuild, hread])
    exact ⟨hsame, hfits⟩
  · rintro ⟨rfl, hfits⟩
    exact (build_whole_iff capacity read).mpr hfits

theorem target_whole_iff (capacity : ℕ) (t : BridgeTarget) :
    t.build capacity = t.encoded ↔ t.encoded.length ≤ capacity := by
  obtain ⟨next, more, htakes, hencoded, hbuild⟩ := takes_target capacity t
  rw [hbuild, ← hencoded]
  exact ((Bounded.takes_append capacity t.front).comp htakes).eq_iff

theorem target_length_le (capacity : ℕ) (t : BridgeTarget) : (t.build capacity).length ≤ capacity := by
  obtain ⟨next, more, htakes, -, hbuild⟩ := takes_target capacity t
  rw [hbuild]
  exact ((Bounded.takes_append capacity t.front).comp htakes).length_le

/-- So is the target of a file. -/
theorem readTarget_iff (capacity : ℕ) (h : path.Sublist file) : (BridgeTarget.read path).build capacity = (BridgeTarget.read file).encoded ↔
    path = file ∧ (BridgeTarget.read file).encoded.length ≤ capacity := by
  have hpart := flatMap_part h urlencodedByte_pos
  have hlengths : (BridgeTarget.read path).encoded.length ≤ (BridgeTarget.read file).encoded.length ∧
      ((BridgeTarget.read file).encoded.length ≤ (BridgeTarget.read path).encoded.length → path = file) := by
    simp only [BridgeTarget.encoded, BridgeTarget.front, BridgeTarget.argument, BridgeTarget.back, List.length_append]
    exact ⟨by omega, fun hle => hpart.2 (by omega)⟩
  constructor
  · intro hbuild
    have hfits := target_length_le capacity (.read path)
    rw [hbuild] at hfits
    have hread := (target_whole_iff capacity (.read path)).mpr (hlengths.1.trans hfits)
    exact ⟨hlengths.2 (by rw [← hbuild, hread]), hfits⟩
  · rintro ⟨rfl, hfits⟩
    exact (target_whole_iff capacity _).mpr hfits

end Bodies

section Arguments

variable {c : PromptContext} {response arg1 arg2 : Bytes} {call : ToolCall} {tool : Tool} {args : Bytes × Bytes}

/-- The tools that write, run, read, post or keep what they are given. -/
def actingTools : List Tool :=
  [.writeFile, .applyPatch, .runProcess, .readFile, .postUrl, .postTweet, .writeSessionState]

/-- The key of the argument in `M4_TOOL_ARG1`. -/
def firstKey : Tool → Option String
  | .writeFile | .runProcess | .readFile => some "path"
  | .postUrl => some "url"
  | .postTweet => some "text"
  | .writeSessionState => some "key"
  | _ => none

/-- The key of the argument in `M4_TOOL_ARG2`. -/
def secondKey : Tool → Option String
  | .writeFile => some "content"
  | .applyPatch => some "patch"
  | .postUrl => some "json"
  | .writeSessionState => some "value"
  | _ => none

/-- What a buffer holds of the string behind the key of an argument. -/
def heldArgument (response : Bytes) (capacity : ℕ) (key : Option String) : Bytes :=
  match key with
  | some key => (jsonExtractStringLocal response (ascii key) capacity).toOption.getD []
  | none => []

theorem heldArgument_cut (response : Bytes) (capacity : ℕ) (key : String) :
    jsonExtractStringLocal response (ascii key) capacity = .ok (heldArgument response capacity (some key)) ∧
      (heldArgument response capacity (some key)).length ≤ capacity ∧
      SameFront capacity (heldArgument response capacity (some key)) (stringBehind response (ascii key)) ∧
      (heldArgument response capacity (some key) = stringBehind response (ascii key) ↔
        (stringBehind response (ascii key)).length ≤ capacity) := by
  obtain ⟨text, htext, hcut⟩ := stringBehind_cut response (ascii key) capacity
  have hheld : heldArgument response capacity (some key) = text := by
    unfold heldArgument
    dsimp only
    rw [htext]
    rfl
  rw [hheld]
  exact ⟨htext, hcut⟩

theorem heldArgument_length_le (response : Bytes) (capacity : ℕ) (key : Option String) :
    (heldArgument response capacity key).length ≤ capacity := by
  cases key with
  | none => exact Nat.zero_le _
  | some key => exact (heldArgument_cut response capacity key).2.1

/-- The buffers of a call. -/
def heldArguments (response : Bytes) (tool : Tool) : Bytes × Bytes :=
  (heldArgument response m4ToolArg1Max (firstKey tool), heldArgument response m4ToolArg2Max (secondKey tool))

theorem oneArgument_held {key : String} {missing : Option String} (h : oneArgument response key missing = .ok (.ok args)) :
    args = (heldArgument response m4ToolArg1Max (some key), []) := by
  unfold oneArgument at h
  rw [(heldArgument_cut response m4ToolArg1Max key).1, ok_bind] at h
  cases missing with
  | none => exact (Except.ok.inj (Except.ok.inj h)).symm
  | some reason =>
    dsimp only at h
    split_ifs at h
    · cases Except.ok.inj h
    · exact (Except.ok.inj (Except.ok.inj h)).symm

theorem longArgument_held {key missing incomplete : String} {text : Bytes}
    (h : longArgument response key missing incomplete = .ok (.ok text)) :
    text = heldArgument response m4ToolArg2Max (some key) := by
  obtain ⟨found, hfound, -⟩ := jsonHasKeyLocal_returns response (ascii key)
  obtain ⟨empty, hempty, -⟩ := jsonStringKeyIsExplicitlyEmpty_returns response (ascii key)
  unfold longArgument at h
  rw [(heldArgument_cut response m4ToolArg2Max key).1, ok_bind, hfound, ok_bind, hempty, ok_bind] at h
  split_ifs at h
  · cases Except.ok.inj h
  · cases Except.ok.inj h
  · exact (Except.ok.inj (Except.ok.inj h)).symm
  · exact (Except.ok.inj (Except.ok.inj h)).symm

/-- The arguments of a tool are what its buffers hold of the strings behind its keys. -/
theorem toolArguments_held (hacting : tool ∈ actingTools) (h : toolArguments response tool = .ok (.ok args)) :
    args = heldArguments response tool ∧ (tool = .postUrl → args.2 ≠ []) := by
  cases tool with
  | writeFile =>
    rw [toolArguments, (heldArgument_cut response m4ToolArg1Max "path").1, ok_bind] at h
    split_ifs at h
    · cases Except.ok.inj h
    · obtain ⟨content, hcontent, -⟩ := longArgument_returns response "content" "missing file content" "incomplete file content"
      rw [hcontent, ok_bind] at h
      cases content with
      | error reason => cases Except.ok.inj h
      | ok content =>
        rw [longArgument_held hcontent] at h
        exact ⟨(Except.ok.inj (Except.ok.inj h)).symm, fun heq => by cases heq⟩
  | applyPatch =>
    obtain ⟨patch, hpatch, -⟩ := longArgument_returns response "patch" "missing patch" "incomplete patch"
    rw [toolArguments, hpatch, ok_bind] at h
    cases patch with
    | error reason => cases Except.ok.inj h
    | ok patch =>
      rw [longArgument_held hpatch] at h
      exact ⟨(Except.ok.inj (Except.ok.inj h)).symm, fun heq => by cases heq⟩
  | postUrl =>
    rw [toolArguments, (heldArgument_cut response m4ToolArg1Max "url").1, ok_bind,
      (heldArgument_cut response m4ToolArg2Max "json").1, ok_bind] at h
    split_ifs at h with _ hjson
    · cases Except.ok.inj h
    · cases Except.ok.inj h
    · obtain rfl := Except.ok.inj (Except.ok.inj h)
      exact ⟨rfl, fun _ => hjson⟩
  | writeSessionState =>
    rw [toolArguments, (heldArgument_cut response m4ToolArg1Max "key").1, ok_bind,
      (heldArgument_cut response m4ToolArg2Max "value").1, ok_bind] at h
    have hargs := Except.ok.inj h
    split_ifs at hargs
    · exact ⟨(Except.ok.inj hargs).symm, fun heq => by cases heq⟩
  | runProcess | readFile | postTweet =>
    rw [toolArguments] at h
    exact ⟨oneArgument_held h, fun heq => by cases heq⟩
  | _ => exact absurd hacting (by decide)

/-- A reply that calls a tool gives what its buffers hold. -/
def ReplyHolds (response : Bytes) : Except Bytes Reply → Prop
  | .ok (.tool call) => ∀ tool ∈ actingTools, executedTool call.name = some tool →
      (call.arg1, call.arg2) = heldArguments response tool ∧ (tool = .postUrl → call.arg2 ≠ [])
  | _ => True

theorem parseTool_holds {name : Bytes} (hname : name.length ≤ m4ToolNameMax) (response : Bytes) :
    Returns (parseM4ToolFromResponse response name) fun call => ReplyHolds response (toolReply call) := by
  unfold parseM4ToolFromResponse
  cases hnamed : firstNamed parsedTools name with
  | none => exact Returns.pure trivial
  | some tool =>
    dsimp only
    obtain ⟨arguments, harguments, -⟩ := toolArguments_returns response tool
    rw [harguments, ok_bind]
    apply Returns.pure
    cases arguments with
    | error reason => trivial
    | ok args =>
      intro other hacting hexecuted
      change executedTool (setToolCall name args.1 args.2).name = some other at hexecuted
      unfold setToolCall at hexecuted
      rw [List.take_of_length_le hname, executedTool_iff.mpr (parsedTool_iff.mp hnamed)] at hexecuted
      obtain rfl := Option.some.inj hexecuted
      obtain ⟨rfl, hjson⟩ := toolArguments_held hacting harguments
      have hfirst := heldArgument_length_le response m4ToolArg1Max (firstKey tool)
      have hsecond := heldArgument_length_le response m4ToolArg2Max (secondKey tool)
      have hheld : ((setToolCall name (heldArguments response tool).1 (heldArguments response tool).2).arg1,
          (setToolCall name (heldArguments response tool).1 (heldArguments response tool).2).arg2) =
          heldArguments response tool := by
        unfold setToolCall heldArguments
        rw [List.take_of_length_le hfirst, List.take_of_length_le hsecond]
      refine ⟨hheld, fun heq => ?_⟩
      have harg2 := congrArg Prod.snd hheld
      exact fun hnil => hjson heq (harg2.symm.trans hnil)

theorem reply_holds (h : parseM4Reply c response = .ok (.ok (.tool call))) (hacting : tool ∈ actingTools)
    (htool : executedTool call.name = some tool) :
    (call.arg1, call.arg2) = heldArguments response tool ∧ (tool = .postUrl → call.arg2 ≠ []) := by
  have hrule : ReplyRule response (ReplyHolds response) := by
    constructor
    · exact fun _ => trivial
    · exact fun _ _ => trivial
    · exact fun _ hname => parseTool_holds hname response
  obtain ⟨reply, hreply, hholds⟩ := hrule.returns c
  rw [h] at hreply
  obtain rfl := Except.ok.inj hreply
  exact hholds tool hacting htool

end Arguments

section Requests

variable {env : LoopEnv} {call : ToolCall} {tool : Tool} {s next : Loop} {request : LoopRequest} {arg1 arg2 : Bytes}

/-- The request that a tool builds of its arguments. -/
def toolRequest (arg1 arg2 : Bytes) : Tool → Option LoopRequest
  | .postUrl => some (.post arg1 arg2)
  | .postTweet => some (.tweet arg1)
  | .readFile => some (.bridgeGet ((BridgeTarget.read arg1).build m4PathBufLen))
  | .writeFile => some (.bridgePost m5BridgeWritePath ((BridgeBody.write arg1 arg2).build m4BridgeBodyBufLen))
  | .applyPatch => some (.bridgePost m5BridgeApplyPatchPath ((BridgeBody.patch arg2).build m4BridgeBodyBufLen))
  | .runProcess => some (.bridgePost m5BridgeRunPythonPath ((BridgeBody.runPython arg1 5).build m4BridgeBodyBufLen))
  | _ => none

/-- The request that holds its arguments whole. -/
def exactRequest (arg1 arg2 : Bytes) : Tool → Option LoopRequest
  | .postUrl => some (.post arg1 arg2)
  | .postTweet => some (.tweet arg1)
  | .readFile => some (.bridgeGet (BridgeTarget.read arg1).encoded)
  | .writeFile => some (.bridgePost m5BridgeWritePath (BridgeBody.write arg1 arg2).encoded)
  | .applyPatch => some (.bridgePost m5BridgeApplyPatchPath (BridgeBody.patch arg2).encoded)
  | .runProcess => some (.bridgePost m5BridgeRunPythonPath (BridgeBody.runPython arg1 5).encoded)
  | _ => none

/-- What a step adds to the turn. -/
def newDeeds (s next : Loop) : List Deed := next.turn.drop s.turn.length

theorem newDeeds_append {deeds : List Deed} (h : next.turn = s.turn ++ deeds) : newDeeds s next = deeds := by
  rw [newDeeds, h, List.drop_left]

/-- The requests of a step are this one. -/
def RequestsOnly (s next : Loop) (request : LoopRequest) : Prop :=
  ∀ other, .requested other ∈ newDeeds s next → other = request

theorem startRequest_turn (env : LoopEnv) (request : LoopRequest) (phase : AgentPhase) (default : String) (s : Loop) :
    (startRequest env request phase default s).1.turn = s.turn ++ if env.starts then [.requested request]
      else [.answered (failureReasonOr env.reason default), .finished .failed] := by
  rw [startRequest_eq]
  split_ifs
  · rfl
  · exact closeTurn_turn _ _ _

theorem called_only (env : LoopEnv) (request : LoopRequest) (phase : AgentPhase) (default : String) (tool : Tool) {mid : Loop}
    (h : mid.turn = s.turn) : RequestsOnly s (startRequest env request phase default (mid.act (.called tool))).1 request := by
  intro other hother
  have hturn := startRequest_turn env request phase default (mid.act (.called tool))
  have hcalled : (mid.act (.called tool)).turn = s.turn ++ [.called tool] := by rw [Loop.act, h]
  rw [hcalled, List.append_assoc] at hturn
  rw [newDeeds_append hturn] at hother
  split_ifs at hother
  · simpa using hother
  · simp at hother

theorem executeTool_async (h : firstNamed asyncTools call.name = some tool) :
    executeTool env call s = Prod.fst <$> executeAsyncTool env call.name { s with call } := by
  have hnone : firstNamed syncTools call.name = none := by
    cases hsync : firstNamed syncTools call.name with
    | none => rfl
    | some other =>
      rw [(chains_agree call.name other).2.2 hsync] at h
      cases h
  rw [executeTool, executeSyncTool, hnone]
  change (executeAsyncTool env call.name { s with call } >>= fun r => pure r.1) = _
  cases executeAsyncTool env call.name { s with call } with
  | error trap => rfl
  | ok r => rfl

theorem build_ne (body : BridgeBody) : body.build m4BridgeBodyBufLen ≠ [] := by
  obtain ⟨lead, next, more, hlead, htakes, -, hbuild⟩ := takes_encoded m4BridgeBodyBufLen body
  rw [hbuild, ne_eq, htakes.eq_nil_iff hlead]
  decide

theorem bridgeWrite_eq (env : LoopEnv) (path : Bytes) (body : BridgeBody) (unbuilt default : String) (s : Loop) :
    bridgeWrite env path (body.build m4BridgeBodyBufLen) unbuilt default s =
      startRequest env (.bridgePost path (body.build m4BridgeBodyBufLen)) .m5BridgeTool default s :=
  if_neg (build_ne body)

/-- The call is refused before its request: a secret or the text to post is missing. -/
def Unasked (env : LoopEnv) (call : ToolCall) (tool : Tool) : Prop :=
  tool = .postTweet ∧ env.xSecrets = false ∨ tool = .postUrl ∧ call.arg2 = []

/-- A tool that acts over the network starts its request, or it closes the turn without one. -/
theorem executeTool_acts (env : LoopEnv) (s : Loop) (h : executedTool call.name = some tool) (hacting : tool ∈ actingTools)
    (hsession : tool ≠ .writeSessionState) : ∃ request, toolRequest call.arg1 call.arg2 tool = some request ∧
      (¬ Unasked env call tool → ∃ phase default, executeTool env call s =
        .ok (startRequest env request phase default ({ s with call }.act (.called tool))).1) ∧
      (Unasked env call tool → ∃ text mid, executeTool env call s = .ok (closeTurn text .failed mid) ∧
        (mid.turn = s.turn ∨ mid.turn = s.turn ++ [.called tool])) := by
  have hasync : firstNamed asyncTools call.name = some tool := by
    rcases Option.or_eq_some_iff.mp h with hsync | ⟨-, hasync⟩
    · have hin := (firstNamed_eq_some.mp hsync).1
      have hnone : ∀ other ∈ actingTools, other ≠ .writeSessionState → other ∉ syncTools := by decide
      exact absurd hin (hnone tool hacting hsession)
    · exact hasync
  rw [executeTool_async hasync]
  unfold executeAsyncTool
  rw [hasync]
  dsimp only
  cases tool with
  | writeFile =>
    have hwrite := bridgeWrite_eq env m5BridgeWritePath (.write call.arg1 call.arg2)
    refine ⟨_, rfl, fun _ => ⟨_, _, congrArg (fun r : Loop × Bool => Except.ok r.1) (hwrite _ _ _)⟩, fun hnot => ?_⟩
    rcases hnot with ⟨heq, -⟩ | ⟨heq, -⟩ <;> cases heq
  | applyPatch =>
    have hwrite := bridgeWrite_eq env m5BridgeApplyPatchPath (.patch call.arg2)
    refine ⟨_, rfl, fun _ => ⟨_, _, congrArg (fun r : Loop × Bool => Except.ok r.1) (hwrite _ _ _)⟩, fun hnot => ?_⟩
    rcases hnot with ⟨heq, -⟩ | ⟨heq, -⟩ <;> cases heq
  | runProcess =>
    have hwrite := bridgeWrite_eq env m5BridgeRunPythonPath (.runPython call.arg1 5)
    refine ⟨_, rfl, fun _ => ⟨_, _, congrArg (fun r : Loop × Bool => Except.ok r.1) (hwrite _ _ _)⟩, fun hnot => ?_⟩
    rcases hnot with ⟨heq, -⟩ | ⟨heq, -⟩ <;> cases heq
  | readFile =>
    refine ⟨_, rfl, fun _ => ⟨.m5BridgeTool, _, rfl⟩, fun hnot => ?_⟩
    rcases hnot with ⟨heq, -⟩ | ⟨heq, -⟩ <;> cases heq
  | postUrl =>
    dsimp only
    refine ⟨_, rfl, fun hasked => ?_, fun hnot => ?_⟩
    · have hne : call.arg2 ≠ [] := fun hnil => hasked (.inr ⟨rfl, hnil⟩)
      rw [if_neg hne]
      exact ⟨_, _, rfl⟩
    · rcases hnot with ⟨heq, -⟩ | ⟨-, hnil⟩
      · cases heq
      · rw [if_pos hnil]
        exact ⟨_, _, rfl, .inr rfl⟩
  | postTweet =>
    dsimp only
    refine ⟨_, rfl, fun hasked => ?_, fun hnot => ?_⟩
    · have hsecrets : env.xSecrets = true := by
        by_contra hno
        exact hasked (.inl ⟨rfl, by simpa using hno⟩)
      rw [if_neg (by simp [hsecrets])]
      exact ⟨_, _, rfl⟩
    · rcases hnot with ⟨-, hsecrets⟩ | ⟨heq, -⟩
      · rw [if_pos (by simp [hsecrets])]
        exact ⟨_, _, rfl, .inl rfl⟩
      · cases heq
  | writeSessionState => exact absurd rfl hsession
  | _ => exact absurd hacting (by decide)

theorem recordAndContinue_kept (env : LoopEnv) (name result : Bytes) (s : Loop) :
    Returns (recordAndContinue env name result s) fun r =>
      (s.started = true → r.1.state = s.state) ∧ ∃ deeds, r.1.turn = s.turn ++ .recorded name result :: .completed true :: deeds := by
  unfold recordAndContinue
  apply Returns.bind (appendToolResult_recorded _ _ _)
  intro kept hkept
  have hturn : ((kept.act (.completed true)).nextStep).turn = s.turn ++ [.recorded name result, .completed true] := by
    simp [Loop.nextStep, Loop.act, hkept.turn]
  refine (startM4ModelTurn_asked env _).mono fun r hr => ?_
  cases hr with
  | sent body =>
    refine ⟨hkept.state, [.requested (.model body)], ?_⟩
    rw [sendRequest, Loop.act, hturn]
    simp
  | closed reason =>
    refine ⟨fun hstarted => ?_, [.answered reason, .finished .failed], ?_⟩
    · rw [closeTurn_state (show ((kept.act (.completed true)).nextStep).started = true from hkept.started)]
      exact hkept.state hstarted
    · rw [closeTurn_turn, hturn]
      simp
  | dropped =>
    refine ⟨hkept.state, [.finished .failed], ?_⟩
    rw [agentFinishLocal, Loop.act, hturn]
    simp

/-- A write of a key is completed, or refused. -/
theorem executeTool_writes (h : executedTool call.name = some .writeSessionState) :
    Returns (executeTool env call s) fun next => if Refused call.arg1 call.arg2 then .completed true ∉ newDeeds s next
      else .completed true ∈ newDeeds s next ∧
        (s.started = true → (next.state, true) = writeSessionState call.arg1 call.arg2 s.state) := by
  have hsync : firstNamed syncTools call.name = some .writeSessionState := by
    rcases Option.or_eq_some_iff.mp h with hsync | ⟨-, hasync⟩
    · exact hsync
    · exact absurd (firstNamed_eq_some.mp hasync).1 (by decide)
  have hnone := (chains_agree call.name .writeSessionState).2.2 hsync
  have hgoal : ∀ P : Loop → Prop, Returns (executeSyncTool env call.name { s with call }) (fun r => P r.1) →
      Returns (executeTool env call s) P := by
    intro P hP
    unfold executeTool
    apply Returns.bind hP
    intro r hr
    apply Returns.ite
    · exact fun _ => Returns.pure hr
    · intro _
      rw [executeAsyncTool, hnone]
      exact Returns.pure hr
  apply hgoal
  rw [executeSyncTool, hsync]
  dsimp only
  by_cases hrefused : Refused call.arg1 call.arg2
  · have hwrite : writeSessionState call.arg1 call.arg2 s.state = (s.state, false) := dif_pos hrefused
    simp only [Loop.act, hwrite, Bool.false_eq_true, if_false, if_pos hrefused]
    have hclosed : ∀ (text : Bytes) (mid : Loop), mid.turn = s.turn ++ [.called .writeSessionState] ++ [.completed false] →
        .completed true ∉ newDeeds s (closeTurn text .failed mid) := by
      intro text mid hmid
      rw [newDeeds, closeTurn_turn, hmid, List.append_assoc, List.append_assoc, List.drop_left]
      simp
    exact Returns.pure (hclosed _ _ rfl)
  · have hwrite : writeSessionState call.arg1 call.arg2 s.state = (s.state.store call.arg1 call.arg2 _, true) :=
      dif_neg hrefused
    simp only [Loop.act, hwrite, if_true, if_neg hrefused]
    refine (recordAndContinue_kept env _ _ _).mono fun r hr => ?_
    obtain ⟨hstate, deeds, hturn⟩ := hr
    refine ⟨?_, fun hstarted => ?_⟩
    · rw [newDeeds_append (hturn.trans (List.append_assoc _ _ _))]
      simp
    · rw [hstate hstarted]

end Requests

section Writes

variable {key value name text : Bytes} {state : SessionState}

theorem writeSlot_noKeys (key : Bytes) : writeSlot key noKeys = 0 := rfl

/-- An accepted write is the same as another one where both leave the same slot. -/
theorem write_same (haccepted : ¬ Refused key value) (hother : ¬ Refused name text) (h : written key value = written name text)
    (state : SessionState) : writeSessionState key value state = writeSessionState name text state := by
  obtain rfl : key = name := congrArg SessionSlot.key h
  rw [writeSessionState, writeSessionState, dif_neg haccepted, dif_neg hother]
  simp only [SessionState.store, h]

theorem write_noKeys (haccepted : ¬ Refused key value)
    (h : writeSessionState name text noKeys = writeSessionState key value noKeys) :
    ¬ Refused name text ∧ written key value = written name text := by
  rw [writeSessionState, writeSessionState, dif_neg haccepted] at h
  by_cases hrefused : Refused name text
  · rw [dif_pos hrefused] at h
    cases congrArg Prod.snd h
  · rw [dif_neg hrefused] at h
    refine ⟨hrefused, ?_⟩
    have hslots := congrArg (fun r => r.1.slots[0]?) h
    simp only [SessionState.store, writeSlot_noKeys] at hslots
    exact (Option.some.inj hslots).symm

end Writes

section Fidelity

variable {c : PromptContext} {response arg1 arg2 held1 held2 : Bytes} {call : ToolCall} {tool : Tool} {env : LoopEnv}

/-- The step acts on these arguments and no others, unless the call is refused. -/
def ActsOn (arg1 arg2 : Bytes) (s next : Loop) (tool : Tool) : Prop :=
  if tool = .writeSessionState then
    .completed true ∈ newDeeds s next → s.started = true → writeSessionState arg1 arg2 s.state = (next.state, true)
  else ∀ request, .requested request ∈ newDeeds s next → exactRequest arg1 arg2 tool = some request

/-- What is held has the effect of the arguments. -/
def SameEffect (held1 held2 arg1 arg2 : Bytes) (tool : Tool) : Prop :=
  if tool = .writeSessionState then
    Refused held1 held2 ∨ ¬ Refused arg1 arg2 ∧ written held1 held2 = written arg1 arg2
  else toolRequest held1 held2 tool = exactRequest arg1 arg2 tool

theorem session_acts_iff (htool : executedTool call.name = some .writeSessionState) :
    (∀ env s next, executeTool env call s = .ok next → ActsOn arg1 arg2 s next .writeSessionState) ↔
      SameEffect call.arg1 call.arg2 arg1 arg2 .writeSessionState := by
  unfold ActsOn SameEffect
  simp only [if_true]
  constructor
  · intro h
    by_cases hrefused : Refused call.arg1 call.arg2
    · exact .inl hrefused
    · have hwrites : Returns (executeTool {} call { started := true }) _ := executeTool_writes htool
      obtain ⟨next, hnext, hspec⟩ := hwrites
      rw [if_neg hrefused] at hspec
      have hwrite := h {} _ next hnext hspec.1 rfl
      exact .inr (write_noKeys hrefused (hwrite.trans (hspec.2 rfl)))
  · intro h env s next hnext hcompleted hstarted
    have hwrites : Returns (executeTool env call s) _ := executeTool_writes htool
    obtain ⟨other, hother, hspec⟩ := hwrites
    obtain rfl := Except.ok.inj (hother.symm.trans hnext)
    by_cases hrefused : Refused call.arg1 call.arg2
    · rw [if_pos hrefused] at hspec
      exact absurd hcompleted hspec
    · rw [if_neg hrefused] at hspec
      obtain ⟨haccepted, hsame⟩ := h.resolve_left hrefused
      rw [hspec.2 hstarted]
      exact (write_same hrefused haccepted hsame s.state).symm

theorem request_acts_iff (htool : executedTool call.name = some tool) (hacting : tool ∈ actingTools)
    (hsession : tool ≠ .writeSessionState) (hjson : tool = .postUrl → call.arg2 ≠ []) :
    (∀ env s next, executeTool env call s = .ok next → ActsOn arg1 arg2 s next tool) ↔
      SameEffect call.arg1 call.arg2 arg1 arg2 tool := by
  unfold ActsOn SameEffect
  simp only [if_neg hsession]
  constructor
  · intro h
    obtain ⟨request, hrequest, hsent, -⟩ := executeTool_acts {} {} htool hacting hsession
    have hasked : ¬ Unasked {} call tool := by
      rintro (⟨-, hsecrets⟩ | ⟨hpost, hnil⟩)
      · cases hsecrets
      · exact hjson hpost hnil
    obtain ⟨phase, default, hnext⟩ := hsent hasked
    have hturn := startRequest_turn {} request phase default (({ call } : Loop).act (.called tool))
    have hnew : newDeeds {} (startRequest {} request phase default (({ call } : Loop).act (.called tool))).1 =
        [.called tool, .requested request] := newDeeds_append hturn
    have hexact := h {} {} _ hnext request (by simp [hnew])
    rw [hrequest, hexact]
  · intro h env s next hnext request hin
    obtain ⟨asked, hrequest, hsent, hunsent⟩ := executeTool_acts env s htool hacting hsession
    by_cases hasked : Unasked env call tool
    · obtain ⟨text, mid, hclosed, hmid⟩ := hunsent hasked
      obtain rfl := Except.ok.inj (hclosed.symm.trans hnext)
      rw [newDeeds, closeTurn_turn] at hin
      rcases hmid with hmid | hmid
      · rw [hmid, List.drop_left] at hin
        simp at hin
      · rw [hmid, List.append_assoc, List.drop_left] at hin
        simp at hin
    · obtain ⟨phase, default, hstarted⟩ := hsent hasked
      obtain rfl := Except.ok.inj (hstarted.symm.trans hnext)
      have hsame : ({ s with call } : Loop).turn = s.turn := rfl
      have hcalled := called_only env asked phase default tool hsame request hin
      rw [hcalled, ← hrequest, h]

/-- A call acts on these arguments exactly when what it holds has their effect. -/
theorem acts_iff (htool : executedTool call.name = some tool) (hacting : tool ∈ actingTools)
    (hjson : tool = .postUrl → call.arg2 ≠ []) :
    (∀ env s next, executeTool env call s = .ok next → ActsOn arg1 arg2 s next tool) ↔
      SameEffect call.arg1 call.arg2 arg1 arg2 tool := by
  by_cases hsession : tool = .writeSessionState
  · subst hsession
    exact session_acts_iff htool
  · exact request_acts_iff htool hacting hsession hjson

/-- The arguments that a reply gives to a tool. -/
structure GivesArguments (response : Bytes) (tool : Tool) (arg1 arg2 : Bytes) : Prop where
  first : ∀ key, firstKey tool = some key → MemberIs response (ascii key) arg1
  second : ∀ key, secondKey tool = some key → MemberIs response (ascii key) arg2

/-- These strings stand behind the keys where the reader looks for them. -/
structure Stand (response : Bytes) (tool : Tool) (arg1 arg2 : Bytes) : Prop where
  first : ∀ key, firstKey tool = some key → stringBehind response (ascii key) = arg1
  second : ∀ key, secondKey tool = some key → stringBehind response (ascii key) = arg2

/-- The request of a tool fits in its buffer. -/
def RequestFits (arg1 arg2 : Bytes) : Tool → Prop
  | .readFile => (BridgeTarget.read arg1).encoded.length ≤ m4PathBufLen
  | .writeFile => (BridgeBody.write arg1 arg2).encoded.length ≤ m4BridgeBodyBufLen
  | .applyPatch => (BridgeBody.patch arg2).encoded.length ≤ m4BridgeBodyBufLen
  | .runProcess => (BridgeBody.runPython arg1 5).encoded.length ≤ m4BridgeBodyBufLen
  | _ => True

/-- The arguments of a tool, and its request, fit in their buffers. -/
structure Fit (tool : Tool) (arg1 arg2 : Bytes) : Prop where
  first : firstKey tool ≠ none → arg1.length ≤ m4ToolArg1Max
  second : secondKey tool ≠ none → arg2.length ≤ m4ToolArg2Max
  request : RequestFits arg1 arg2 tool

/-- An argument is held whole exactly when it fits, and else a part of it is held. -/
theorem held_iff {key : String} {argument : Bytes} (h : stringBehind response (ascii key) = argument) (capacity : ℕ) :
    (heldArgument response capacity (some key) = argument ↔ argument.length ≤ capacity) ∧
      (heldArgument response capacity (some key)).Sublist argument := by
  obtain ⟨hread, -, -, hwhole⟩ := heldArgument_cut response capacity key
  have hpart := stringBehind_part hread
  rw [h] at hwhole hpart
  exact ⟨hwhole, hpart⟩

theorem Stand.same_iff (h : Stand response tool arg1 arg2) (hacting : tool ∈ actingTools) (hsession : tool ≠ .writeSessionState) :
    SameEffect (heldArguments response tool).1 (heldArguments response tool).2 arg1 arg2 tool ↔ Fit tool arg1 arg2 := by
  have hfit : ∀ {P : Prop}, (P ↔ (firstKey tool ≠ none → arg1.length ≤ m4ToolArg1Max) ∧
      (secondKey tool ≠ none → arg2.length ≤ m4ToolArg2Max) ∧ RequestFits arg1 arg2 tool) → (P ↔ Fit tool arg1 arg2) := by
    intro P hP
    rw [hP]
    exact ⟨fun hall => ⟨hall.1, hall.2.1, hall.2.2⟩, fun hall => ⟨hall.first, hall.second, hall.request⟩⟩
  apply hfit
  unfold SameEffect
  rw [if_neg hsession]
  cases tool with
  | writeFile =>
    obtain ⟨hfirst, hpath⟩ := held_iff (h.first "path" rfl) m4ToolArg1Max
    obtain ⟨hsecond, hcontent⟩ := held_iff (h.second "content" rfl) m4ToolArg2Max
    have hbuild := (PartOf.write hpath hcontent).build_iff m4BridgeBodyBufLen
    simp [toolRequest, exactRequest, heldArguments, firstKey, secondKey, RequestFits, hbuild, hfirst, hsecond, and_assoc]
  | applyPatch =>
    obtain ⟨hsecond, hpatch⟩ := held_iff (h.second "patch" rfl) m4ToolArg2Max
    have hbuild := (PartOf.patch hpatch).build_iff m4BridgeBodyBufLen
    simp [toolRequest, exactRequest, heldArguments, firstKey, secondKey, RequestFits, hbuild, hsecond]
  | runProcess =>
    obtain ⟨hfirst, hpath⟩ := held_iff (h.first "path" rfl) m4ToolArg1Max
    have hrun : PartOf (.runPython (heldArgument response m4ToolArg1Max (some "path")) 5) (.runPython arg1 5) := .runPython hpath
    have hbuild := hrun.build_iff m4BridgeBodyBufLen
    simp [toolRequest, exactRequest, heldArguments, firstKey, secondKey, RequestFits, hbuild, hfirst]
  | readFile =>
    obtain ⟨hfirst, hpath⟩ := held_iff (h.first "path" rfl) m4ToolArg1Max
    have hbuild := readTarget_iff m4PathBufLen hpath
    simp [toolRequest, exactRequest, heldArguments, firstKey, secondKey, RequestFits, hbuild, hfirst]
  | postUrl =>
    obtain ⟨hfirst, -⟩ := held_iff (h.first "url" rfl) m4ToolArg1Max
    obtain ⟨hsecond, -⟩ := held_iff (h.second "json" rfl) m4ToolArg2Max
    simp [toolRequest, exactRequest, heldArguments, firstKey, secondKey, RequestFits, hfirst, hsecond]
  | postTweet =>
    obtain ⟨hfirst, -⟩ := held_iff (h.first "text" rfl) m4ToolArg1Max
    simp [toolRequest, exactRequest, heldArguments, firstKey, secondKey, RequestFits, hfirst]
  | writeSessionState => exact absurd rfl hsession
  | _ => exact absurd hacting (by decide)

/-- What the session holds of an argument is refused where it is not whole. -/
theorem Stand.session (h : Stand response .writeSessionState arg1 arg2) :
    SameEffect (heldArguments response .writeSessionState).1 (heldArguments response .writeSessionState).2 arg1 arg2
      .writeSessionState := by
  have hkey := h.first "key" rfl
  have hvalue := h.second "value" rfl
  obtain ⟨-, -, hfirst, -⟩ := heldArgument_cut response m4ToolArg1Max "key"
  obtain ⟨-, -, hsecond, -⟩ := heldArgument_cut response m4ToolArg2Max "value"
  unfold SameEffect heldArguments
  rw [if_pos rfl]
  change Refused (heldArgument response m4ToolArg1Max (some "key")) (heldArgument response m4ToolArg2Max (some "value")) ∨
    ¬ Refused arg1 arg2 ∧ written (heldArgument response m4ToolArg1Max (some "key"))
      (heldArgument response m4ToolArg2Max (some "value")) = written arg1 arg2
  rw [hkey] at hfirst
  rw [hvalue] at hsecond
  rcases hfirst with hfirst | ⟨front, hfront, -, hlong⟩
  · rcases hsecond with hsecond | ⟨front, hfront, -, hlong⟩
    · rw [hfirst, hsecond]
      by_cases hrefused : Refused arg1 arg2
      · exact .inl hrefused
      · exact .inr ⟨hrefused, rfl⟩
    · have hle := hfront.length_le
      have hmax : sessionStateValueMax + 4 < m4ToolArg2Max := by decide
      exact .inl (.inr (.inr (by omega)))
  · have hle := hfront.length_le
    have hmax : sessionStateKeyMax + 4 < m4ToolArg1Max := by decide
    exact .inl (.inr (.inl (by omega)))

/-- The arguments reach the request: they stand where the reader looks for them and fit in the buffers, or what stands
there has their effect by chance. -/
def Carried (response : Bytes) (tool : Tool) (arg1 arg2 : Bytes) : Prop :=
  Stand response tool arg1 arg2 ∧ (tool = .writeSessionState ∨ Fit tool arg1 arg2) ∨
    ¬ Stand response tool arg1 arg2 ∧
      SameEffect (heldArguments response tool).1 (heldArguments response tool).2 arg1 arg2 tool

theorem carried_iff (hacting : tool ∈ actingTools) : Carried response tool arg1 arg2 ↔
    SameEffect (heldArguments response tool).1 (heldArguments response tool).2 arg1 arg2 tool := by
  unfold Carried
  by_cases hstand : Stand response tool arg1 arg2
  · by_cases hsession : tool = .writeSessionState
    · subst hsession
      simp [hstand, hstand.session]
    · simp [hstand, hsession, hstand.same_iff hacting hsession]
  · simp [hstand]

/-- A reply of the model that calls a tool. -/
def callText (tool : Tool) (members : List (Bytes × Bytes)) : Bytes :=
  plainObject ((ascii "type", ascii "tool") :: (ascii "tool", toolName tool) :: members)

def writeText : Bytes := callText .writeFile [(ascii "path", ascii "a.py"), (ascii "content", ascii "pass")]

def writeCall : ToolCall := ⟨toolName .writeFile, ascii "a.py", ascii "pass"⟩

/-- A path of 164 slashes. -/
def slashes : Bytes := List.replicate 164 47

end Fidelity

end MiniAgentOS.Agent
