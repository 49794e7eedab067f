import MiniAgentOS.Agent.Memory

/-! What holds of the retained memory after any calls. Beside the contents of the slots, an invariant
bounds the room that their texts take once they are escaped. -/
namespace MiniAgentOS.Agent
open Checked

section Plain

variable {lead text p : Bytes} {room : ℕ}

set_option maxRecDepth 4000 in
theorem plain_digit : ∀ b : UInt8, isDigit b → b ≤ 0x7f ∧ escapeByte b = none := forall_byte (by decide)

theorem plain_u64ToDec (value : ℕ) : PlainText (u64ToDec value) := by
  intro b hb
  apply plain_digit
  unfold u64ToDec at hb
  split_ifs at hb
  · rw [List.mem_singleton.mp hb]
    rfl
  · exact decDigits_digit 20 value b (List.mem_reverse.mp hb)

theorem PlainText.flatten {pieces : List Bytes} (h : ∀ piece ∈ pieces, PlainText piece) :
    PlainText pieces.flatten := by
  intro b hb
  obtain ⟨piece, hpiece, hmem⟩ := List.mem_flatten.mp hb
  exact h piece hpiece b hmem

theorem PlainText.fillBuffer {pieces : List Bytes} (h : ∀ piece ∈ pieces, PlainText piece) (capacity : ℕ) :
    PlainText (fillBuffer capacity pieces) := by
  rw [fillBuffer_eq]
  exact (PlainText.flatten h).of_sub (List.take_subset _ _)

theorem copyUtf8Prefix_isPrefix (room : ℕ) (src : Bytes) : copyUtf8Prefix room src <+: src := List.take_prefix _ _

end Plain

section Names

variable {tool name result : Bytes} {slot : SlotId}

/-- The names that the tools of a slot begin with. -/
def toolNames : SlotId → List Bytes
  | .source => [ascii "fetch_url", ascii "search_web"]
  | .workspace => [ascii "list_workspace", ascii "read_file", ascii "write_file", ascii "apply_patch"]
  | .execution => [ascii "run_process", ascii "read_process_output"]
  | _ => []

theorem startsWithTool_iff : startsWithTool tool name = true ↔ name <+: tool := decide_eq_true_iff

/-- `starts_with` over the whole name. -/
theorem startsWith_eq (tool name : Bytes) :
    startsWith tool tool.length name = .ok (startsWithTool tool name) := by
  unfold startsWith startsWithAt startsWithTool
  rw [Nat.zero_add]
  split_ifs with hlong
  · have hnot : ¬ name <+: tool := fun h => absurd h.length_le (by omega)
    rw [decide_eq_false hnot]
    rfl
  · rw [matchesAt_eq (by omega)]
    rfl

/-- The name that a tool of the workspace begins with. -/
theorem isWorkspaceTool_named (h : isWorkspaceTool tool = true) :
    ∃ name ∈ toolNames .workspace, name <+: tool := by
  unfold isWorkspaceTool at h
  simp only [Bool.or_eq_true, startsWithTool_iff] at h
  unfold toolNames
  rcases h with ((h | h) | h) | h
  · exact ⟨_, by simp, h⟩
  · exact ⟨_, by simp, h⟩
  · exact ⟨_, by simp, h⟩
  · exact ⟨_, by simp, h⟩

theorem toolKindSlot_named (h : toolKindSlot tool = some slot) : ∃ name ∈ toolNames slot, name <+: tool := by
  unfold toolKindSlot at h
  split_ifs at h with hsource hworkspace hexecution
  · cases h
    simp only [Bool.or_eq_true, startsWithTool_iff] at hsource
    rcases hsource with hname | hname
    · exact ⟨_, by simp [toolNames], hname⟩
    · exact ⟨_, by simp [toolNames], hname⟩
  · cases h
    exact isWorkspaceTool_named hworkspace
  · cases h
    simp only [Bool.or_eq_true, startsWithTool_iff] at hexecution
    rcases hexecution with hname | hname
    · exact ⟨_, by simp [toolNames], hname⟩
    · exact ⟨_, by simp [toolNames], hname⟩

/-- The names are plain, and neither short nor long. -/
def NameOk (least : ℕ) (name : Bytes) : Prop := PlainText name ∧ least ≤ name.length ∧ name.length ≤ 19

theorem nameOk_ascii {s : String} {l : List Char} {least : ℕ} (h : s = String.ofList l)
    (hl : l.all PlainChar = true) (hlen : least ≤ l.length ∧ l.length ≤ 19) : NameOk least (ascii s) := by
  refine ⟨plain_ascii h hl, ?_⟩
  rwa [ascii_length h]

theorem toolNames_ok (slot : SlotId) : ∀ name ∈ toolNames slot,
    NameOk (if slot = .execution then 11 else 9) name := by
  intro name hname
  cases slot with
  | task | conversation => cases hname
  | source | workspace | execution =>
    unfold toolNames at hname
    simp only [List.mem_cons, List.not_mem_nil, or_false] at hname
    rcases hname with rfl | rfl | rfl | rfl <;> exact nameOk_ascii rfl (by decide) (by decide)

theorem toolNames_plain {slot : SlotId} (hmem : name ∈ toolNames slot) : PlainText name ∧ 9 ≤ name.length ∧
    name.length ≤ 19 ∧ (slot = .execution → 11 ≤ name.length) := by
  obtain ⟨hplain, hlow, hhigh⟩ := toolNames_ok slot name hmem
  refine ⟨hplain, ?_, hhigh, fun h => ?_⟩
  · split_ifs at hlow <;> omega
  · rwa [if_pos h] at hlow

end Names

section Weights

variable {tool name result : Bytes} {slot : SlotId}

/-- The bytes that the state, the summary and the source of a slot take in a list. -/
def slotWeight (state : MemoryState) (summary source : Bytes) : ℕ :=
  (stateName state).length + (jsonEscape (copyUtf8Prefix memorySummaryMax summary)).length +
    (jsonEscape (copyUtf8Prefix memorySourceMax source)).length

def slotWeightMax : SlotId → ℕ
  | .task => 1168
  | .source => 1693
  | .workspace => 1679
  | .execution => 1658
  | .conversation => 1173

theorem stateName_length : (stateName .raw).length = 3 ∧ (stateName .derived).length = 7 ∧
    (stateName .compacted).length = 9 ∧ (stateName .none).length = 7 :=
  ⟨ascii_length rfl, ascii_length rfl, ascii_length rfl, ascii_length rfl⟩

theorem escape_copy_le (room : ℕ) (text : Bytes) : (jsonEscape (copyUtf8Prefix room text)).length ≤ 6 * room := by
  have hsix := jsonEscape_length_le (copyUtf8Prefix room text)
  have hlen := copyUtf8Prefix_length_le room text
  omega

/-- A text that begins plainly, copied with the bound of the buffer. -/
theorem escape_copy_lead_le {lead text rest : Bytes} {room : ℕ} (hlead : PlainText lead)
    (htext : text <+: lead ++ rest) (hlen : lead.length ≤ room) :
    (jsonEscape (copyUtf8Prefix room text)).length ≤ lead.length + 6 * (room - lead.length) :=
  hlead.escape_length_le ((copyUtf8Prefix_isPrefix room text).trans htext) (copyUtf8Prefix_length_le room text) hlen

theorem escape_copy_plain_le {text : Bytes} (h : PlainText text) (room : ℕ) :
    (jsonEscape (copyUtf8Prefix room text)).length ≤ room := by
  rw [(h.of_sub (copyUtf8Prefix_isPrefix room text).subset).escape]
  exact copyUtf8Prefix_length_le room text

theorem toolSource_le (hname : PlainText name) (htool : name <+: tool) (hlen : name.length ≤ 19) :
    (jsonEscape (copyUtf8Prefix memorySourceMax tool)).length ≤ name.length + 6 * (128 - name.length) := by
  obtain ⟨rest, rfl⟩ := htool
  exact escape_copy_lead_le hname List.prefix_rfl (by unfold memorySourceMax; omega)

/-- A summary that names the tool behind plain words. -/
theorem toolSummary_le {words : Bytes} {stop : List Bytes} (hwords : PlainText words)
    (hname : PlainText name) (htool : name <+: tool) (hlen : words.length + name.length ≤ 192) :
    (jsonEscape (copyUtf8Prefix memorySummaryMax ((words ++ tool ++ stop.flatten).take memorySummaryMax))).length ≤
      words.length + name.length + 6 * (192 - (words.length + name.length)) := by
  obtain ⟨rest, rfl⟩ := htool
  have hplain := hwords.append hname
  have hprefix : (words ++ (name ++ rest) ++ stop.flatten).take memorySummaryMax <+:
      words ++ name ++ (rest ++ stop.flatten) := by
    have hassoc : words ++ (name ++ rest) ++ stop.flatten = words ++ name ++ (rest ++ stop.flatten) := by
      simp only [List.append_assoc]
    rw [hassoc]
    exact List.take_prefix _ _
  have hfits : (words ++ name).length ≤ memorySummaryMax := by rwa [List.length_append]
  have hbound := escape_copy_lead_le hplain hprefix hfits
  rwa [List.length_append] at hbound

/-- What a compaction retains as the summary. -/
def CompactedAs (tool result : Bytes) (pair : Bytes × Bytes) : Prop :=
  PlainText pair.1 ∨ isWorkspaceTool tool = true ∧ pair = buildWorkspaceCompacted tool result

theorem buildSearchCompacted_plain (result : Bytes) :
    Returns (buildSearchCompacted result) fun pair => PlainText pair.1 := by
  apply Returns.bind (jsonExtractStringLocal_returns _ _ _)
  intro title _
  apply Returns.bind (jsonExtractStringLocal_returns _ _ _)
  intro url _
  apply Returns.bind (jsonExtractStringLocal_returns _ _ _)
  intro snippet _
  apply Returns.pure
  apply PlainText.fillBuffer
  intro piece hpiece
  simp only [List.mem_append, List.mem_singleton] at hpiece
  rcases hpiece with (rfl | hresults) | rfl
  · exact plain_ascii rfl (by decide)
  · split_ifs at hresults
    · cases hresults
    · simp only [List.mem_cons, List.not_mem_nil, or_false] at hresults
      rcases hresults with rfl | rfl | rfl
      · exact plain_ascii rfl (by decide)
      · exact plain_u64ToDec _
      · exact plain_ascii rfl (by decide)
  · exact plain_ascii rfl (by decide)

theorem buildExecutionCompacted_plain (result : Bytes) :
    Returns (buildExecutionCompacted result) fun pair => PlainText pair.1 := by
  have hexit : Returns ((·.getD 0) <$> jsonExtractU64 result result.length (ascii "exit_code"))
      fun _ => True := by
    rw [returns_map]
    exact (jsonExtractU64_returns le_rfl).mono fun _ _ => trivial
  apply Returns.bind hexit
  intro exitCode _
  apply Returns.bind (jsonExtractStringLocal_returns _ _ _)
  intro stdout _
  apply Returns.bind (jsonExtractStringLocal_returns _ _ _)
  intro stderr _
  apply Returns.pure
  apply PlainText.fillBuffer
  intro piece hpiece
  simp only [List.mem_cons, List.not_mem_nil, or_false] at hpiece
  rcases hpiece with rfl | rfl | rfl
  · split_ifs
    · exact plain_ascii rfl (by decide)
    · exact plain_ascii rfl (by decide)
  · exact plain_u64ToDec _
  · exact plain_ascii rfl (by decide)

theorem buildFetchCompacted_plain (result : Bytes) : PlainText (buildFetchCompacted result).1 := by
  apply PlainText.fillBuffer
  intro piece hpiece
  rw [List.mem_singleton.mp hpiece]
  exact plain_ascii rfl (by decide)

theorem compactToolResult_as (tool result : Bytes) :
    Returns (compactToolResultIfNeeded tool result) fun r => ∀ pair, r = some pair →
      CompactedAs tool result pair := by
  apply Returns.ite
  · exact fun _ => Returns.pure (by simp)
  intro _
  apply Returns.ite
  · intro _
    rw [returns_map]
    refine (buildSearchCompacted_plain result).mono ?_
    rintro pair hpair _ ⟨⟩
    exact .inl hpair
  intro _
  apply Returns.ite
  · intro _
    apply Returns.pure
    rintro _ ⟨⟩
    exact .inl (buildFetchCompacted_plain result)
  intro _
  apply Returns.ite
  · intro _
    rw [returns_map]
    refine (buildExecutionCompacted_plain result).mono ?_
    rintro pair hpair _ ⟨⟩
    exact .inl hpair
  intro _
  apply Returns.ite
  · intro hworkspace
    apply Returns.pure
    rintro _ ⟨⟩
    exact .inr ⟨hworkspace, rfl⟩
  · exact fun _ => Returns.pure (by simp)

theorem toolKindSlot_workspace (hslot : toolKindSlot tool = some slot) (hworkspace : isWorkspaceTool tool = true) :
    1679 ≤ slotWeightMax slot := by
  unfold toolKindSlot at hslot
  rw [if_pos hworkspace] at hslot
  split_ifs at hslot
  · cases hslot
    decide
  · cases hslot
    exact le_rfl

theorem buildWorkspaceCompacted_weight (hworkspace : isWorkspaceTool tool = true) (result : Bytes) :
    slotWeight .compacted (buildWorkspaceCompacted tool result).1 tool ≤ 1679 := by
  obtain ⟨name, hmem, htool⟩ := isWorkspaceTool_named hworkspace
  obtain ⟨hname, hlow, hhigh, -⟩ := toolNames_plain hmem
  have hwords : PlainText (ascii "Compacted workspace result from ") := plain_ascii rfl (by decide)
  have hlen : (ascii "Compacted workspace result from ").length = 32 := ascii_length rfl
  have hsummary := @toolSummary_le tool name _ [ascii "."] hwords hname htool (by omega)
  have htext : (buildWorkspaceCompacted tool result).1 =
      (ascii "Compacted workspace result from " ++ tool ++ [ascii "."].flatten).take memorySummaryMax := by
    unfold buildWorkspaceCompacted
    rw [fillBuffer_eq]
    simp only [List.flatten_cons, List.flatten_nil, List.append_assoc]
  have hsource := toolSource_le hname htool hhigh
  unfold slotWeight
  rw [htext, stateName_length.2.2.1]
  omega

/-- The length of the words before the name of the tool. -/
def summaryWords : SlotId → ℕ
  | .source => 28
  | _ => 31

theorem buildToolSummary_weight (hslot : toolKindSlot tool = some slot) (hmem : name ∈ toolNames slot)
    (htool : name <+: tool) (result : Bytes) (state : MemoryState) :
    slotWeight state (buildToolSummary tool result) tool + 5 * summaryWords slot + 10 * name.length ≤
      (stateName state).length + 1920 := by
  obtain ⟨hname, hlow, hhigh, -⟩ := toolNames_plain hmem
  have hwords : PlainText (ascii "Retained " ++ toolKindName tool ++ ascii " result from ") ∧
      (ascii "Retained " ++ toolKindName tool ++ ascii " result from ").length = summaryWords slot := by
    unfold toolKindName
    rw [hslot]
    have hretained : PlainText (ascii "Retained ") := plain_ascii rfl (by decide)
    have hfrom : PlainText (ascii " result from ") := plain_ascii rfl (by decide)
    have hlen : ∀ kind : Bytes, (ascii "Retained " ++ kind ++ ascii " result from ").length = kind.length + 22 := by
      intro kind
      rw [List.length_append, List.length_append, ascii_length rfl, ascii_length rfl]
      simp only [List.length_cons, List.length_nil]
      omega
    cases slot with
    | task | conversation => cases hmem
    | source =>
      refine ⟨(hretained.append (plain_ascii rfl (by decide))).append hfrom, ?_⟩
      rw [hlen, ascii_length rfl]
      rfl
    | workspace =>
      refine ⟨(hretained.append (plain_ascii rfl (by decide))).append hfrom, ?_⟩
      rw [hlen, ascii_length rfl]
      rfl
    | execution =>
      refine ⟨(hretained.append (plain_ascii rfl (by decide))).append hfrom, ?_⟩
      rw [hlen, ascii_length rfl]
      rfl
  obtain ⟨hplain, hlen⟩ := hwords
  have hsource := toolSource_le hname htool hhigh
  have htext : buildToolSummary tool result = (ascii "Retained " ++ toolKindName tool ++
      ascii " result from " ++ tool ++
        (if result = [] then [] else [ascii "."] : List Bytes).flatten).take memorySummaryMax := by
    unfold buildToolSummary
    rw [fillBuffer_eq]
    simp only [List.flatten_append, List.flatten_cons, List.flatten_nil, List.append_assoc, List.append_nil]
  have hsummary := @toolSummary_le tool name _ (if result = [] then [] else [ascii "."]) hplain hname htool
  rw [hlen] at hsummary
  unfold slotWeight
  rw [htext]
  have hwords : summaryWords slot ≤ 31 := by cases slot <;> decide
  have hbound := hsummary (by omega)
  omega

/-- What is retained of a result fits the list. -/
theorem retained_weight (hslot : toolKindSlot tool = some slot) (result : Bytes) :
    Returns (retained slot tool result) fun r => slotWeight r.1 r.2.1 tool ≤ slotWeightMax slot := by
  obtain ⟨hraw, hderived, hcompacted, -⟩ := stateName_length
  apply Returns.bind (compactToolResult_as tool result)
  intro r hr
  cases r with
  | some pair =>
    apply Returns.pure
    dsimp only
    rcases hr pair rfl with hplain | ⟨hworkspace, rfl⟩
    · have hsummary : _ ≤ 192 := escape_copy_plain_le hplain memorySummaryMax
      obtain ⟨name, hmem, htool⟩ := toolKindSlot_named hslot
      obtain ⟨hname, hlow, hhigh, -⟩ := toolNames_plain hmem
      have hsource := toolSource_le hname htool hhigh
      have hmax : 1168 ≤ slotWeightMax slot := by cases slot <;> decide
      unfold slotWeight
      rw [hcompacted]
      omega
    · exact (buildWorkspaceCompacted_weight hworkspace result).trans (toolKindSlot_workspace hslot hworkspace)
  | none =>
    apply Returns.pure
    dsimp only
    split_ifs with hsearch
    · obtain ⟨rfl, hname⟩ := hsearch
      have hmem : ascii "search_web" ∈ toolNames .source := List.mem_cons_of_mem _ List.mem_cons_self
      have hweight := buildToolSummary_weight hslot hmem (startsWithTool_iff.mp hname) result .derived
      have hten : (ascii "search_web").length = 10 := ascii_length rfl
      have hwords : summaryWords .source = 28 := rfl
      change slotWeight _ _ _ ≤ 1693
      omega
    · obtain ⟨name, hmem, htool⟩ := toolKindSlot_named hslot
      obtain ⟨-, hlow, -, hexecution⟩ := toolNames_plain hmem
      have hweight := buildToolSummary_weight hslot hmem htool result .raw
      have hmax : 1833 ≤ slotWeightMax slot + 5 * summaryWords slot + (if slot = .execution then 20 else 0) := by
        cases slot with
        | task | conversation => cases hmem
        | source | workspace | execution => decide
      split_ifs at hmax with heleven
      · have hname := hexecution heleven
        omega
      · omega

end Weights

section Invariant

/-- When the slots were first written since the last reset. A turn begins with each request of the
user. -/
structure Ledger where
  turn : ℕ := 0
  first : SlotId → Option ℕ := fun _ => none

def Ledger.write (l : Ledger) (name : SlotId) : Ledger :=
  { l with first := Function.update l.first name (some ((l.first name).getD l.turn)) }

def Ledger.step (l : Ledger) : MemoryCall → Ledger
  | .reset => {}
  | .user _ => { l with turn := (l.turn + 1) % 2 ^ 16 : Ledger }.write .task
  | .tool tool _ => ((toolKindSlot tool).map l.write).getD l
  | .assistant _ => l.write .conversation

def ledger (calls : List MemoryCall) : Ledger := calls.foldl Ledger.step {}

/-- A slot that is written: it has the kind and the id of its place, and texts within its bounds. -/
structure Written (name : SlotId) (first : ℕ) (slot : MemorySlot) : Prop where
  kind : slot.kind = name.kind
  id : slot.id = slotIdBytes name
  created : slot.createdTurn = first
  summary : Utf8 slot.summary ∧ slot.summary.length ≤ memorySummaryMax
  detail : Utf8 slot.detail ∧ slot.detail.length ≤ memoryDetailMax
  source : Utf8 slot.source ∧ slot.source.length ≤ memorySourceMax

/-- A slot is empty, or written since the last reset. -/
inductive SlotOk (name : SlotId) : Option ℕ → MemorySlot → Prop where
  | empty : SlotOk name none {}
  | written {first : ℕ} {slot : MemorySlot} : Written name first slot → SlotOk name (some first) slot

/-- A slot that takes no more room in a list than its place allows. -/
structure SlotFits (name : SlotId) (slot : MemorySlot) : Prop where
  weight : (stateName slot.state).length + (jsonEscape slot.summary).length +
    (jsonEscape slot.source).length ≤ slotWeightMax name
  turns : slot.createdTurn < 2 ^ 16 ∧ slot.updatedTurn < 2 ^ 16

structure MemoryOk (l : Ledger) (m : Memory) : Prop where
  turn : m.turn = l.turn ∧ l.turn < 2 ^ 16
  slot : ∀ name, SlotOk name (l.first name) (m.slot name)
  fits : ∀ name, SlotFits name (m.slot name)

/-- The memory before its start is empty. -/
def BeforeStart (l : Ledger) (m : Memory) : Prop := m.started = false → l = {}

variable {l : Ledger} {m : Memory} {name : SlotId} {state : MemoryState} {source summary detail : Bytes}

theorem SlotFits.empty (name : SlotId) : SlotFits name {} := by
  refine ⟨?_, by decide⟩
  have hseven : (stateName .none).length = 7 := stateName_length.2.2.2
  have hmax : 7 ≤ slotWeightMax name := by cases name <;> decide
  simpa [hseven] using hmax

theorem memoryReset_ok : MemoryOk {} memoryReset :=
  ⟨⟨rfl, by decide⟩, fun _ => .empty, SlotFits.empty⟩

theorem ensureStarted_started (m : Memory) : (ensureStarted m).started = true := by
  unfold ensureStarted
  split_ifs with h
  · exact h
  · rfl

theorem ensureStarted_of_started (h : m.started = true) : ensureStarted m = m := if_pos h

theorem MemoryOk.ensureStarted (h : MemoryOk l m) (hstart : BeforeStart l m) : MemoryOk l (ensureStarted m) := by
  unfold Agent.ensureStarted
  split_ifs with hstarted
  · exact h
  · rw [hstart (Bool.eq_false_iff.mpr hstarted)]
    exact memoryReset_ok

theorem slotIdBytes_ne_nil (name : SlotId) : slotIdBytes name ≠ [] := by
  cases name <;> exact List.ne_nil_of_length_pos (by unfold slotIdBytes; rw [ascii_length rfl]; decide)

theorem slotIdBytes_length (name : SlotId) : (slotIdBytes name).length ≤ memoryIdMax := by
  cases name <;> (unfold slotIdBytes; rw [ascii_length rfl]; decide)

theorem setSlot_started (name : SlotId) (kind : MemoryKind) (state : MemoryState) (source summary detail : Bytes)
    (m : Memory) : (setSlot name kind state source summary detail m).started = true := ensureStarted_started m

/-- An id tells a slot that is written from an empty one. -/
theorem SlotOk.id {first : Option ℕ} {slot : MemorySlot} (h : SlotOk name first slot) :
    first = none ∧ slot.id = [] ∨
      ∃ t, first = some t ∧ slot.id = slotIdBytes name ∧ slot.createdTurn = t := by
  cases h with
  | empty => exact .inl ⟨rfl, rfl⟩
  | written h => exact .inr ⟨_, rfl, h.id, h.created⟩

/-- Writing a slot keeps the invariant. -/
theorem MemoryOk.setSlot (h : MemoryOk l m) (hstarted : m.started = true)
    (hweight : slotWeight state summary source ≤ slotWeightMax name) :
    MemoryOk (l.write name) (setSlot name name.kind state source summary detail m) := by
  unfold Agent.setSlot
  rw [ensureStarted_of_started hstarted]
  dsimp only
  have hkept : (if (m.slot name).id = [] then (slotIdBytes name).take memoryIdMax else (m.slot name).id) =
      slotIdBytes name ∧
      (if (m.slot name).id = [] then m.turn else (m.slot name).createdTurn) = (l.first name).getD l.turn := by
    rcases (h.slot name).id with ⟨hfirst, hid⟩ | ⟨first, hfirst, hid, hcreated⟩
    · rw [if_pos hid, if_pos hid, hfirst]
      exact ⟨List.take_of_length_le (slotIdBytes_length name), h.turn.1⟩
    · have hne : (m.slot name).id ≠ [] := hid ▸ slotIdBytes_ne_nil name
      rw [if_neg hne, if_neg hne, hfirst]
      exact ⟨hid, hcreated⟩
  obtain ⟨hid, hcreated⟩ := hkept
  have hturn : (l.first name).getD l.turn < 2 ^ 16 := by
    rw [← hcreated]
    split_ifs
    · rw [h.turn.1]
      exact h.turn.2
    · exact (h.fits name).turns.1
  have hcopy := fun (room : ℕ) (text : Bytes) =>
    And.intro (copyUtf8Prefix_utf8 room text) (copyUtf8Prefix_length_le room text)
  rw [hid, hcreated]
  refine ⟨h.turn, fun other => ?_, fun other => ?_⟩
  · by_cases hother : other = name
    · subst hother
      simp only [Ledger.write, Function.update_self]
      exact .written ⟨rfl, rfl, rfl, hcopy _ _, hcopy _ _, hcopy _ _⟩
    · simp only [Ledger.write, Function.update_of_ne hother]
      exact h.slot other
  · by_cases hother : other = name
    · subst hother
      dsimp only
      rw [Function.update_self]
      exact ⟨hweight, hturn, h.turn.1 ▸ h.turn.2⟩
    · dsimp only
      rw [Function.update_of_ne hother]
      exact h.fits other

theorem escape_ascii_copy {s : String} {l : List Char} {room : ℕ} (h : s = String.ofList l)
    (hl : l.all PlainChar = true) : (jsonEscape (copyUtf8Prefix room (ascii s))).length ≤ l.length := by
  rw [((plain_ascii h hl).of_sub (copyUtf8Prefix_isPrefix room (ascii s)).subset).escape, ← ascii_length h]
  exact (copyUtf8Prefix_isPrefix room (ascii s)).length_le

theorem noteUserRequest_ok (h : MemoryOk l m) (hstart : BeforeStart l m) (text : Bytes) :
    MemoryOk (l.step (.user text)) (noteUserRequest text m) := by
  have hok := h.ensureStarted hstart
  have hturn : MemoryOk { l with turn := (l.turn + 1) % 2 ^ 16 }
      { ensureStarted m with turn := ((ensureStarted m).turn + 1) % 2 ^ 16 } := by
    rw [hok.turn.1]
    exact ⟨⟨rfl, Nat.mod_lt _ (by decide)⟩, hok.slot, hok.fits⟩
  apply @MemoryOk.setSlot _ _ .task _ _ _ _ hturn (ensureStarted_started m)
  have hsummary : _ ≤ 6 * 192 := escape_copy_le memorySummaryMax (summaryFromText memorySummaryMax text)
  have hsource : _ ≤ 9 := @escape_ascii_copy "user_turn" _ memorySourceMax rfl (by decide)
  unfold slotWeight
  rw [stateName_length.2.1]
  change _ ≤ 1168
  omega

theorem noteAssistantResponse_ok (h : MemoryOk l m) (hstart : BeforeStart l m) (text : Bytes) :
    MemoryOk (l.step (.assistant text)) (noteAssistantResponse text m) := by
  have hok := h.ensureStarted hstart
  have hsource : _ ≤ 14 := @escape_ascii_copy "assistant_turn" _ memorySourceMax rfl (by decide)
  unfold noteAssistantResponse
  split_ifs with hlong
  · apply @MemoryOk.setSlot _ _ .conversation _ _ _ _ hok (ensureStarted_started m)
    have hplain : PlainText (fillBuffer memorySummaryMax [ascii "Compacted assistant response."]) := by
      apply PlainText.fillBuffer
      intro piece hpiece
      rw [List.mem_singleton.mp hpiece]
      exact plain_ascii rfl (by decide)
    have hsummary : _ ≤ 192 := escape_copy_plain_le hplain memorySummaryMax
    unfold slotWeight
    rw [stateName_length.2.2.1]
    change _ ≤ 1173
    omega
  · apply @MemoryOk.setSlot _ _ .conversation _ _ _ _ hok (ensureStarted_started m)
    have hsummary : _ ≤ 6 * 192 := escape_copy_le memorySummaryMax (summaryFromText memorySummaryMax text)
    unfold slotWeight
    rw [stateName_length.2.1]
    change _ ≤ 1173
    omega

theorem noteToolResult_ok (h : MemoryOk l m) (hstart : BeforeStart l m) (tool result : Bytes) :
    Returns (noteToolResult tool result m) fun m' => MemoryOk (l.step (.tool tool result)) m' ∧ m'.started = true := by
  have hok := h.ensureStarted hstart
  unfold noteToolResult Ledger.step
  dsimp only
  cases hslot : toolKindSlot tool with
  | none => exact Returns.pure ⟨hok, ensureStarted_started m⟩
  | some slot =>
    apply Returns.bind (retained_weight hslot result)
    rintro ⟨state, summary, detail⟩ hweight
    apply Returns.pure
    constructor
    · exact MemoryOk.setSlot hok (ensureStarted_started m) hweight
    · exact setSlot_started _ _ _ _ _ _ _

/-- One call keeps the invariant, and none of them traps. -/
theorem memory_step (h : MemoryOk l m) (hstart : BeforeStart l m) (call : MemoryCall) :
    Returns (m.step call) fun m' => MemoryOk (l.step call) m' ∧ m'.started = true := by
  cases call with
  | reset => exact Returns.pure ⟨memoryReset_ok, rfl⟩
  | user text => exact Returns.pure ⟨noteUserRequest_ok h hstart text, setSlot_started _ _ _ _ _ _ _⟩
  | tool tool result => exact noteToolResult_ok h hstart tool result
  | assistant text =>
    apply Returns.pure
    refine ⟨noteAssistantResponse_ok h hstart text, ?_⟩
    unfold noteAssistantResponse
    split_ifs
    · exact setSlot_started _ _ _ _ _ _ _
    · exact setSlot_started _ _ _ _ _ _ _

theorem memory_steps (h : MemoryOk l m) (hstart : BeforeStart l m) (calls : List MemoryCall) :
    Returns (calls.foldlM Memory.step m) fun m' => MemoryOk (calls.foldl Ledger.step l) m' ∧
      BeforeStart (calls.foldl Ledger.step l) m' := by
  induction calls generalizing l m with
  | nil => exact Returns.pure ⟨h, hstart⟩
  | cons call calls ih =>
    rw [List.foldlM_cons]
    apply Returns.bind (memory_step h hstart call)
    intro m' hm'
    have hlater : BeforeStart (l.step call) m' := fun hfalse => by
      rw [hm'.2] at hfalse
      cases hfalse
    exact ih hm'.1 hlater

/-- After any calls the slots are as the invariant says. -/
theorem remember_ok (calls : List MemoryCall) :
    Returns (remember calls) fun m => MemoryOk (ledger calls) m ∧ BeforeStart (ledger calls) m :=
  memory_steps ⟨⟨rfl, by decide⟩, fun _ => .empty, SlotFits.empty⟩ (fun _ => rfl) calls

end Invariant

end MiniAgentOS.Agent
