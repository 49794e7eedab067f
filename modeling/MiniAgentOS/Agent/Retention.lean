import MiniAgentOS.Agent.MemoryStore

/-! Whether the retained memory says truthfully that a result is raw. A result that is not compacted is
kept as far as it is well formed and fits, and is still called raw. -/
namespace MiniAgentOS.Agent
open Checked

section Trim

variable {text result : Bytes} {room : ℕ}

/-- A text without the line ends behind it. -/
def trimLines (text : Bytes) : Bytes := text.rdropWhile (· == lf)

theorem trimLines_utf8 (h : Utf8 text) : Utf8 (trimLines text) := by
  unfold trimLines
  induction text using List.reverseRecOn with
  | nil => exact .nil
  | append_singleton front b ih =>
    by_cases hb : (b == lf) = true
    · rw [@List.rdropWhile_concat_pos _ (· == lf) front b hb]
      have hlow : b ≤ 0x7f := by
        rw [eq_of_beq hb]
        decide
      exact ih (h.of_concat hlow)
    · rw [@List.rdropWhile_concat_neg _ (· == lf) front b hb]
      exact h

theorem trimLines_append {more : Bytes} (h : ∀ b ∈ more, b = lf) : trimLines (text ++ more) = trimLines text := by
  unfold trimLines
  induction more using List.reverseRecOn with
  | nil => rw [List.append_nil]
  | append_singleton more b ih =>
    have hb : (b == lf) = true := beq_iff_eq.mpr (h b (List.mem_append_right more List.mem_cons_self))
    rw [← List.append_assoc, @List.rdropWhile_concat_pos _ (· == lf) (text ++ more) b hb]
    exact ih fun a ha => h a (List.mem_append_left [b] ha)

theorem trimLines_split (text : Bytes) : ∃ more, text = trimLines text ++ more ∧ ∀ b ∈ more, b = lf :=
  ⟨text.rtakeWhile (· == lf), List.rdropWhile_append_rtakeWhile.symm,
    fun b hb => eq_of_beq (@List.mem_rtakeWhile_imp _ (· == lf) text b hb)⟩

theorem trimLines_idem (text : Bytes) : trimLines (trimLines text) = trimLines text :=
  List.rdropWhile_idempotent _ _

/-- A copy loses line ends only, exactly when what is in front of them is a text that fits. -/
theorem trimLines_copy_iff : trimLines (copyUtf8Prefix room result) = trimLines result ↔
    Utf8 (trimLines result) ∧ (trimLines result).length ≤ room := by
  constructor
  · intro h
    have hvalid := trimLines_utf8 (copyUtf8Prefix_utf8 room result)
    have hlen := (List.rdropWhile_prefix (· == lf) (l := copyUtf8Prefix room result)).length_le
    have hroom := copyUtf8Prefix_length_le room result
    change (trimLines (copyUtf8Prefix room result)).length ≤ _ at hlen
    rw [h] at hvalid hlen
    exact ⟨hvalid, hlen.trans hroom⟩
  · rintro ⟨hvalid, hlen⟩
    obtain ⟨lines, hresult, hlines⟩ := trimLines_split result
    obtain ⟨more, hcopy, hmore⟩ := copyUtf8Prefix_append hvalid hlen lines
    rw [← hresult] at hcopy
    rw [hcopy, trimLines_append fun b hb => hlines b (hmore.subset hb), trimLines_idem]

end Trim

section Results

/-- The results that a compaction is written for. -/
def Compacts (tool result : Bytes) : Prop := shouldCompact tool result = true ∧
  (startsWithTool tool (ascii "search_web") = true ∨ startsWithTool tool (ascii "fetch_url") = true ∨
    startsWithTool tool (ascii "read_process_output") = true ∨ isWorkspaceTool tool = true)

/-- A result that the memory says the truth about: it concerns no slot, or it is compacted, or what is
before the line ends behind it is a text that fits. -/
def RetainedWhole (tool result : Bytes) : Prop := toolKindSlot tool = none ∨ Compacts tool result ∨
  Utf8 (trimLines result) ∧ (trimLines result).length ≤ memoryDetailMax

/-- A slot holds a result, up to line ends behind it. -/
def Complete (slot : MemorySlot) (result : Bytes) : Prop := trimLines slot.detail = trimLines result

/-- A slot that says it is raw is complete, and one that is not complete says that it is compacted. -/
def Truthful (slot : MemorySlot) (result : Bytes) : Prop :=
  (slot.state = .raw → Complete slot result) ∧ (¬ Complete slot result → slot.state = .compacted)

variable {tool result : Bytes} {name : SlotId}

/-- The result whose retained form a slot holds. -/
def Retains (slot : MemorySlot) (name : SlotId) (tool result : Bytes) : Prop :=
  ∃ state summary detail, retained name tool result = .ok (state, summary, detail) ∧
    slot.state = state ∧ slot.detail = copyUtf8Prefix memoryDetailMax detail

theorem compactToolResult_some (h : Compacts tool result) :
    Returns (compactToolResultIfNeeded tool result) fun r => ∃ pair, r = some pair := by
  obtain ⟨hshould, htool⟩ := h
  unfold compactToolResultIfNeeded
  rw [hshould]
  apply Returns.ite
  · intro hnot
    cases hnot
  intro _
  apply Returns.ite
  · intro _
    rw [returns_map]
    exact (buildSearchCompacted_plain result).mono fun pair _ => ⟨pair, rfl⟩
  intro hsearch
  apply Returns.ite
  · exact fun _ => Returns.pure ⟨_, rfl⟩
  intro hfetch
  apply Returns.ite
  · intro _
    rw [returns_map]
    exact (buildExecutionCompacted_plain result).mono fun pair _ => ⟨pair, rfl⟩
  intro hprocess
  apply Returns.ite
  · exact fun _ => Returns.pure ⟨_, rfl⟩
  · intro hworkspace
    rcases htool with h | h | h | h
    · exact absurd h hsearch
    · exact absurd h hfetch
    · exact absurd h hprocess
    · exact absurd h hworkspace

theorem compactToolResult_none (h : ¬ Compacts tool result) : compactToolResultIfNeeded tool result = .ok none := by
  unfold compactToolResultIfNeeded
  by_cases hshould : shouldCompact tool result = true
  · have htool : ¬ _ := fun htool => h ⟨hshould, htool⟩
    push Not at htool
    obtain ⟨hsearch, hfetch, hprocess, hworkspace⟩ := htool
    rw [hshould, if_neg (by decide), if_neg hsearch, if_neg hfetch, if_neg hprocess, if_neg hworkspace]
    rfl
  · rw [Bool.eq_false_iff.mpr hshould]
    rfl

/-- What a slot says about the result that it holds is true exactly when the result is retained as a
whole. -/
theorem Retains.truthful_iff {slot : MemorySlot} (h : Retains slot name tool result)
    (hslot : toolKindSlot tool = some name) : Truthful slot result ↔ RetainedWhole tool result := by
  obtain ⟨state, summary, detail, hretained, hstate, hdetail⟩ := h
  unfold retained at hretained
  by_cases hcompacts : Compacts tool result
  · obtain ⟨r, hr, pair, rfl⟩ := compactToolResult_some hcompacts
    rw [hr, ok_bind] at hretained
    cases hretained
    have htrue : Truthful slot result := by
      refine ⟨fun hraw => ?_, fun _ => hstate⟩
      rw [hstate] at hraw
      cases hraw
    exact ⟨fun _ => .inr (.inl hcompacts), fun _ => htrue⟩
  · rw [compactToolResult_none hcompacts, ok_bind] at hretained
    cases hretained
    have hnot : slot.state ≠ .compacted := by
      rw [hstate]
      split_ifs <;> decide
    have hcopy : slot.detail = trimLines (copyUtf8Prefix memoryDetailMax result) := by
      rw [hdetail]
      apply (copyUtf8Prefix_eq_iff _ _).mpr
      refine ⟨trimLines_utf8 (copyUtf8Prefix_utf8 _ _), ?_⟩
      have hlen := (List.rdropWhile_prefix (· == lf) (l := copyUtf8Prefix memoryDetailMax result)).length_le
      exact hlen.trans (copyUtf8Prefix_length_le _ _)
    have hcomplete : Complete slot result ↔ RetainedWhole tool result := by
      unfold Complete RetainedWhole
      rw [hcopy, trimLines_idem, trimLines_copy_iff, hslot]
      simp [hcompacts]
    rw [← hcomplete]
    constructor
    · intro htrue
      by_contra hincomplete
      exact hnot (htrue.2 hincomplete)
    · exact fun h => ⟨fun _ => h, fun hincomplete => absurd h hincomplete⟩

end Results

section Run

/-- The last result of each slot since the last reset. -/
def noteResult (last : SlotId → Option (Bytes × Bytes)) : MemoryCall → SlotId → Option (Bytes × Bytes)
  | .reset => fun _ => none
  | .tool tool result =>
    ((toolKindSlot tool).map fun name => Function.update last name (some (tool, result))).getD last
  | _ => last

def lastResult (calls : List MemoryCall) : SlotId → Option (Bytes × Bytes) := calls.foldl noteResult fun _ => none

/-- The slots hold the last results. -/
structure HoldsResults (last : SlotId → Option (Bytes × Bytes)) (m : Memory) : Prop where
  held : ∀ name tool result, last name = some (tool, result) →
    toolKindSlot tool = some name ∧ Retains (m.slot name) name tool result
  started : m.started = false → last = fun _ => none

variable {last : SlotId → Option (Bytes × Bytes)} {m : Memory} {name : SlotId} {tool result : Bytes}

theorem noteResult_slot (hslot : toolKindSlot tool = some name) (result : Bytes) :
    noteResult last (.tool tool result) = Function.update last name (some (tool, result)) := by
  rw [noteResult, hslot, Option.map_some, Option.getD_some]

theorem noteResult_none (hslot : toolKindSlot tool = none) (result : Bytes) :
    noteResult last (.tool tool result) = last := by
  rw [noteResult, hslot, Option.map_none, Option.getD_none]

/-- Before any result nothing is held. -/
theorem holdsResults_none (m : Memory) : HoldsResults (fun _ => none) m := by
  refine ⟨fun name tool result hlast => ?_, fun _ => rfl⟩
  cases hlast

theorem HoldsResults.ensureStarted (h : HoldsResults last m) : HoldsResults last (ensureStarted m) := by
  unfold Agent.ensureStarted
  split_ifs with hstarted
  · exact h
  · refine ⟨fun name tool result hlast => ?_, fun hfalse => by cases hfalse⟩
    rw [h.started (Bool.eq_false_iff.mpr hstarted)] at hlast
    cases hlast

/-- The slots of the other calls hold no results. -/
theorem toolKindSlot_ne (tool : Bytes) : toolKindSlot tool ≠ some .task ∧ toolKindSlot tool ≠ some .conversation := by
  unfold toolKindSlot
  split_ifs <;> simp

/-- Another slot is left alone. -/
theorem HoldsResults.setSlot_other (h : HoldsResults last m) (hstarted : m.started = true)
    (hother : ∀ tool, toolKindSlot tool ≠ some name) (kind : MemoryKind) (state : MemoryState)
    (source summary detail : Bytes) : HoldsResults last (setSlot name kind state source summary detail m) := by
  refine ⟨fun other tool result hlast => ?_, fun hfalse => ?_⟩
  · obtain ⟨hslot, hretains⟩ := h.held other tool result hlast
    refine ⟨hslot, ?_⟩
    have hne : other ≠ name := fun heq => hother tool (heq ▸ hslot)
    unfold setSlot
    rw [ensureStarted_of_started hstarted]
    dsimp only
    rwa [Function.update_of_ne hne]
  · rw [setSlot_started] at hfalse
    cases hfalse

/-- A result is held where it is noted. -/
theorem HoldsResults.setSlot_result (h : HoldsResults last m) (hstarted : m.started = true)
    (hslot : toolKindSlot tool = some name) {state : MemoryState} {summary detail : Bytes}
    (hretained : retained name tool result = .ok (state, summary, detail)) :
    HoldsResults (Function.update last name (some (tool, result)))
      (setSlot name name.kind state tool summary detail m) := by
  refine ⟨fun other tool' result' hlast => ?_, fun hfalse => ?_⟩
  · unfold setSlot
    rw [ensureStarted_of_started hstarted]
    dsimp only
    by_cases hother : other = name
    · subst hother
      rw [Function.update_self] at hlast ⊢
      cases hlast
      exact ⟨hslot, state, summary, detail, hretained, rfl, rfl⟩
    · rw [Function.update_of_ne hother] at hlast ⊢
      exact h.held other tool' result' hlast
  · rw [setSlot_started] at hfalse
    cases hfalse

theorem results_step (h : HoldsResults last m) (call : MemoryCall) :
    Returns (m.step call) fun m' => HoldsResults (noteResult last call) m' := by
  have hstarted := ensureStarted_started m
  have hall := h.ensureStarted
  cases call with
  | reset => exact Returns.pure (holdsResults_none memoryReset)
  | user text =>
    apply Returns.pure
    have hturn : HoldsResults last { ensureStarted m with turn := ((ensureStarted m).turn + 1) % 2 ^ 16 } :=
      ⟨hall.held, hall.started⟩
    exact hturn.setSlot_other hstarted (fun tool => (toolKindSlot_ne tool).1) _ _ _ _ _
  | tool tool result =>
    unfold Memory.step noteToolResult
    dsimp only
    cases hslot : toolKindSlot tool with
    | none =>
      rw [noteResult_none hslot]
      exact Returns.pure hall
    | some name =>
      obtain ⟨⟨state, summary, detail⟩, hretained, -⟩ := retained_weight hslot result
      dsimp only
      rw [hretained, ok_bind, noteResult_slot hslot]
      exact Returns.pure (hall.setSlot_result hstarted hslot hretained)
  | assistant text =>
    apply Returns.pure
    unfold noteAssistantResponse
    split_ifs
    · exact hall.setSlot_other hstarted (fun tool => (toolKindSlot_ne tool).2) _ _ _ _ _
    · exact hall.setSlot_other hstarted (fun tool => (toolKindSlot_ne tool).2) _ _ _ _ _

theorem results_steps (h : HoldsResults last m) (calls : List MemoryCall) :
    Returns (calls.foldlM Memory.step m) fun m' => HoldsResults (calls.foldl noteResult last) m' := by
  induction calls generalizing last m with
  | nil => exact Returns.pure h
  | cons call calls ih =>
    rw [List.foldlM_cons]
    apply Returns.bind (results_step h call)
    intro m' hm'
    exact ih hm'

theorem remember_results (calls : List MemoryCall) :
    Returns (remember calls) fun m => HoldsResults (lastResult calls) m :=
  results_steps (holdsResults_none {}) calls

/-- The last results are results of the run. -/
theorem mem_of_lastResult {calls : List MemoryCall} (h : lastResult calls name = some (tool, result)) :
    .tool tool result ∈ calls := by
  unfold lastResult at h
  induction calls using List.reverseRecOn with
  | nil => cases h
  | append_singleton calls call ih =>
    rw [List.foldl_append] at h
    cases call with
    | reset => cases h
    | user text | assistant text => exact List.mem_append_left _ (ih h)
    | tool tool' result' =>
      rw [List.foldl_cons, List.foldl_nil] at h
      cases hslot : toolKindSlot tool' with
      | none =>
        rw [noteResult_none hslot] at h
        exact List.mem_append_left _ (ih h)
      | some other =>
        rw [noteResult_slot hslot] at h
        by_cases hname : name = other
        · subst hname
          rw [Function.update_self] at h
          cases h
          exact List.mem_append_right _ List.mem_cons_self
        · rw [Function.update_of_ne hname] at h
          exact List.mem_append_left _ (ih h)

/-- In every state of a run the slots say the truth about the results that they hold, exactly when every
result of the run is retained as a whole. -/
theorem remember_truthful_iff (calls : List MemoryCall) :
    (∀ before, before <+: calls → ∀ m, remember before = .ok m → ∀ name tool result,
      lastResult before name = some (tool, result) → Truthful (m.slot name) result) ↔
    ∀ tool result, .tool tool result ∈ calls → RetainedWhole tool result := by
  constructor
  · intro htrue tool result hmem
    obtain ⟨front, back, rfl⟩ := List.append_of_mem hmem
    cases hslot : toolKindSlot tool with
    | none => exact .inl hslot
    | some name =>
      obtain ⟨m, hm, hresults⟩ := remember_results (front ++ [.tool tool result])
      have hlast : lastResult (front ++ [.tool tool result]) name = some (tool, result) := by
        unfold lastResult
        rw [List.foldl_append, List.foldl_cons, List.foldl_nil, noteResult_slot hslot, Function.update_self]
      have hbefore : front ++ [.tool tool result] <+: front ++ .tool tool result :: back :=
        ⟨back, by rw [List.append_assoc]; rfl⟩
      obtain ⟨-, hretains⟩ := hresults.held name tool result hlast
      exact (hretains.truthful_iff hslot).mp (htrue _ hbefore m hm name tool result hlast)
  · intro hwhole before hbefore m hm name tool result hlast
    obtain ⟨hslot, hretains⟩ := ((remember_results before).of_eq hm).held name tool result hlast
    have hmem := hbefore.subset (mem_of_lastResult hlast)
    exact (hretains.truthful_iff hslot).mpr (hwhole tool result hmem)

/-- A long result of `run_process` is cut, and is still called raw. -/
theorem run_process_cut : ¬ ∀ m,
    remember [.tool (ascii "run_process") (List.replicate 513 97)] = .ok m →
      Truthful (m.slot .execution) (List.replicate 513 97) := by
  intro htrue
  have hslot : toolKindSlot (ascii "run_process") = some .execution := by decide +kernel
  obtain ⟨m, hm, hresults⟩ := remember_results [.tool (ascii "run_process") (List.replicate 513 97)]
  have hlast : lastResult [.tool (ascii "run_process") (List.replicate 513 97)] .execution =
      some (ascii "run_process", List.replicate 513 97) := by
    unfold lastResult
    rw [List.foldl_cons, List.foldl_nil, noteResult_slot hslot, Function.update_self]
  obtain ⟨-, hretains⟩ := hresults.held _ _ _ hlast
  rcases (hretains.truthful_iff hslot).mp (htrue m hm) with hnone | ⟨-, htool⟩ | ⟨-, hlen⟩
  · rw [hslot] at hnone
    cases hnone
  · revert htool
    decide +kernel
  · have hself : trimLines (List.replicate 513 97) = List.replicate 513 97 := by
      apply List.rdropWhile_eq_self_iff.mpr
      intro hne
      rw [List.getLast_replicate]
      decide
    rw [hself, List.length_replicate] at hlen
    exact absurd hlen (by decide)

end Run

end MiniAgentOS.Agent
