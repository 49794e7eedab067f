import MiniAgentOS.Agent.Prompt
import MiniAgentOS.Text.Cut

/-! The cut of the prompt to what the model takes. It leaves the front of the prompt and drops the newest part of
the conversation. -/
namespace MiniAgentOS.Agent
open Checked Session

section Lengths

/-- At most `n` bytes are added. -/
def Adds (n : ℕ) (prompt prompt' : Bytes) : Prop := prompt'.length ≤ prompt.length + n

variable {prompt prompt' prompt'' : Bytes} {n k : ℕ}

theorem Adds.trans (h : Adds n prompt prompt') (h' : Adds k prompt' prompt'') : Adds (n + k) prompt prompt'' := by
  unfold Adds at *
  omega

theorem Adds.mono (h : Adds n prompt prompt') (hle : n ≤ k) : Adds k prompt prompt' := by
  unfold Adds at *
  omega

theorem promptAppend_adds (prompt bytes : Bytes) : Adds bytes.length prompt (promptAppend prompt bytes) := by
  unfold Adds promptAppend
  rw [List.length_append, List.length_take]
  omega

theorem header_adds (prompt : Bytes) (title : String) :
    Adds ((ascii title).length + 2) prompt (appendPromptSectionHeader prompt title) :=
  (promptAppend_adds _ _).trans (promptAppend_adds _ (ascii ":\n"))

theorem bounded_adds (prompt src : Bytes) {limit : ℕ} {empty : String} (hempty : (ascii empty).length ≤ limit) :
    Adds (limit + 2) prompt (appendBoundedPromptBytes prompt src limit empty) := by
  have hend : (ascii "\n\n").length = 2 := rfl
  unfold appendBoundedPromptBytes
  dsimp only
  split_ifs
  · have hshort : Adds limit prompt (promptAppend prompt (ascii empty)) :=
      (promptAppend_adds prompt (ascii empty)).mono hempty
    exact hshort.trans (promptAppend_adds _ _)
  · have htake := copyUtf8Prefix_length_le (min (prompt.length + limit) m4PromptBufLimit - prompt.length) src
    have hlong : Adds limit prompt (prompt ++ copyUtf8Prefix
        (min (prompt.length + limit) m4PromptBufLimit - prompt.length) src) := by
      unfold Adds
      rw [List.length_append]
      omega
    exact hlong.trans (promptAppend_adds _ _)

theorem requirement_adds (shown : Bool) (title : String) (text : Bytes) {limit : ℕ}
    (hlimit : (ascii "(none)").length ≤ limit) (prompt : Bytes) :
    Adds ((ascii title).length + 2 + (limit + 2)) prompt (appendRequirement shown title text limit prompt) := by
  unfold appendRequirement
  split_ifs
  · exact (header_adds _ _).trans (bounded_adds _ _ hlimit)
  · exact Nat.le_add_right _ _

theorem section_adds (title : String) {limit : ℕ} {write : ℕ → Bytes} (hlimit : 7 ≤ limit)
    (hwrite : ∀ room ≤ limit, (write room).length ≤ limit) (prompt : Bytes) :
    Adds ((ascii title).length + 2 + (limit + 2)) prompt (appendSection title limit write prompt) := by
  have hheader := header_adds prompt title
  have hend : (ascii "\n\n").length = 2 := rfl
  have hempty : (ascii "(empty)\n\n").length = 9 := rfl
  unfold appendSection
  dsimp only
  split_ifs
  · have hshort := promptAppend_adds (appendPromptSectionHeader prompt title) (ascii "(empty)\n\n")
    unfold Adds at *
    omega
  · apply hheader.trans
    have hroom := hwrite (min ((appendPromptSectionHeader prompt title).length + limit) m4PromptBufLimit -
      (appendPromptSectionHeader prompt title).length) (by omega)
    have hlong := promptAppend_adds (appendPromptSectionHeader prompt title ++ write
      (min ((appendPromptSectionHeader prompt title).length + limit) m4PromptBufLimit -
        (appendPromptSectionHeader prompt title).length)) (ascii "\n\n")
    unfold Adds at *
    rw [List.length_append] at hlong
    omega

theorem slots_length_le (names : List SlotId) (budget : ℕ) (m : Memory) (room : ℕ) :
    (appendSlotsTo room [] names budget m).length ≤ budget := by
  obtain ⟨text, htext, hlength, -⟩ := appendSlotsTo_within room [] names budget m
  rw [htext, List.nil_append]
  exact hlength

theorem stateSnapshot_length_le (state : SessionState) (room : ℕ) : (stateSnapshot state room).length ≤ room := by
  rw [stateSnapshot, fillBuffer_eq, List.length_take]
  exact Nat.min_le_left _ _

/-- The sections in front of the conversation. -/
theorem promptSections_length_le (c : PromptContext) (recovery : Bool) : (promptSections c recovery).length ≤ 8050 := by
  obtain ⟨n, hadds, hn⟩ : ∃ n, Adds n [] (promptSections c recovery) ∧ n ≤ 8050 := by
    refine ⟨_, ((((((((((((((header_adds [] "Current request").trans
      (bounded_adds _ c.goal (by decide))).trans
      (requirement_adds _ _ _ (by decide) _)).trans
      (requirement_adds _ _ _ (by decide) _)).trans
      (header_adds _ _)).trans
      (bounded_adds _ _ (by decide))).trans
      (requirement_adds _ _ _ (by decide) _)).trans
      (requirement_adds _ _ _ (by decide) _)).trans
      (requirement_adds _ _ _ (by decide) _)).trans
      (requirement_adds _ _ _ (by decide) _)).trans
      (section_adds _ (by decide) (fun room _ => slots_length_le _ _ _ room) _)).trans
      (section_adds _ (by decide) (fun room _ => slots_length_le _ _ _ room) _)).trans
      (section_adds _ (by decide) (fun room _ => slots_length_le _ _ _ room) _)).trans
      (section_adds _ (by decide) (fun room hroom => (stateSnapshot_length_le _ room).trans hroom) _)), ?_⟩
    decide
  unfold Adds at hadds
  rw [List.length_nil] at hadds
  omega

end Lengths

section Cut

variable {c : PromptContext} {recovery : Bool}

/-- Everything in front of the conversation. -/
def promptFront (c : PromptContext) (recovery : Bool) : Bytes := promptSections c recovery ++ recentConversationHeader

/-- The newest part of the history that is retained for the prompt. -/
def conversation (c : PromptContext) : Bytes :=
  conversationSection (utf8SafeSuffix m4RecentConversationLimit (excludeCurrentUser c.goal c.history))

/-- A prompt that is too long still has all its sections and ends with the newest part of the conversation. -/
def KeepsNewest (c : PromptContext) : Prop :=
  ∀ recovery prompt, latestToolResultRequiresExecutionRecovery c = .ok recovery → buildM4Prompt c = .ok prompt →
    m4ModelInputLimit < (promptFront c recovery ++ conversation c).length →
      ∃ newest, newest ≠ [] ∧ newest <:+ conversation c ∧ prompt = promptFront c recovery ++ newest

/-- What the cut leaves of the conversation. -/
def leftConversation (c : PromptContext) (recovery : Bool) : Bytes :=
  copyUtf8Prefix (m4ModelInputLimit - (promptFront c recovery).length) (conversation c)

/-- The front is well-formed, and what is left of the conversation happens to be its end too. -/
def EndsAlike (c : PromptContext) (recovery : Bool) : Prop :=
  Utf8 (promptFront c recovery) ∧ leftConversation c recovery ≠ [] ∧ leftConversation c recovery <:+ conversation c

theorem promptFront_length_le (c : PromptContext) (recovery : Bool) : (promptFront c recovery).length ≤ 8071 := by
  have hsections := promptSections_length_le c recovery
  have hheader : recentConversationHeader.length = 21 := rfl
  rw [promptFront, List.length_append]
  omega

/-- The prompt is the start of its sections and the conversation. -/
theorem promptWithHistory_cut (c : PromptContext) (recovery : Bool) :
    promptWithHistory (promptSections c recovery) c.goal c.history =
      if m4ModelInputLimit < (promptFront c recovery ++ conversation c).length then
        copyUtf8Prefix m4ModelInputLimit (promptFront c recovery ++ conversation c)
      else promptFront c recovery ++ conversation c := by
  have hfront := promptFront_length_le c recovery
  have hsuffix := utf8SafeSuffix_length_le m4RecentConversationLimit (excludeCurrentUser c.goal c.history)
  have hsection := conversationSection_length_le
    (utf8SafeSuffix m4RecentConversationLimit (excludeCurrentUser c.goal c.history))
  have hheader : promptAppend (promptSections c recovery) recentConversationHeader = promptFront c recovery := by
    apply promptAppend_eq
    unfold promptFront at hfront
    rw [List.length_append] at hfront
    unfold m4PromptBufLimit
    omega
  have hroom : min ((promptFront c recovery).length + m4RecentConversationLimit) m4PromptBufLimit -
      (promptFront c recovery).length = m4RecentConversationLimit := by
    unfold m4RecentConversationLimit m4PromptBufLimit
    omega
  have hwhole : promptAppend (promptFront c recovery) (conversation c) = promptFront c recovery ++ conversation c := by
    apply promptAppend_eq
    unfold conversation m4PromptBufLimit
    unfold m4RecentConversationLimit at hsuffix hsection ⊢
    omega
  have hrecent : historySuffixExcludingCurrentUser c.goal c.history m4RecentConversationLimit m4RecentConversationLimit =
      utf8SafeSuffix m4RecentConversationLimit (excludeCurrentUser c.goal c.history) :=
    List.take_of_length_le hsuffix
  unfold promptWithHistory
  dsimp only
  rw [hheader, hroom, hrecent]
  change (if m4ModelInputLimit < (promptAppend (promptFront c recovery) (conversation c)).length then
    copyUtf8Prefix m4ModelInputLimit (promptAppend (promptFront c recovery) (conversation c))
      else promptAppend (promptFront c recovery) (conversation c)) = _
  rw [hwhole]

theorem buildM4Prompt_eq (h : latestToolResultRequiresExecutionRecovery c = .ok recovery) :
    buildM4Prompt c = .ok (promptWithHistory (promptSections c recovery) c.goal c.history) := by
  rw [buildM4Prompt, h, ok_bind]
  rfl

/-- The front ends with a line end. -/
theorem promptFront_line (c : PromptContext) (recovery : Bool) : ∃ lines, promptFront c recovery = lines ++ [lf] :=
  ⟨promptSections c recovery ++ ascii "Recent conversation:", by rw [List.append_assoc]; rfl⟩

/-- The newest part of the conversation is kept exactly when the prompt is short enough, or when its front is
well-formed and what is left of the conversation is its end as well. -/
theorem keepsNewest_iff (c : PromptContext) : KeepsNewest c ↔
    ∃ recovery, latestToolResultRequiresExecutionRecovery c = .ok recovery ∧
      ((promptFront c recovery ++ conversation c).length ≤ m4ModelInputLimit ∨ EndsAlike c recovery) := by
  obtain ⟨recovery, hrecovery, -⟩ := latestToolResultRequiresExecutionRecovery_returns c
  have hprompt := buildM4Prompt_eq hrecovery
  rw [promptWithHistory_cut] at hprompt
  constructor
  · intro h
    refine ⟨recovery, hrecovery, ?_⟩
    by_contra hneither
    obtain ⟨hlong, halike⟩ := not_or.mp hneither
    rw [Nat.not_le] at hlong
    rw [if_pos hlong] at hprompt
    obtain ⟨newest, hne, hsuffix, hcut⟩ := h recovery _ hrecovery hprompt hlong
    have hvalid := copyUtf8Prefix_utf8 m4ModelInputLimit (promptFront c recovery ++ conversation c)
    obtain ⟨lines, hlines⟩ := promptFront_line c recovery
    rw [hcut, hlines, List.append_assoc, List.singleton_append] at hvalid
    have hfront : Utf8 (promptFront c recovery) := by
      rw [hlines]
      exact (hvalid.split_low (by decide)).1
    have hlength := promptFront_length_le c recovery
    rw [copyUtf8Prefix_behind hfront (by unfold m4ModelInputLimit; omega)] at hcut
    have hleft : leftConversation c recovery = newest := List.append_cancel_left hcut
    exact halike ⟨hfront, by rwa [hleft], by rwa [hleft]⟩
  · rintro ⟨recovery', hrecovery', h⟩ other prompt hother hbuild hlong
    obtain rfl : recovery = recovery' := Except.ok.inj (hrecovery.symm.trans hrecovery')
    obtain rfl : recovery = other := Except.ok.inj (hrecovery.symm.trans hother)
    rcases h with hshort | ⟨hfront, hne, hsuffix⟩
    · omega
    · refine ⟨leftConversation c recovery, hne, hsuffix, ?_⟩
      have hlength := promptFront_length_le c recovery
      rw [if_pos hlong, copyUtf8Prefix_behind hfront (by unfold m4ModelInputLimit; omega), hbuild] at hprompt
      exact Except.ok.inj hprompt

end Cut

section Long

/-- At least `n` bytes are in the buffer, as far as it takes them. -/
def Reaches (n : ℕ) (prompt : Bytes) : Prop := min n m4PromptBufLimit ≤ prompt.length

variable {prompt : Bytes} {n : ℕ}

theorem Reaches.append (h : Reaches n prompt) (bytes : Bytes) :
    Reaches (n + bytes.length) (promptAppend prompt bytes) := by
  unfold Reaches promptAppend at *
  rw [List.length_append, List.length_take]
  omega

theorem Reaches.header (h : Reaches n prompt) (title : String) :
    Reaches (n + ((ascii title).length + 2)) (appendPromptSectionHeader prompt title) := by
  have hcolon : (ascii ":\n").length = 2 := rfl
  have hheader := (h.append (ascii title)).append (ascii ":\n")
  rwa [hcolon, Nat.add_assoc] at hheader

/-- Of a text of low bytes as much is there as the limit allows. -/
theorem Reaches.bounded {src : Bytes} (h : Reaches n prompt) (hsrc : ∀ b ∈ src, b ≤ 0x7f) (limit : ℕ)
    (empty : String) :
    Reaches (n + (min limit src.length + 2)) (appendBoundedPromptBytes prompt src limit empty) := by
  have hend : (ascii "\n\n").length = 2 := rfl
  unfold appendBoundedPromptBytes
  dsimp only
  rw [copyUtf8Prefix_low hsrc]
  have hlength : (src.take (min (prompt.length + limit) m4PromptBufLimit - prompt.length)).length =
      min (min (prompt.length + limit) m4PromptBufLimit - prompt.length) src.length := List.length_take
  split_ifs with hnone
  · rw [hnone, List.length_nil] at hlength
    have hshort : Reaches (n + min limit src.length) (promptAppend prompt (ascii empty)) := by
      have hfront := (promptAppend_front prompt (ascii empty)).length_le
      unfold Reaches at *
      omega
    have hmore := hshort.append (ascii "\n\n")
    rwa [hend, Nat.add_assoc] at hmore
  · have hlong : Reaches (n + min limit src.length)
        (prompt ++ src.take (min (prompt.length + limit) m4PromptBufLimit - prompt.length)) := by
      unfold Reaches at *
      rw [List.length_append, hlength]
      omega
    have hmore := hlong.append (ascii "\n\n")
    rwa [hend, Nat.add_assoc] at hmore

theorem Reaches.requirement {text : Bytes} {shown : Bool} (h : Reaches n prompt) (hshown : shown = true) (title : String)
    (htext : ∀ b ∈ text, b ≤ 0x7f) (limit : ℕ) :
    Reaches (n + ((ascii title).length + 2) + (min limit text.length + 2))
      (appendRequirement shown title text limit prompt) := by
  rw [appendRequirement, if_pos hshown]
  exact (h.header title).bounded htext limit "(none)"

theorem Reaches.skip (h : Reaches n prompt) (shown : Bool) (title : String) (text : Bytes) (limit : ℕ) :
    Reaches n (appendRequirement shown title text limit prompt) :=
  Nat.le_trans h (appendRequirement_front shown title text limit prompt).length_le

/-- A section that has `k` bytes wherever there is room for them. -/
theorem Reaches.filled {write : ℕ → Bytes} {k : ℕ} (h : Reaches n prompt) (limit : ℕ) (title : String) (hk : k ≤ limit)
    (hwrite : ∀ room, min room k ≤ (write room).length) :
    Reaches (n + ((ascii title).length + 2) + (k + 2)) (appendSection title limit write prompt) := by
  have hheader := h.header title
  unfold appendSection
  dsimp only
  generalize appendPromptSectionHeader prompt title = out at *
  generalize n + ((ascii title).length + 2) = m at *
  have hroom := hwrite (min (out.length + limit) m4PromptBufLimit - out.length)
  split_ifs with hnone
  · rw [hnone, List.length_nil] at hroom
    have hempty : (ascii "(empty)\n\n").length = 9 := rfl
    have hfront := (promptAppend_front out (ascii "(empty)\n\n")).length_le
    have hmore := hheader.append (ascii "(empty)\n\n")
    rw [hempty] at hmore
    clear hempty
    unfold Reaches at *
    omega
  · have hend : (ascii "\n\n").length = 2 := rfl
    have hlong : Reaches (m + k)
        (out ++ write (min (out.length + limit) m4PromptBufLimit - out.length)) := by
      unfold Reaches at *
      rw [List.length_append]
      omega
    have hmore := hlong.append (ascii "\n\n")
    rwa [hend, Nat.add_assoc] at hmore

end Long

section Failing

variable {front back pat : Bytes} {buf : Bytes} {room : ℕ}

/-- Bytes below 128. -/
def Low (text : Bytes) : Prop := ∀ b ∈ text, b ≤ 0x7f

theorem Low.append {text more : Bytes} (h : Low text) (hmore : Low more) : Low (text ++ more) := by
  intro b hb
  rcases List.mem_append.mp hb with hleft | hright
  · exact h b hleft
  · exact hmore b hright

theorem containsAsciiPhrase_between (hpat : pat ≠ []) (front back : Bytes) :
    containsAsciiPhrase (front ++ (pat ++ back)) pat = true := by
  apply decide_eq_true
  refine ⟨hpat, List.any_eq_true.mpr ⟨pat ++ back, (List.mem_tails _ _).mpr (List.suffix_append _ _), ?_⟩⟩
  apply decide_eq_true
  rw [List.map_append]
  exact List.prefix_append _ _

theorem mentions_of {phrase : String} {phrases texts : List String} (hmem : phrase ∈ phrases)
    (h : containsAsciiPhrase buf (ascii phrase) = true) : mentions buf phrases texts = true := by
  unfold mentions
  rw [Bool.or_eq_true]
  exact .inl (List.any_eq_true.mpr ⟨phrase, hmem, h⟩)

/-- A slot that is in use shows at least its value. -/
theorem stateSnapshot_room {state : SessionState} {slot : SessionSlot} (hslot : slot ∈ state.slots) (hkey : slot.key ≠ [])
    (room : ℕ) : min room slot.value.length ≤ (stateSnapshot state room).length := by
  rw [stateSnapshot, fillBuffer_eq, List.length_take]
  have hmem : slot.value ∈ state.slots.flatMap fun slot =>
      if slot.key = [] then [] else [ascii "State[", slot.key, ascii "] = ", slot.value, [lf]] := by
    apply List.mem_flatMap.mpr
    refine ⟨slot, hslot, ?_⟩
    rw [if_neg hkey]
    simp
  have hle := (List.sublist_flatten_of_mem hmem).length_le
  omega

theorem appendSlotsFrom_front (capacity budget start : ℕ) (m : Memory) (names : List SlotId) (out : Bytes) :
    out <+: appendSlotsFrom capacity budget start m out names := by
  induction names generalizing out with
  | nil => exact List.prefix_rfl
  | cons name names ih =>
    rw [appendSlotsFrom]
    split_ifs
    · dsimp only
      refine List.IsPrefix.trans ?_ (ih _)
      split_ifs
      · exact List.prefix_append _ _
      · exact List.prefix_rfl
    · exact List.prefix_rfl

/-- The line of the first slot is there as far as there is room. -/
theorem appendSlotsFrom_first {m : Memory} {name : SlotId} {budget k : ℕ}
    (hused : (m.slot name).kind ≠ .none ∧ (m.slot name).summary ≠ [])
    (hline : Low (promptLine (m.slot name)) ∧ (promptLine (m.slot name)).length = k) (hk : 0 < k) (hbudget : k ≤ budget)
    (names : List SlotId) (room : ℕ) :
    min room k ≤ (appendSlotsFrom room budget 0 m [] (name :: names)).length := by
  obtain ⟨hlow, rfl⟩ := hline
  have hpos : ([] : Bytes).length - 0 < budget := hk.trans_le hbudget
  rw [appendSlotsFrom, if_pos hpos]
  dsimp only
  rw [if_pos hused]
  refine le_trans ?_ (appendSlotsFrom_front room budget 0 m names _).length_le
  have hall : min (budget - (([] : Bytes).length - 0)) (promptLine (m.slot name)).length =
      (promptLine (m.slot name)).length := Nat.min_eq_right hbudget
  rw [appendEntryPromptLine, copyUtf8Prefix_low hlow, hall, List.take_length, appendBytes, List.nil_append,
    List.length_take, List.length_nil, Nat.sub_zero]

theorem appendSlotsFrom_skip {m : Memory} {name : SlotId} {budget : ℕ} (hunused : (m.slot name).kind = .none)
    (hbudget : 0 < budget) (names : List SlotId) (room : ℕ) :
    appendSlotsFrom room budget 0 m [] (name :: names) = appendSlotsFrom room budget 0 m [] names := by
  rw [appendSlotsFrom, if_pos (show ([] : Bytes).length - 0 < budget from hbudget)]
  dsimp only
  rw [if_neg fun hused => hused.1 hunused]

def letters (n : ℕ) : Bytes := List.replicate n 97

theorem letters_length (n : ℕ) : (letters n).length = n := List.length_replicate

theorem letters_add (m n : ℕ) : letters (m + n) = letters m ++ letters n := by
  rw [letters, letters, letters, List.replicate_append_replicate]

/-- What the agent has retained after a failed run, a page and a file. -/
def retainedSlots : SlotId → MemorySlot
  | .execution =>
    { kind := .execution
      state := .compacted
      summary := ascii "Compacted failed execution result from read_process_output (exit_code=1)."
      detail := ascii "Retained exit_code=1; stdout: " ++ letters 192 ++
        (ascii "; stderr: " ++ letters 192 ++ ascii ". Full raw process output not carried forward.") }
  | .source =>
    { kind := .source
      state := .compacted
      summary := ascii "Compacted fetched source from fetch_url."
      detail := ascii "Retained excerpt: " ++ letters 192 ++ ascii ". Full fetched page content not carried forward." }
  | .workspace =>
    { kind := .workspace
      state := .compacted
      summary := ascii "Compacted workspace result from read_file."
      detail := ascii "Retained workspace excerpt from read_file: " ++ letters 192 ++
        ascii ". Full raw result not carried forward." }
  | _ => {}

theorem page_ne : ascii "page" ≠ [] := by decide

/-- A request behind a fetched page, with a full memory, a stored page and a long answer in the history. -/
def longContext : PromptContext where
  goal := ascii "run a" ++ (ascii ".py" ++ (ascii " then " ++ (ascii "read_memory" ++ letters 743)))
  tool := ascii "fetch_url"
  toolResult := ascii "Fetched URL content preview:" ++ ([lf] ++ (ascii "\"ok\":false" ++ letters 890))
  memory := { started := true, turn := 1, slot := retainedSlots }
  state := noKeys.store (ascii "page") (letters 1280) page_ne
  history := ascii "Assistant: " ++ (letters 3000 ++ [lf])

theorem low_letters (n : ℕ) : Low (letters n) := by
  intro b hb
  rw [List.eq_of_mem_replicate hb]
  decide

theorem low_map {l : List Char} (h : l.all (fun c => c.toNat ≤ 127) = true) :
    Low (l.map fun c => UInt8.ofNat c.toNat) := by
  intro b hb
  obtain ⟨c, hc, rfl⟩ := List.mem_map.mp hb
  have hle : c.toNat ≤ 127 := of_decide_eq_true (List.all_eq_true.mp h c hc)
  have hsmall : ∀ n ≤ 127, UInt8.ofNat n ≤ 0x7f := by decide
  exact hsmall _ hle

theorem low_ascii {s : String} {l : List Char} (h : s = String.ofList l) (hl : l.all (fun c => c.toNat ≤ 127) = true) :
    Low (ascii s) := by
  rw [ascii_eq h]
  exact low_map hl

/-- The characters of a text in parts. -/
theorem textOf_eq {parts : List String} {chars : List (List Char)}
    (h : List.Forall₂ (fun s l => s = String.ofList l) parts chars) :
    textOf parts = chars.flatten.map fun c => UInt8.ofNat c.toNat := by
  induction h with
  | nil => rfl
  | cons hpart _ ih =>
    have hsplit : ∀ s parts, textOf (s :: parts) = ascii s ++ textOf parts := fun s parts => by
      rw [textOf, List.map_cons, List.flatten_cons]
      rfl
    rw [hsplit, ih, ascii_eq hpart, List.flatten_cons, List.map_append]

theorem requirement_texts : (Low executionRequirement ∧ executionRequirement.length = 303) ∧
    (Low inspectionRequirement ∧ inspectionRequirement.length = 294) ∧
    (Low completionRequirement ∧ completionRequirement.length = 386) ∧
    (Low recoveryRequirement ∧ recoveryRequirement.length = 282) := by
  have hexecution : executionRequirement = _ := textOf_eq (.cons rfl (.cons rfl (.cons rfl (.cons rfl .nil))))
  have hinspection : inspectionRequirement = _ := textOf_eq (.cons rfl (.cons rfl (.cons rfl (.cons rfl .nil))))
  have hcompletion : completionRequirement = _ :=
    textOf_eq (.cons rfl (.cons rfl (.cons rfl (.cons rfl (.cons rfl .nil)))))
  have hrecovery : recoveryRequirement = _ := textOf_eq (.cons rfl (.cons rfl (.cons rfl .nil)))
  rw [hexecution, hinspection, hcompletion, hrecovery]
  simp only [List.length_map]
  refine ⟨⟨low_map ?_, ?_⟩, ⟨low_map ?_, ?_⟩, ⟨low_map ?_, ?_⟩, ⟨low_map ?_, ?_⟩⟩ <;> decide +kernel

/-- The line of a slot with low texts that fit. -/
theorem promptLine_low {slot : MemorySlot} (hsummary : Low slot.summary) (hdetail : Low slot.detail)
    (hne : slot.detail ≠ []) {front : Bytes}
    (hfront : [ascii "- [", kindName slot.kind, ascii "/", stateName slot.state, ascii "] "].flatten = front)
    (hfits : front.length + slot.summary.length + 3 + slot.detail.length + 1 ≤ promptLineMax) :
    promptLine slot = front ++ slot.summary ++ ascii " | " ++ slot.detail ++ [lf] := by
  have hbar : (ascii " | ").length = 3 := rfl
  have hone : ([lf] : Bytes).length = 1 := rfl
  have hutf8 : ∀ {out text : Bytes}, Low text → out.length + text.length ≤ promptLineMax →
      appendUtf8 promptLineMax out text = out ++ text := by
    intro out text hlow hroom
    rw [appendUtf8, copyUtf8Prefix_low hlow, List.take_of_length_le (by omega)]
  have hmid : appendBytes promptLineMax (front ++ slot.summary) (ascii " | ") = front ++ slot.summary ++ ascii " | " := by
    apply appendBytes_eq
    rw [List.length_append]
    omega
  have hline : appendBytes promptLineMax (front ++ slot.summary ++ ascii " | " ++ slot.detail) [lf] =
      front ++ slot.summary ++ ascii " | " ++ slot.detail ++ [lf] := by
    apply appendBytes_eq
    simp only [List.length_append]
    omega
  unfold promptLine
  dsimp only
  rw [fillBuffer_eq, hfront, List.take_of_length_le (by omega), if_neg hne, hutf8 hsummary (by omega), hmid,
    hutf8 hdetail (by simp only [List.length_append]; omega), hline]

/-- A detail of the form that the compaction gives it. -/
theorem detail_low {s t : String} {l k : List Char} (hs : s = String.ofList l) (ht : t = String.ofList k)
    (hl : l.all (fun c => c.toNat ≤ 127) = true) (hk : k.all (fun c => c.toNat ≤ 127) = true) (n : ℕ) :
    Low (ascii s ++ letters n ++ ascii t) ∧ (ascii s ++ letters n ++ ascii t).length = l.length + n + k.length := by
  refine ⟨((low_ascii hs hl).append (low_letters n)).append (low_ascii ht hk), ?_⟩
  rw [List.length_append, List.length_append, ascii_length hs, ascii_length ht, letters_length]

theorem promptLine_text {slot : MemorySlot} {f s : String} {l k : List Char} {n : ℕ} (hf : f = String.ofList l)
    (hs : s = String.ofList k) (hl : l.all (fun c => c.toNat ≤ 127) = true) (hk : k.all (fun c => c.toNat ≤ 127) = true)
    (hfront : [ascii "- [", kindName slot.kind, ascii "/", stateName slot.state, ascii "] "].flatten = ascii f)
    (hsummary : slot.summary = ascii s) (hdetail : Low slot.detail ∧ slot.detail.length = n) (hn : 0 < n)
    (hfits : l.length + k.length + 3 + n + 1 ≤ promptLineMax) :
    Low (promptLine slot) ∧ (promptLine slot).length = l.length + k.length + 3 + n + 1 := by
  obtain ⟨hlow, hlength⟩ := hdetail
  have hne : slot.detail ≠ [] := by
    intro hnil
    rw [hnil, List.length_nil] at hlength
    omega
  have hbar : (ascii " | ").length = 3 := rfl
  have hsum : Low slot.summary := by
    rw [hsummary]
    exact low_ascii hs hk
  rw [promptLine_low hsum hlow hne hfront (by rw [ascii_length hf, hsummary, ascii_length hs, hlength]; exact hfits)]
  constructor
  · exact ((((low_ascii hf hl).append hsum).append (low_ascii rfl (by decide))).append hlow).append (low_map (l := [Char.ofNat 10]) (by decide))
  · simp only [List.length_append, List.length_singleton]
    rw [ascii_length hf, hsummary, ascii_length hs, hlength, hbar]

theorem retainedSlots_lines : (Low (promptLine (retainedSlots .execution)) ∧
      (promptLine (retainedSlots .execution)).length = 571) ∧
    (Low (promptLine (retainedSlots .source)) ∧ (promptLine (retainedSlots .source)).length = 323) ∧
    (Low (promptLine (retainedSlots .workspace)) ∧ (promptLine (retainedSlots .workspace)).length = 343) := by
  have hstderr : Low (ascii "; stderr: " ++ letters 192 ++ ascii ". Full raw process output not carried forward.") ∧
      _ = 10 + 192 + 46 := detail_low rfl rfl (by decide) (by decide) 192
  have hstdout : Low (ascii "Retained exit_code=1; stdout: " ++ letters 192) ∧
      (ascii "Retained exit_code=1; stdout: " ++ letters 192).length = 30 + 192 := by
    refine ⟨(low_ascii rfl (by decide)).append (low_letters 192), ?_⟩
    rw [List.length_append, ascii_length rfl, letters_length]
    rfl
  refine ⟨?_, ?_, ?_⟩
  · have hdetail : Low (retainedSlots .execution).detail ∧ (retainedSlots .execution).detail.length = 470 := by
      refine ⟨hstdout.1.append hstderr.1, ?_⟩
      change (_ ++ _ : Bytes).length = 470
      rw [List.length_append, hstdout.2, hstderr.2]
    exact promptLine_text (f := "- [execution/compacted] ")
      (s := "Compacted failed execution result from read_process_output (exit_code=1).") rfl rfl (by decide)
      (by decide) rfl rfl hdetail (by decide) (by decide)
  · have hdetail : Low (retainedSlots .source).detail ∧ (retainedSlots .source).detail.length = 18 + 192 + 48 :=
      detail_low (s := "Retained excerpt: ") (t := ". Full fetched page content not carried forward.") rfl rfl
        (by decide) (by decide) 192
    exact promptLine_text (f := "- [source/compacted] ") (s := "Compacted fetched source from fetch_url.") rfl rfl
      (by decide) (by decide) rfl rfl hdetail (by decide) (by decide)
  · have hdetail : Low (retainedSlots .workspace).detail ∧ (retainedSlots .workspace).detail.length = 43 + 192 + 38 :=
      detail_low (s := "Retained workspace excerpt from read_file: ")
        (t := ". Full raw result not carried forward.") rfl rfl (by decide) (by decide) 192
    exact promptLine_text (f := "- [workspace/compacted] ") (s := "Compacted workspace result from read_file.") rfl rfl
      (by decide) (by decide) rfl rfl hdetail (by decide) (by decide)

theorem longContext_goal : Low longContext.goal ∧ longContext.goal.length = 768 := by
  constructor
  · refine Low.append (low_ascii rfl (by decide)) (Low.append (low_ascii rfl (by decide)) ?_)
    exact Low.append (low_ascii rfl (by decide)) (Low.append (low_ascii rfl (by decide)) (low_letters _))
  · have hletters := letters_length 743
    change (_ ++ (_ ++ (_ ++ (_ ++ _))) : Bytes).length = 768
    rw [List.length_append, List.length_append, List.length_append, List.length_append, hletters]
    rfl

theorem longContext_result : Low longContext.toolResult ∧ longContext.toolResult.length = 929 := by
  constructor
  · refine Low.append (low_ascii rfl (by decide)) (Low.append (low_map (l := [Char.ofNat 10]) (by decide)) ?_)
    exact Low.append (low_ascii rfl (by decide)) (low_letters _)
  · have hletters := letters_length 890
    change (_ ++ (_ ++ (_ ++ _)) : Bytes).length = 929
    rw [List.length_append, List.length_append, List.length_append, hletters]
    rfl

theorem longContext_result_ne : longContext.toolResult ≠ [] := by
  intro hnil
  have hlength := longContext_result.2
  rw [hnil] at hlength
  cases hlength

/-- The sections that the request and the page ask for. -/
theorem longContext_shown : requestAuthorizesBoundedPythonExecution longContext.goal = true ∧
    (requestRequiresExplicitMemoryInspection longContext.goal && !lastToolWas longContext "memory_status" &&
      !lastToolWas longContext "list_memory" && !lastToolWas longContext "read_memory") = true ∧
    latestToolResultIsFetchPreview longContext = true := by
  have hrun : containsAsciiPhrase longContext.goal (ascii "run") = true :=
    containsAsciiPhrase_between (by decide) [] (ascii " a" ++ (ascii ".py" ++ (ascii " then " ++
      (ascii "read_memory" ++ letters 743))))
  have hpy : containsAsciiPhrase longContext.goal (ascii ".py") = true :=
    containsAsciiPhrase_between (by decide) (ascii "run a") _
  have hmemory : containsAsciiPhrase longContext.goal (ascii "read_memory") = true :=
    containsAsciiPhrase_between (by decide) (ascii "run a.py then ") (letters 743)
  refine ⟨?_, ?_, ?_⟩
  · rw [requestAuthorizesBoundedPythonExecution, Bool.and_eq_true]
    exact ⟨mentions_of (by simp) hpy, mentions_of (by simp) hrun⟩
  · have hmentions : requestRequiresExplicitMemoryInspection longContext.goal = true := mentions_of (by simp) hmemory
    rw [hmentions]
    decide
  · have hpreview : startsWithTool longContext.toolResult (ascii "Fetched URL content preview:") = true :=
      decide_eq_true (List.prefix_append _ _)
    rw [latestToolResultIsFetchPreview, hpreview, Bool.and_true]
    exact decide_eq_true longContext_result_ne

theorem longContext_recovery : latestToolResultRequiresExecutionRecovery longContext = .ok true := by
  have hfailed : containsAsciiPhrase longContext.toolResult (ascii "\"ok\":false") = true :=
    containsAsciiPhrase_between (by decide) (ascii "Fetched URL content preview:" ++ [lf]) (letters 890)
  have hreturns : Returns (jsonExtractU64 longContext.toolResult longContext.toolResult.length (ascii "exit_code"))
      fun _ => True := jsonExtractU64_returns le_rfl
  obtain ⟨code, hcode, -⟩ := hreturns
  rw [latestToolResultRequiresExecutionRecovery, if_neg longContext_result_ne, hcode, ok_bind, hfailed, Bool.or_true]
  rfl

theorem longContext_slot : ∃ slot ∈ longContext.state.slots, slot.key ≠ [] ∧ slot.value.length = 1280 := by
  refine ⟨written (ascii "page") (letters 1280), List.mem_set (writeSlot_lt _ _) _, by decide, ?_⟩
  have hvalue : ∀ key value, (written key value).value = copyUtf8Prefix sessionStateValueMax value := fun _ _ => rfl
  rw [hvalue, copyUtf8Prefix_low (low_letters 1280), List.length_take, letters_length]
  decide

/-- The prompt of the context is longer than the model takes. -/
theorem longContext_sections : 5713 ≤ (promptSections longContext true).length := by
  obtain ⟨hgoal, hgoalLength⟩ := longContext_goal
  obtain ⟨hresult, hresultLength⟩ := longContext_result
  obtain ⟨hrun, hmemory, hpreview⟩ := longContext_shown
  obtain ⟨⟨hexecution, hexecutionLength⟩, ⟨hinspection, hinspectionLength⟩, ⟨hcompletion, hcompletionLength⟩,
    hrecovery, hrecoveryLength⟩ := requirement_texts
  obtain ⟨hworking, hsource, hworkspace⟩ := retainedSlots_lines
  obtain ⟨slot, hslot, hkey, hvalue⟩ := longContext_slot
  have hlisted : ∀ name, name = .execution ∨ name = .source ∨ name = .workspace →
      (retainedSlots name).kind ≠ .none ∧ (retainedSlots name).summary ≠ [] := by
    rintro name (rfl | rfl | rfl) <;> decide
  have hstart : Reaches 0 [] := Nat.zero_le _
  have hfirst := (hstart.header "Current request").bounded hgoal m4CurrentRequestLimit "(empty)"
  have hrequired := (hfirst.requirement hrun "Execution requirement" hexecution 384).skip
    (requestPrefersLiveWebResearch longContext.goal && !requestLooksLikeReferenceFollowup longContext.goal)
    "Timely research requirement" timelyRequirement 512
  have hlatest := (hrequired.header "Latest tool result").bounded hresult m4LatestToolResultLimit "(none)"
  have hinspected := (hlatest.requirement hmemory "Memory inspection requirement" hinspection 384).skip
    (latestToolResultHasNonemptySearchResults longContext) "Research next-step requirement" nextStepRequirement 384
  have hcompleted := hinspected.requirement hpreview "Research completion requirement" hcompletion 448
  have hrecovered := hcompleted.requirement (rfl : true = true) "Execution recovery requirement" hrecovery 384
  have hworked : ∀ room, min room 571 ≤ (appendWorkingMemoryTo room [] m4WorkingMemoryLimit longContext.memory).length := by
    intro room
    unfold appendWorkingMemoryTo appendSlotsTo
    rw [List.length_nil, appendSlotsFrom_skip rfl (by decide)]
    exact appendSlotsFrom_first (hlisted .execution (by simp)) hworking (by decide) (by decide) _ room
  have hknown : ∀ room, min room 323 ≤ (appendKnownSourcesTo room [] m4KnownSourcesLimit longContext.memory).length := by
    intro room
    unfold appendKnownSourcesTo appendSlotsTo
    rw [List.length_nil]
    exact appendSlotsFrom_first (hlisted .source (by simp)) hsource (by decide) (by decide) _ room
  have hfiles : ∀ room, min room 343 ≤ (appendWorkspaceMemoryTo room [] m4WorkspaceMemoryLimit longContext.memory).length := by
    intro room
    unfold appendWorkspaceMemoryTo appendSlotsTo
    rw [List.length_nil]
    exact appendSlotsFrom_first (hlisted .workspace (by simp)) hworkspace (by decide) (by decide) _ room
  have hstate : ∀ room, min room 1280 ≤ (stateSnapshot longContext.state room).length := by
    intro room
    rw [← hvalue]
    exact stateSnapshot_room hslot hkey room
  have hall := (((hrecovered.filled m4WorkingMemoryLimit "Working memory" (by decide) hworked).filled
    m4KnownSourcesLimit "Known sources" (by decide) hknown).filled m4WorkspaceMemoryLimit "Workspace memory" (by decide)
    hfiles).filled m4StateSnapshotLimit "Session state" (by decide) hstate
  rw [hgoalLength, hresultLength, hexecutionLength, hinspectionLength, hcompletionLength, hrecoveryLength] at hall
  refine le_trans ?_ hall
  decide

/-- Of a long line at the end of the history its end is shown. -/
theorem history_line {front goal : Bytes} (m n : ℕ) (hfront : front ≠ []) (hgoal : goal.length + 7 ≤ n)
    (hn : n + 1 = m4RecentConversationLimit) :
    conversationSection (utf8SafeSuffix m4RecentConversationLimit
      (excludeCurrentUser goal (front ++ letters m ++ (letters n ++ [lf])))) = letters n ++ [lf] := by
  have hline : (letters n ++ [lf]).length = m4RecentConversationLimit := by
    rw [List.length_append, letters_length, List.length_singleton, hn]
  have hkept : excludeCurrentUser goal (front ++ letters m ++ (letters n ++ [lf])) =
      front ++ letters m ++ (letters n ++ [lf]) := by
    rw [excludeCurrentUser_eq, if_neg]
    intro hsuffix
    have hbytes : (Turn.user goal).bytes = 85 :: (ascii "ser: " ++ goal ++ [lf]) := by
      simp [Turn.bytes, Turn.parts, ascii]
    have hlength : (Turn.user goal).bytes.length ≤ (letters n ++ [lf]).length := by
      rw [hbytes, hline, List.length_cons, List.length_append, List.length_append, ascii_length rfl]
      simp only [List.length_cons, List.length_nil]
      omega
    have hend := List.suffix_of_suffix_length_le hsuffix (List.suffix_append (front ++ letters m) _) hlength
    have hmem : (85 : UInt8) ∈ letters n ++ [lf] := hend.subset (by rw [hbytes]; exact List.mem_cons_self)
    rcases List.mem_append.mp hmem with hletter | hlf
    · exact absurd (List.eq_of_mem_replicate hletter) (by decide)
    · exact absurd (List.mem_singleton.mp hlf) (by decide)
  have hpos : 0 < front.length := List.length_pos_iff.mpr hfront
  have hlong : ¬ (front ++ letters m ++ (letters n ++ [lf])).length ≤ m4RecentConversationLimit := by
    rw [List.length_append, hline, List.length_append]
    omega
  have hdrop : (front ++ letters m ++ (letters n ++ [lf])).length - m4RecentConversationLimit =
      (front ++ letters m).length := by
    rw [List.length_append, hline, Nat.add_sub_cancel]
  obtain ⟨k, rfl⟩ : ∃ k, n = k + 1 := ⟨n - 1, by omega⟩
  have hfirst : letters (k + 1) = 97 :: letters k := rfl
  rw [hkept, utf8SafeSuffix, if_neg hlong, hdrop, List.drop_left, hfirst, List.cons_append,
    List.dropWhile_cons_of_neg (by decide), conversationSection, if_neg (List.cons_ne_nil _ _), if_pos]
  rw [← List.cons_append, List.getLast?_append, List.getLast?_singleton]
  rfl

/-- The newest 2560 bytes of a long answer. -/
theorem longContext_conversation : conversation longContext = letters 2559 ++ [lf] := by
  have hhistory : longContext.history = ascii "Assistant: " ++ letters 441 ++ (letters 2559 ++ [lf]) := by
    have hsplit := letters_add 441 2559
    norm_num at hsplit
    have hstored : longContext.history = ascii "Assistant: " ++ (letters 3000 ++ [lf]) := rfl
    rw [hstored, hsplit, List.append_assoc, List.append_assoc]
  rw [conversation, hhistory]
  exact history_line 441 2559 (by decide) (by rw [longContext_goal.2]; decide) rfl

/-- The prompt of the context ends in the middle of the conversation. -/
theorem keepsNewest_cut : ¬ ∀ c, KeepsNewest c := by
  intro h
  obtain ⟨recovery, hrecovery, hcut⟩ := (keepsNewest_iff longContext).mp (h longContext)
  obtain rfl : true = recovery := Except.ok.inj (longContext_recovery.symm.trans hrecovery)
  have hletters := letters_length 2559
  have hfront : 5734 ≤ (promptFront longContext true).length := by
    have hsections := longContext_sections
    have hheader : recentConversationHeader.length = 21 := rfl
    rw [promptFront, List.length_append]
    omega
  rcases hcut with hshort | ⟨-, hne, hsuffix⟩
  · have hconversation : (conversation longContext).length = 2560 := by
      rw [longContext_conversation, List.length_append, hletters, List.length_singleton]
    rw [List.length_append, hconversation] at hshort
    unfold m4ModelInputLimit at hshort
    omega
  · have hprefix := copyUtf8Prefix_isPrefix (m4ModelInputLimit - (promptFront longContext true).length)
      (conversation longContext)
    have hlength := copyUtf8Prefix_length_le (m4ModelInputLimit - (promptFront longContext true).length)
      (conversation longContext)
    change leftConversation longContext true <+: _ at hprefix
    change (leftConversation longContext true).length ≤ _ at hlength
    rw [longContext_conversation] at hprefix hsuffix
    generalize leftConversation longContext true = left at *
    have hleft : left <+: letters 2559 := by
      apply List.prefix_of_prefix_length_le hprefix (List.prefix_append (letters 2559) [lf])
      unfold m4ModelInputLimit at hlength
      rw [hletters]
      omega
    obtain ⟨front, hsplit⟩ := hsuffix
    have hlast : left.getLast? = some lf := by
      have hwhole := congrArg List.getLast? hsplit
      rw [List.getLast?_append, List.getLast?_append, List.getLast?_singleton] at hwhole
      rw [List.getLast?_eq_some_getLast hne] at hwhole ⊢
      simpa using hwhole
    have hmem : lf ∈ letters 2559 := hleft.subset (List.mem_of_getLast? hlast)
    exact absurd (List.eq_of_mem_replicate hmem) (by decide)

end Failing

end MiniAgentOS.Agent
