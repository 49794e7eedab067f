import MiniAgentOS.Lib.Machine
import MiniAgentOS.Text.Utf8

/-! The history of a session: a bounded buffer that turns are appended to, and the part of it that the
model gets to see. -/
namespace MiniAgentOS.Session

def sessionHistoryMax : ℕ := 16384

/-- `history_append_bytes`. -/
def historyAppendBytes (history bytes : Bytes) : Bytes :=
  history ++ copyUtf8Prefix (sessionHistoryMax - history.length) bytes

inductive Turn where
  | user (text : Bytes)
  | tool (name result : Bytes)
  | assistant (text : Bytes)
  deriving DecidableEq, Repr

/-- What `append_user_turn`, `append_tool_result` and `append_assistant_turn` append, part by part. -/
def Turn.parts : Turn → List Bytes
  | .user text => [ascii "User: ", text, [lf]]
  | .tool name result => [ascii "Tool[", name, ascii "]: ", result, [lf]]
  | .assistant text => [ascii "Assistant: ", text, [lf]]

def Turn.bytes (turn : Turn) : Bytes := turn.parts.flatten

def appendTurn (history : Bytes) (turn : Turn) : Bytes := turn.parts.foldl historyAppendBytes history

theorem historyAppendBytes_eq {history bytes : Bytes} (hvalid : Utf8 bytes)
    (hfits : history.length + bytes.length ≤ sessionHistoryMax) :
    historyAppendBytes history bytes = history ++ bytes := by
  have hcopy : copyUtf8Prefix (sessionHistoryMax - history.length) bytes = bytes :=
    (copyUtf8Prefix_eq_iff _ _).mpr ⟨hvalid, by omega⟩
  rw [historyAppendBytes, hcopy]

/-- Parts that are texts and fit are appended as they are. -/
theorem foldl_historyAppendBytes {history : Bytes} {parts : List Bytes}
    (hvalid : ∀ part ∈ parts, Utf8 part)
    (hfits : history.length + parts.flatten.length ≤ sessionHistoryMax) :
    parts.foldl historyAppendBytes history = history ++ parts.flatten := by
  induction parts generalizing history with
  | nil => simp
  | cons part parts ih =>
    rw [List.flatten_cons, List.length_append] at hfits
    rw [List.foldl_cons, historyAppendBytes_eq (hvalid part List.mem_cons_self) (by omega),
      ih (fun other hother => hvalid other (List.mem_cons_of_mem _ hother))
        (by rw [List.length_append]; omega), List.flatten_cons, List.append_assoc]

theorem foldl_historyAppendBytes_utf8 {history : Bytes} (h : Utf8 history) (parts : List Bytes) :
    Utf8 (parts.foldl historyAppendBytes history) := by
  induction parts generalizing history with
  | nil => exact h
  | cons part parts ih => exact ih (h.append (copyUtf8Prefix_utf8 _ _))

section Prompt

def m4PromptBufLimit : ℕ := 16384

def m4ModelInputLimit : ℕ := 8192

def m4RecentConversationLimit : ℕ := 2560

/-- `copy_bytes` to the end of the prompt. -/
def promptAppend (prompt bytes : Bytes) : Bytes :=
  prompt ++ bytes.take (m4PromptBufLimit - prompt.length)

/-- The history without the turn of the current goal at its end. -/
def excludeCurrentUser (goal history : Bytes) : Bytes :=
  let expected := (ascii "User: ").length + goal.length + 1
  if expected ≤ history.length ∧
      history.drop (history.length - expected) = ascii "User: " ++ goal ++ [lf] then
    history.take (history.length - expected)
  else history

/-- `append_history_suffix_excluding_current_user_to` for a buffer with `room` bytes. -/
def historySuffixExcludingCurrentUser (goal history : Bytes) (room budget : ℕ) : Bytes :=
  (utf8SafeSuffix budget (excludeCurrentUser goal history)).take room

def recentConversationHeader : Bytes := ascii "Recent conversation:\n"

/-- The section as it stands in the prompt. -/
def conversationSection (recent : Bytes) : Bytes :=
  if recent = [] then ascii "(empty)\n"
  else if recent.getLast? = some lf then recent
  else recent ++ [lf]

/-- The end of `build_m4_openai_request_body`: the last section of the prompt, and the cut of the
prompt to what the model takes. -/
def promptWithHistory (prompt goal history : Bytes) : Bytes :=
  let prompt := promptAppend prompt recentConversationHeader
  let room := min (prompt.length + m4RecentConversationLimit) m4PromptBufLimit - prompt.length
  let recent := historySuffixExcludingCurrentUser goal history room m4RecentConversationLimit
  let prompt := promptAppend prompt (conversationSection recent)
  if m4ModelInputLimit < prompt.length then copyUtf8Prefix m4ModelInputLimit prompt else prompt

/-- The prompt before the section leaves room for it. -/
def LeavesRoom (prompt : Bytes) : Prop :=
  prompt.length + recentConversationHeader.length + m4RecentConversationLimit < m4ModelInputLimit

theorem conversationSection_length_le (recent : Bytes) :
    (conversationSection recent).length ≤ max 8 (recent.length + 1) := by
  unfold conversationSection
  split_ifs
  · exact le_max_left _ _
  · omega
  · rw [List.length_append, List.length_singleton]
    omega

theorem promptWithHistory_eq {prompt : Bytes} (hroom : LeavesRoom prompt) (goal history : Bytes) :
    promptWithHistory prompt goal history = prompt ++ recentConversationHeader ++
      conversationSection
        (utf8SafeSuffix m4RecentConversationLimit (excludeCurrentUser goal history)) := by
  unfold LeavesRoom m4RecentConversationLimit m4ModelInputLimit at hroom
  have hheader : promptAppend prompt recentConversationHeader = prompt ++ recentConversationHeader := by
    unfold promptAppend m4PromptBufLimit
    rw [List.take_of_length_le (by omega)]
  have hsuffix := utf8SafeSuffix_length_le m4RecentConversationLimit (excludeCurrentUser goal history)
  have hsection := conversationSection_length_le
    (utf8SafeSuffix m4RecentConversationLimit (excludeCurrentUser goal history))
  have hlen : (prompt ++ recentConversationHeader).length =
      prompt.length + recentConversationHeader.length := List.length_append
  unfold promptWithHistory historySuffixExcludingCurrentUser
  dsimp only
  unfold m4RecentConversationLimit at hsuffix hsection ⊢
  rw [hheader, List.take_of_length_le (by unfold m4PromptBufLimit; omega)]
  unfold promptAppend m4PromptBufLimit m4ModelInputLimit
  rw [List.take_of_length_le (by omega), if_neg (by rw [List.length_append]; omega)]

end Prompt

section Run

/-- What happens to the history. -/
inductive HistoryCall where
  | append (turn : Turn)
  | reset
  deriving DecidableEq, Repr

/-- The history with the turns since the last reset. -/
structure HistoryLog where
  history : Bytes := []
  turns : List Turn := []
  deriving DecidableEq, Repr

def HistoryLog.step (r : HistoryLog) : HistoryCall → HistoryLog
  | .append turn => ⟨appendTurn r.history turn, r.turns ++ [turn]⟩
  | .reset => {}

def historyMachine : Machine HistoryLog HistoryCall where
  init r := r = {}
  allowed _ _ := True
  step := HistoryLog.step

def transcript (turns : List Turn) : Bytes := (turns.map Turn.bytes).flatten

/-- The turn consists of texts and fits behind the history. -/
def Fits (r : HistoryLog) : HistoryCall → Prop
  | .append turn =>
    (∀ part ∈ turn.parts, Utf8 part) ∧
      r.history.length + turn.bytes.length ≤ sessionHistoryMax
  | .reset => True

instance (r : HistoryLog) (call : HistoryCall) : Decidable (historyMachine.allowed r call) :=
  isTrue trivial

instance (r : HistoryLog) (call : HistoryCall) : Decidable (Fits r call) :=
  match call with
  | .append _ => inferInstanceAs (Decidable (_ ∧ _))
  | .reset => isTrue trivial

/-- The turns before the one of the current goal. -/
def turnsBefore (goal : Bytes) (turns : List Turn) : List Turn :=
  if turns.getLast? = some (.user goal) then turns.dropLast else turns

/-- No other turn ends like the one of the current goal. -/
def NotMistaken (goal : Bytes) (turns : List Turn) : Prop :=
  turns.getLast? = some (.user goal) ∨ ¬ (Turn.user goal).bytes <:+ transcript turns

/-- What the model gets to see of the turns. -/
structure RecentSection (turns : List Turn) (recent : Bytes) : Prop where
  valid : Utf8 recent
  suffix : recent <:+ transcript turns
  long : min (transcript turns).length m4RecentConversationLimit ≤ recent.length + 3
  newest : ∀ turn, turns.getLast? = some turn →
    turn.bytes.length + 3 ≤ m4RecentConversationLimit → turn.bytes <:+ recent

/-- The history is the end of what was said, and the model gets to see the end of it. -/
structure HistoryRecent (r : HistoryLog) : Prop where
  valid : Utf8 r.history
  suffix : r.history <:+ transcript r.turns
  newest : ∀ turn, r.turns.getLast? = some turn → turn.bytes <:+ r.history
  shown : ∀ goal prompt, LeavesRoom prompt → NotMistaken goal r.turns →
    ∃ recent, RecentSection (turnsBefore goal r.turns) recent ∧
      promptWithHistory prompt goal r.history =
        prompt ++ recentConversationHeader ++ conversationSection recent

variable {r : HistoryLog}

/-- The stored history is a text whatever is appended. -/
theorem history_utf8 (h : historyMachine.Reachable r) : Utf8 r.history := by
  apply h.invariant
  · rintro _ rfl
    exact .nil
  · intro r call hvalid _
    cases call with
    | append turn => exact foldl_historyAppendBytes_utf8 hvalid _
    | reset => exact .nil

theorem transcript_append (turns : List Turn) (turn : Turn) :
    transcript (turns ++ [turn]) = transcript turns ++ turn.bytes := by
  simp [transcript]

theorem transcript_utf8 {turns : List Turn} (h : ∀ turn ∈ turns, Utf8 turn.bytes) :
    Utf8 (transcript turns) := by
  apply Utf8.flatten
  intro part hpart
  obtain ⟨turn, hturn, rfl⟩ := List.mem_map.mp hpart
  exact h turn hturn

/-- As long as everything fits the history is all that was said. -/
theorem history_eq_transcript (h : (historyMachine.restrict Fits).Reachable r) :
    r.history = transcript r.turns ∧ ∀ turn ∈ r.turns, Utf8 turn.bytes := by
  apply h.invariant
  · rintro _ rfl
    exact ⟨rfl, fun turn hturn => absurd hturn List.not_mem_nil⟩
  · rintro r call ⟨hall, hvalid⟩ ⟨-, hfits⟩
    cases call with
    | append turn =>
      constructor
      · change appendTurn r.history turn = transcript (r.turns ++ [turn])
        rw [appendTurn, foldl_historyAppendBytes hfits.1 hfits.2, transcript_append, hall]
        rfl
      · intro other hother
        rcases List.mem_append.mp hother with hold | hnew
        · exact hvalid other hold
        · rw [List.mem_singleton.mp hnew]
          exact Utf8.flatten hfits.1
    | reset => exact ⟨rfl, fun turn hturn => absurd hturn List.not_mem_nil⟩

theorem getLast?_transcript {turns : List Turn} {turn : Turn} (h : turns.getLast? = some turn) :
    transcript turns = transcript turns.dropLast ++ turn.bytes := by
  rw [← transcript_append, List.dropLast_append_getLast? _ h]

theorem excludeCurrentUser_eq (goal text : Bytes) :
    excludeCurrentUser goal text =
      if (Turn.user goal).bytes <:+ text then text.take (text.length - (Turn.user goal).bytes.length)
      else text := by
  have hbytes : (Turn.user goal).bytes = ascii "User: " ++ goal ++ [lf] := by
    simp [Turn.bytes, Turn.parts]
  have hlen : (Turn.user goal).bytes.length = (ascii "User: ").length + goal.length + 1 := by
    rw [hbytes, List.length_append, List.length_append, List.length_singleton]
  unfold excludeCurrentUser
  dsimp only
  rw [← hbytes, ← hlen]
  congr 1
  rw [List.suffix_iff_eq_drop]
  apply propext
  constructor
  · exact fun h => h.2.symm
  · intro h
    refine ⟨?_, h.symm⟩
    have hle := congrArg List.length h
    rw [List.length_drop] at hle
    omega

theorem excludeCurrentUser_transcript {goal : Bytes} {turns : List Turn}
    (h : NotMistaken goal turns) :
    excludeCurrentUser goal (transcript turns) = transcript (turnsBefore goal turns) := by
  rw [excludeCurrentUser_eq]
  by_cases hlast : turns.getLast? = some (.user goal)
  · rw [turnsBefore, if_pos hlast, getLast?_transcript hlast, if_pos (List.suffix_append _ _),
      List.length_append, Nat.add_sub_cancel, List.take_left]
  · rw [turnsBefore, if_neg hlast, if_neg (h.resolve_left hlast)]

theorem turnsBefore_subset (goal : Bytes) (turns : List Turn) : turnsBefore goal turns ⊆ turns := by
  unfold turnsBefore
  split_ifs
  · exact List.dropLast_subset _
  · exact List.Subset.refl _

/-- The suffix that is kept of a conversation shows its end. -/
theorem recentSection_suffix {turns : List Turn} (h : ∀ turn ∈ turns, Utf8 turn.bytes) :
    RecentSection turns (utf8SafeSuffix m4RecentConversationLimit (transcript turns)) := by
  obtain ⟨hvalid, hlong⟩ := utf8SafeSuffix_spec m4RecentConversationLimit (transcript_utf8 h)
  have hsuffix := utf8SafeSuffix_isSuffix m4RecentConversationLimit (transcript turns)
  refine ⟨hvalid, hsuffix, hlong, ?_⟩
  intro turn hlast hshort
  have hturn : turn.bytes <:+ transcript turns := by
    rw [getLast?_transcript hlast]
    exact List.suffix_append _ _
  by_cases hall : (transcript turns).length ≤ m4RecentConversationLimit
  · rwa [utf8SafeSuffix, if_pos hall]
  · exact List.suffix_of_suffix_length_le hturn hsuffix (by omega)

theorem history_recent (h : (historyMachine.restrict Fits).Reachable r) : HistoryRecent r := by
  obtain ⟨hall, hvalid⟩ := history_eq_transcript h
  constructor
  · rw [hall]
    exact transcript_utf8 hvalid
  · rw [hall]
  · intro turn hlast
    rw [hall, getLast?_transcript hlast]
    exact List.suffix_append _ _
  · intro goal prompt hroom hmistaken
    refine ⟨_, recentSection_suffix fun turn hturn => hvalid turn (turnsBefore_subset goal _ hturn), ?_⟩
    rw [promptWithHistory_eq hroom, hall, excludeCurrentUser_transcript hmistaken]

theorem history_recent_run :
    let r := historyMachine.run {} [.append (.user [104, 105]), .append (.assistant [0xc3, 0xa9]),
      .append (.user [98])]
    (Turn.user [98]).bytes <:+ r.history := by
  intro r
  have hr : (historyMachine.restrict Fits).Reachable r :=
    (Machine.Reachable.init rfl).run (by decide)
  exact (history_recent hr).newest _ rfl

/-- A full history stays as it is. -/
theorem appendTurn_full {history : Bytes} (h : history.length = sessionHistoryMax) (turn : Turn) :
    appendTurn history turn = history := by
  have happend : ∀ bytes, historyAppendBytes history bytes = history := by
    intro bytes
    have hle := copyUtf8Prefix_length_le (sessionHistoryMax - history.length) bytes
    rw [h, Nat.sub_self, Nat.le_zero, List.length_eq_zero_iff] at hle
    rw [historyAppendBytes, h, Nat.sub_self, hle, List.append_nil]
  unfold appendTurn
  induction turn.parts with
  | nil => rfl
  | cons part parts ih => rw [List.foldl_cons, happend, ih]

theorem utf8_replicate (n : ℕ) : Utf8 (List.replicate n 97) := by
  induction n with
  | zero => exact .nil
  | succ n ih => exact .cons (.one (by decide)) ih

/-- A turn that fills the history. -/
theorem appendTurn_filling {n : ℕ} (hn : 12 + n = sessionHistoryMax) :
    appendTurn [] (.assistant (List.replicate n 97)) =
        ascii "Assistant: " ++ (List.replicate n 97 ++ [lf]) ∧
      (ascii "Assistant: " ++ (List.replicate n 97 ++ [lf])).length = sessionHistoryMax := by
  have hlen : (ascii "Assistant: " ++ (List.replicate n 97 ++ [lf])).length = sessionHistoryMax := by
    rw [List.length_append, List.length_append, List.length_replicate, List.length_singleton, ← hn]
    change 11 + (n + 1) = 12 + n
    omega
  constructor
  · apply foldl_historyAppendBytes
    · intro part hpart
      simp only [Turn.parts, List.mem_cons, List.not_mem_nil, or_false] at hpart
      rcases hpart with rfl | rfl | rfl
      · decide
      · exact utf8_replicate n
      · decide
    · rw [List.length_nil, Nat.zero_add]
      exact hlen.le
  · exact hlen

/-- Once the buffer is full the newest turn is dropped. -/
theorem full_history_drops_newest : ¬ ∀ r, historyMachine.Reachable r → HistoryRecent r := by
  intro hall
  obtain ⟨n, hn⟩ : ∃ n, 12 + n = sessionHistoryMax := ⟨16372, rfl⟩
  obtain ⟨hfill, hfull⟩ := appendTurn_filling hn
  have hr : historyMachine.Reachable (historyMachine.run {}
      [.append (.assistant (List.replicate n 97)), .append (.user [98])]) :=
    (Machine.Reachable.init rfl).run ⟨trivial, trivial, trivial⟩
  have hnewest : (Turn.user [98]).bytes <:+
      appendTurn (appendTurn [] (.assistant (List.replicate n 97))) (.user [98]) :=
    (hall _ hr).newest (.user [98]) rfl
  rw [hfill, appendTurn_full hfull] at hnewest
  obtain ⟨front, hfront⟩ := hnewest
  have hn0 : n ≠ 0 := by
    rintro rfl
    cases hn
  have hlast := congrArg (fun bytes => bytes.dropLast.getLast?) hfront
  simp [Turn.bytes, Turn.parts, ← List.append_assoc, List.getLast?_append,
    List.getLast?_replicate, hn0] at hlast

end Run

end MiniAgentOS.Session
