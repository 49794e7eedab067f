import MiniAgentOS.Agent.Window

/-! The preview of a fetched page, and what the history and the prompt take of it. -/
namespace MiniAgentOS.Agent
open Session

section Preview

def m4FetchPreviewLimit : ℕ := 900

def previewHeader : Bytes := ascii "Fetched URL content preview:\n"

def truncationMarker : Bytes := ascii "\n...(truncated)"

/-- Whether `compact_fetch_preview` marks the page as cut. -/
def PageCut (page : Bytes) (truncated : Bool) : Prop := m4FetchPreviewLimit < page.length ∨ truncated = true

instance (page : Bytes) (truncated : Bool) : Decidable (PageCut page truncated) :=
  inferInstanceAs (Decidable (_ ∨ _))

def compactFetchPreview (capacity : ℕ) (page : Bytes) (truncated : Bool) : Bytes :=
  let out := appendBytes capacity [] previewHeader
  let out := appendBytes capacity out (page.take (min page.length m4FetchPreviewLimit))
  if PageCut page truncated then appendBytes capacity out truncationMarker else out

/-- The marker is there in the history and in the section of the latest tool result, wherever they have room. -/
structure MarkerSurvives (preview : Bytes) : Prop where
  history : ∀ history, history.length + (Turn.tool (ascii "fetch_url") preview).bytes.length ≤ sessionHistoryMax →
    truncationMarker ++ [lf] <:+ appendTurn history (.tool (ascii "fetch_url") preview)
  prompt : ∀ prompt, prompt.length + preview.length + 2 ≤ m4PromptBufLimit →
    truncationMarker ++ ascii "\n\n" <:+ appendBoundedPromptBytes prompt preview m4LatestToolResultLimit "(none)"

/-- The preview of a page can be read as a whole. -/
structure PreviewReadable (page : Bytes) (truncated : Bool) : Prop where
  valid : Utf8 (compactFetchPreview toolResultLimit page truncated)
  marked : PageCut page truncated → MarkerSurvives (compactFetchPreview toolResultLimit page truncated)

variable {page preview front : Bytes} {truncated : Bool}

theorem previewHeader_utf8 : Utf8 previewHeader :=
  utf8_ascii (low_ascii (s := "Fetched URL content preview:\n") rfl (by decide))

theorem truncationMarker_utf8 : Utf8 truncationMarker :=
  utf8_ascii (low_ascii (s := "\n...(truncated)") rfl (by decide))

theorem previewHeader_length : previewHeader.length = 29 := ascii_length rfl

theorem truncationMarker_length : truncationMarker.length = 15 := ascii_length rfl

/-- The preview fits its buffer. -/
theorem compactFetchPreview_eq (page : Bytes) (truncated : Bool) :
    compactFetchPreview toolResultLimit page truncated = previewHeader ++ page.take m4FetchPreviewLimit ++
      (if PageCut page truncated then truncationMarker else []) := by
  have hheader := previewHeader_length
  have hmarker := truncationMarker_length
  have htake : page.take (min page.length m4FetchPreviewLimit) = page.take m4FetchPreviewLimit := by
    rw [List.take_eq_take_iff]
    omega
  have hlength : (page.take m4FetchPreviewLimit).length ≤ 900 := by
    rw [List.length_take]
    exact Nat.min_le_left _ _
  have hfirst : appendBytes toolResultLimit [] previewHeader = previewHeader := by
    apply appendBytes_eq
    rw [List.length_nil, hheader]
    decide
  have hsecond : appendBytes toolResultLimit previewHeader (page.take m4FetchPreviewLimit) =
      previewHeader ++ page.take m4FetchPreviewLimit := by
    apply appendBytes_eq
    unfold toolResultLimit
    omega
  have hthird : appendBytes toolResultLimit (previewHeader ++ page.take m4FetchPreviewLimit) truncationMarker =
      previewHeader ++ page.take m4FetchPreviewLimit ++ truncationMarker := by
    apply appendBytes_eq
    unfold toolResultLimit
    rw [List.length_append]
    omega
  unfold compactFetchPreview
  dsimp only
  rw [htake, hfirst, hsecond, hthird]
  split_ifs
  · rfl
  · rw [List.append_nil]

theorem compactFetchPreview_length_le (page : Bytes) (truncated : Bool) :
    (compactFetchPreview toolResultLimit page truncated).length ≤ 944 := by
  have hmarker : (if PageCut page truncated then truncationMarker else []).length ≤ 15 := by
    split_ifs
    · exact truncationMarker_length.le
    · exact Nat.zero_le _
  rw [compactFetchPreview_eq, List.length_append, List.length_append, previewHeader_length, List.length_take]
  unfold m4FetchPreviewLimit
  omega

/-- A text with the marker at its end keeps it in both copies. -/
theorem markerSurvives_of (hvalid : Utf8 preview) (hlength : preview.length ≤ m4LatestToolResultLimit)
    (hne : preview ≠ []) (hmarker : truncationMarker <:+ preview) : MarkerSurvives preview := by
  obtain ⟨front, rfl⟩ := hmarker
  constructor
  · intro history hroom
    have hparts : ∀ part ∈ (Turn.tool (ascii "fetch_url") (front ++ truncationMarker)).parts, Utf8 part := by
      intro part hpart
      simp only [Turn.parts, List.mem_cons, List.not_mem_nil, or_false] at hpart
      rcases hpart with rfl | rfl | rfl | rfl | rfl
      · exact utf8_ascii (low_ascii rfl (by decide))
      · exact utf8_ascii (low_ascii rfl (by decide))
      · exact utf8_ascii (low_ascii rfl (by decide))
      · exact hvalid
      · exact .cons (.one (by decide)) .nil
    rw [appendTurn, foldl_historyAppendBytes hparts hroom]
    refine ⟨history ++ (ascii "Tool[" ++ (ascii "fetch_url" ++ (ascii "]: " ++ front))), ?_⟩
    simp [Turn.parts]
  · intro prompt hroom
    have hlimit : min (prompt.length + m4LatestToolResultLimit) m4PromptBufLimit - prompt.length ≥
        (front ++ truncationMarker).length := by omega
    have hcopy := (copyUtf8Prefix_eq_iff (min (prompt.length + m4LatestToolResultLimit) m4PromptBufLimit - prompt.length)
      (front ++ truncationMarker)).mpr ⟨hvalid, hlimit⟩
    have hend : promptAppend (prompt ++ (front ++ truncationMarker)) (ascii "\n\n") =
        prompt ++ (front ++ truncationMarker) ++ ascii "\n\n" := by
      apply promptAppend_eq
      rw [List.length_append, ascii_length rfl]
      exact hroom
    unfold appendBoundedPromptBytes
    dsimp only
    rw [hcopy, if_neg hne, hend]
    exact ⟨prompt ++ front, by simp⟩

/-- The preview of a page can be read exactly when the cut does not split a character. -/
theorem previewReadable_iff (hpage : Utf8 page) : PreviewReadable page truncated ↔
    page.length ≤ m4FetchPreviewLimit ∨ Utf8 (page.take m4FetchPreviewLimit) := by
  have hshort : page.length ≤ m4FetchPreviewLimit → Utf8 (page.take m4FetchPreviewLimit) := by
    intro hle
    rwa [List.take_of_length_le hle]
  constructor
  · rintro ⟨hvalid, -⟩
    by_contra hneither
    obtain ⟨hlong, hcut⟩ := not_or.mp hneither
    rw [compactFetchPreview_eq, if_pos (.inl (Nat.not_le.mp hlong)), List.append_assoc] at hvalid
    have hback := hvalid.of_append previewHeader_utf8
    have hlf : ∀ b, truncationMarker.head? = some b → isUtf8Continuation b = false := by
      intro b hb
      rw [← Option.some.inj hb]
      decide
    exact hcut (hback.split hlf).1
  · intro h
    have hcut : Utf8 (page.take m4FetchPreviewLimit) := h.elim hshort id
    have hvalid : Utf8 (compactFetchPreview toolResultLimit page truncated) := by
      rw [compactFetchPreview_eq]
      apply (previewHeader_utf8.append hcut).append
      split_ifs
      · exact truncationMarker_utf8
      · exact .nil
    refine ⟨hvalid, fun hmarked => ?_⟩
    have hlength := compactFetchPreview_length_le page truncated
    apply markerSurvives_of hvalid (hlength.trans (by decide))
    · rw [compactFetchPreview_eq]
      exact List.append_ne_nil_of_left_ne_nil (List.append_ne_nil_of_left_ne_nil (by decide) _) _
    · rw [compactFetchPreview_eq, if_pos hmarked]
      exact List.suffix_append _ _

theorem previewReadable_short : PreviewReadable [104, 105] true :=
  (previewReadable_iff (.cons (.one (by decide)) (.cons (.one (by decide)) .nil))).mpr (.inl (by decide))

/-- A letter of two bytes across the limit makes the preview ill-formed. -/
theorem previewReadable_split : ¬ ∀ page truncated, Utf8 page → PreviewReadable page truncated := by
  intro h
  have hletters : Utf8 (letters 899) := utf8_ascii (low_letters 899)
  have hpage : Utf8 (letters 899 ++ [0xc3, 0xa9]) := by
    have hlast : Utf8 [0xc3, 0xa9] := .cons (.two (by decide) (by decide) (by decide)) .nil
    exact hletters.append hlast
  rcases (previewReadable_iff hpage).mp (h _ false hpage) with hshort | hcut
  · rw [List.length_append, letters_length] at hshort
    exact absurd hshort (by decide)
  · have htake : (letters 899 ++ [0xc3, 0xa9]).take m4FetchPreviewLimit = letters 899 ++ [0xc3] := by
      rw [List.take_append, letters_length, List.take_of_length_le (by rw [letters_length]; decide)]
      rfl
    rw [htake] at hcut
    exact absurd (hcut.of_append hletters) (by decide)

end Preview

end MiniAgentOS.Agent
