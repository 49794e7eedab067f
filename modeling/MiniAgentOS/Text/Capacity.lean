import MiniAgentOS.Text.Prefix

/-! A string is read as pieces, one for each byte or escape; the output buffer takes those that fit. So the
text is whole just when it fits. -/
namespace MiniAgentOS
open Checked

variable {buf key : Bytes} {len start capacity : ℕ}

section Loops

variable {σ τ α β : Type}

def Round.map (f : σ → τ) (g : α → β) : Round σ α → Round τ β
  | .next state => .next (f state)
  | .done result => .done (g result)

/-- A loop over another state that goes round for round with a loop. -/
theorem loop_map {body : σ → Checked (Round σ α)} {other : τ → Checked (Round τ β)} (f : σ → τ) (g : α → β)
    (hbody : ∀ state, other (f state) = Round.map f g <$> body state) (fuel : ℕ) (state : σ) :
    loop other fuel (f state) = g <$> loop body fuel state := by
  induction fuel generalizing state with
  | zero => rfl
  | succ fuel ih =>
    rw [loop, loop, hbody]
    cases body state with
    | error trap => rfl
    | ok round =>
      cases round with
      | next after => exact ih after
      | done result => rfl

end Loops

section Pieces

/-- A piece goes into the buffer whole or not at all. -/
def putPiece (capacity : ℕ) (out piece : Bytes) : Bytes :=
  if out.length + piece.length ≤ capacity then out ++ piece else out

/-- The text in the buffer after the pieces. -/
def putPieces (capacity : ℕ) (pieces : List Bytes) : Bytes := pieces.foldl (putPiece capacity) []

theorem putPiece_length_le {out piece : Bytes} (h : out.length ≤ capacity) :
    (putPiece capacity out piece).length ≤ capacity := by
  unfold putPiece
  split
  · rwa [List.length_append]
  · exact h

theorem foldl_putPiece_length_le {out : Bytes} (h : out.length ≤ capacity) (pieces : List Bytes) :
    (pieces.foldl (putPiece capacity) out).length ≤ capacity := by
  induction pieces generalizing out with
  | nil => exact h
  | cons piece pieces ih => exact ih (putPiece_length_le h)

theorem foldl_putPiece_eq {out : Bytes} {pieces : List Bytes}
    (h : out.length + pieces.flatten.length ≤ capacity) :
    pieces.foldl (putPiece capacity) out = out ++ pieces.flatten := by
  induction pieces generalizing out with
  | nil => rw [List.foldl_nil, List.flatten_nil, List.append_nil]
  | cons piece pieces ih =>
    rw [List.flatten_cons, List.length_append] at h
    have hput : putPiece capacity out piece = out ++ piece := if_pos (by omega)
    rw [List.foldl_cons, hput, ih, List.flatten_cons, List.append_assoc]
    rw [List.length_append]
    omega

theorem putPieces_length_le (capacity : ℕ) (pieces : List Bytes) : (putPieces capacity pieces).length ≤ capacity :=
  foldl_putPiece_length_le (Nat.zero_le _) pieces

/-- The buffer holds all of the text just when the text fits. -/
theorem putPieces_eq_iff {pieces : List Bytes} :
    putPieces capacity pieces = pieces.flatten ↔ pieces.flatten.length ≤ capacity := by
  constructor
  · intro h
    rw [← h]
    exact putPieces_length_le capacity pieces
  · intro h
    exact foldl_putPiece_eq (by simpa using h)

/-- What the pieces leave in a buffer: all of the text, or a text that goes with it up to the last four bytes of the
buffer. -/
def SameFront (capacity : ℕ) (text whole : Bytes) : Prop :=
  text = whole ∨ ∃ front, front <+: text ∧ front <+: whole ∧ capacity < front.length + 4

theorem foldl_putPiece_extends (capacity : ℕ) (out : Bytes) (pieces : List Bytes) :
    out <+: pieces.foldl (putPiece capacity) out := by
  induction pieces generalizing out with
  | nil => exact List.prefix_rfl
  | cons piece pieces ih =>
    refine List.IsPrefix.trans ?_ (ih (putPiece capacity out piece))
    unfold putPiece
    split
    · exact List.prefix_append out piece
    · exact List.prefix_rfl

theorem foldl_putPiece_sameFront {pieces : List Bytes} (h : ∀ piece ∈ pieces, piece.length ≤ 4) (out : Bytes) :
    SameFront capacity (pieces.foldl (putPiece capacity) out) (out ++ pieces.flatten) := by
  induction pieces generalizing out with
  | nil =>
    left
    simp
  | cons piece pieces ih =>
    have hpiece := h piece List.mem_cons_self
    rw [List.foldl_cons, List.flatten_cons]
    by_cases hfits : out.length + piece.length ≤ capacity
    · have hput : putPiece capacity out piece = out ++ piece := if_pos hfits
      rw [hput, ← List.append_assoc]
      exact ih (fun other hother => h other (List.mem_cons_of_mem _ hother)) (out ++ piece)
    · have hput : putPiece capacity out piece = out := if_neg hfits
      rw [hput]
      right
      exact ⟨out, foldl_putPiece_extends capacity out pieces, List.prefix_append _ _, by omega⟩

theorem putPieces_sameFront {pieces : List Bytes} (h : ∀ piece ∈ pieces, piece.length ≤ 4) :
    SameFront capacity (putPieces capacity pieces) pieces.flatten :=
  foldl_putPiece_sameFront h []

variable {text whole name : Bytes}

/-- A short text is in front of both or of neither. -/
theorem SameFront.starts_iff (h : SameFront capacity text whole) (hname : name.length + 3 ≤ capacity) :
    name <+: text ↔ name <+: whole := by
  obtain rfl | ⟨front, htext, hwhole, hlong⟩ := h
  · rfl
  have hiff : ∀ {other : Bytes}, front <+: other → (name <+: other ↔ name <+: front) := by
    intro other hother
    constructor
    · intro hpre
      exact List.prefix_of_prefix_length_le hpre hother (by omega)
    · intro hpre
      exact hpre.trans hother
  rw [hiff htext, hiff hwhole]

theorem SameFront.nil_iff (h : SameFront capacity text whole) (hroom : 4 ≤ capacity) : text = [] ↔ whole = [] := by
  obtain rfl | ⟨front, htext, hwhole, hlong⟩ := h
  · rfl
  have hne : ∀ {other : Bytes}, front <+: other → other ≠ [] := by
    rintro other hother rfl
    rw [List.prefix_nil.mp hother, List.length_nil] at hlong
    omega
  exact iff_of_false (hne htext) (hne hwhole)

end Pieces

section Strings

/-- The piece of a `\u` escape. -/
def codepointPiece (cp : ℕ) : Bytes := if cp ≤ 0x10ffff then utf8Bytes cp else []

/-- `readString` without a bound for its output: the piece of each byte and of each escape. -/
def readPieces (buf : Bytes) (len start : ℕ) : Checked (Option (List Bytes)) :=
  loop (fun (off, out) =>
    if off < len then do
      let b ← index buf off
      if b = quote then pure (.done (some out))
      else if b = backslash then
        if off + 1 ≥ len then pure (.done none)
        else
          let esc ← index buf (off + 1)
          if esc = 117 then
            if off + 5 ≥ len then pure (.done none)
            else
              match ← readHex4 buf (off + 2) with
              | none => pure (.done none)
              | some cp => pure (.next (off + 6, out ++ [codepointPiece cp]))
          else pure (.next (off + 2, out ++ [[unescape esc]]))
      else pure (.next (off + 1, out ++ [[b]]))
    else pure (.done none)) (len - start + 1) (start, [])

theorem putPieces_append (pieces : List Bytes) (piece : Bytes) :
    putPieces capacity (pieces ++ [piece]) = putPiece capacity (putPieces capacity pieces) piece := by
  rw [putPieces, List.foldl_append]
  rfl

theorem putByte_pieces (pieces : List Bytes) (b : UInt8) :
    putByte capacity (putPieces capacity pieces) b = .ok (putPieces capacity (pieces ++ [[b]])) := by
  rw [putPieces_append, putByte, putPiece, List.length_singleton]
  by_cases hroom : (putPieces capacity pieces).length < capacity
  · have hfits : (putPieces capacity pieces).length + 1 ≤ capacity := hroom
    rw [if_pos hroom, extend_eq hfits, if_pos hfits]
  · have hfull : ¬ (putPieces capacity pieces).length + 1 ≤ capacity := hroom
    rw [if_neg hroom, if_neg hfull]
    rfl

theorem appendUtf8Codepoint_pieces (pieces : List Bytes) (cp : ℕ) :
    appendUtf8Codepoint capacity (putPieces capacity pieces) cp =
      .ok (putPieces capacity (pieces ++ [codepointPiece cp])) := by
  rw [putPieces_append, appendUtf8Codepoint, putPiece, codepointPiece]
  by_cases hcp : cp ≤ 0x10ffff
  · rw [if_pos hcp]
    by_cases hroom : (putPieces capacity pieces).length + (utf8Bytes cp).length ≤ capacity
    · rw [if_pos ⟨hcp, hroom⟩, extend_eq hroom, if_pos hroom]
    · rw [if_neg fun h => hroom h.2, if_neg hroom]
      rfl
  · rw [if_neg hcp, if_neg fun h => hcp h.1, List.append_nil, ite_self]
    rfl

/-- A string in a buffer is what the buffer takes of its pieces. -/
theorem readString_eq_pieces (buf : Bytes) (len capacity start : ℕ) :
    readString buf len capacity start = Option.map (putPieces capacity) <$> readPieces buf len start := by
  refine loop_map (fun state => (state.1, putPieces capacity state.2)) (Option.map (putPieces capacity)) ?_
    (len - start + 1) (start, [])
  rintro ⟨off, out⟩
  dsimp only
  by_cases hroom : off < len
  swap
  · rw [if_neg hroom, if_neg hroom]
    rfl
  rw [if_pos hroom, if_pos hroom]
  cases index buf off with
  | error trap => rfl
  | ok b =>
    rw [ok_bind, ok_bind]
    by_cases hquote : b = quote
    · rw [if_pos hquote, if_pos hquote]
      rfl
    rw [if_neg hquote, if_neg hquote]
    by_cases hslash : b = backslash
    swap
    · rw [if_neg hslash, if_neg hslash, putByte_pieces]
      rfl
    rw [if_pos hslash, if_pos hslash]
    by_cases hlast : off + 1 ≥ len
    · rw [if_pos hlast, if_pos hlast]
      rfl
    rw [if_neg hlast, if_neg hlast]
    cases index buf (off + 1) with
    | error trap => rfl
    | ok esc =>
      rw [ok_bind, ok_bind]
      by_cases hu : esc = 117
      swap
      · rw [if_neg hu, if_neg hu, putByte_pieces]
        rfl
      rw [if_pos hu, if_pos hu]
      by_cases hshort : off + 5 ≥ len
      · rw [if_pos hshort, if_pos hshort]
        rfl
      rw [if_neg hshort, if_neg hshort]
      cases readHex4 buf (off + 2) with
      | error trap => rfl
      | ok r =>
        rw [ok_bind, ok_bind]
        cases r with
        | none => rfl
        | some cp =>
          dsimp only
          rw [appendUtf8Codepoint_pieces]
          rfl

theorem codepointPiece_length_le (cp : ℕ) : (codepointPiece cp).length ≤ 4 := by
  unfold codepointPiece utf8Bytes
  dsimp only
  repeat' split
  all_goals simp

/-- The pieces are short, and no longer together than what they are read from. -/
def SmallPieces (room : ℕ) (r : Option (List Bytes)) : Prop :=
  ∀ pieces, r = some pieces → pieces.flatten.length ≤ room ∧ ∀ piece ∈ pieces, piece.length ≤ 4

theorem smallPieces_none (room : ℕ) : SmallPieces room none := fun _ h => nomatch h

theorem readPieces_returns (hlen : len ≤ buf.length) (start : ℕ) :
    Returns (readPieces buf len start) (SmallPieces (len - start)) := by
  refine returns_loop (fun s => s.2.flatten.length + start ≤ s.1 ∧ ∀ piece ∈ s.2, piece.length ≤ 4)
    (fun s => len - s.1) ?_ (by simp) (Nat.lt_succ_self _)
  rintro ⟨off, out⟩ ⟨hout, hsmall⟩
  dsimp only at hout hsmall
  have hnext : ∀ (piece : Bytes) (width : ℕ), off < len → piece.length ≤ width → piece.length ≤ 4 → 0 < width →
      Returns (pure (.next (off + width, out ++ [piece])) : Checked (Round _ _)) (RoundPost
        (fun s : ℕ × List Bytes => s.2.flatten.length + start ≤ s.1 ∧ ∀ piece ∈ s.2, piece.length ≤ 4)
        (fun s => len - s.1) (SmallPieces (len - start)) (off, out)) := by
    intro piece width hoff hpiece hfour hwidth
    rw [returns_pure, roundPost_next]
    dsimp only
    rw [List.flatten_append, List.length_append, List.flatten_singleton]
    refine ⟨⟨by omega, ?_⟩, by omega⟩
    intro other hother
    rcases List.mem_append.mp hother with hold | hnew
    · exact hsmall other hold
    · rw [List.mem_singleton.mp hnew]
      exact hfour
  apply Returns.ite
  swap
  · exact fun _ => Returns.pure (smallPieces_none _)
  intro hoff
  apply Returns.bind (index_returns (by omega))
  intro b _
  apply Returns.ite
  · intro _
    apply Returns.pure
    rintro pieces ⟨⟩
    exact ⟨by omega, hsmall⟩
  intro _
  apply Returns.ite
  swap
  · exact fun _ => hnext [b] 1 hoff le_rfl (by simp) Nat.one_pos
  intro _
  apply Returns.ite
  · exact fun _ => Returns.pure (smallPieces_none _)
  intro hesc
  apply Returns.bind (index_returns (by omega))
  intro esc _
  apply Returns.ite
  swap
  · exact fun _ => hnext [unescape esc] 2 hoff (by simp) (by simp) Nat.two_pos
  intro _
  apply Returns.ite
  · exact fun _ => Returns.pure (smallPieces_none _)
  intro hdigits
  apply Returns.bind (readHex4_returns (by omega))
  intro r _
  have hpiece := codepointPiece_length_le
  cases r with
  | none => exact Returns.pure (smallPieces_none _)
  | some cp => exact hnext (codepointPiece cp) 6 hoff ((hpiece cp).trans (by omega)) (hpiece cp) (by omega)

/-- The string behind a key has pieces, none where there is no string, and a buffer takes what fits of them. -/
theorem jsonExtractStringLocal_pieces (buf key : Bytes) : ∃ pieces : List Bytes,
    pieces.flatten.length ≤ buf.length ∧ (∀ piece ∈ pieces, piece.length ≤ 4) ∧
    ∀ capacity, jsonExtractStringLocal buf key capacity = .ok (putPieces capacity pieces) := by
  have hnone : (∀ capacity, jsonExtractStringLocal buf key capacity = .ok []) → ∃ pieces : List Bytes,
      pieces.flatten.length ≤ buf.length ∧ (∀ piece ∈ pieces, piece.length ≤ 4) ∧
      ∀ capacity, jsonExtractStringLocal buf key capacity = .ok (putPieces capacity pieces) :=
    fun h => ⟨[], Nat.zero_le _, by simp, h⟩
  unfold jsonExtractStringLocal jsonExtractString jsonExtractStringFrom at hnone ⊢
  obtain ⟨found, hfound, -⟩ : Returns (jsonFindValue buf buf.length key 0) _ := jsonFindValue_returns le_rfl 0
  rw [hfound] at hnone ⊢
  cases found with
  | none => exact hnone fun _ => rfl
  | some off =>
    obtain ⟨quoted, hquoted, -⟩ : Returns (testAt (· == quote) buf buf.length off) _ := testAt_returns _ le_rfl
    simp only [ok_bind, hquoted] at hnone ⊢
    cases quoted with
    | false => exact hnone fun _ => rfl
    | true =>
      obtain ⟨r, hr, hsmall⟩ := readPieces_returns (le_refl buf.length) (off + 1)
      simp only [readString_eq_pieces, hr] at hnone ⊢
      cases r with
      | none => exact hnone fun _ => rfl
      | some pieces =>
        obtain ⟨hlength, hpieces⟩ := hsmall pieces rfl
        exact ⟨pieces, by omega, hpieces, fun _ => rfl⟩

/-- The string behind a key, whole; empty where there is none. -/
def stringBehind (buf key : Bytes) : Bytes := (jsonExtractStringLocal buf key buf.length).toOption.getD []

/-- What a buffer holds of the string behind a key. -/
theorem stringBehind_cut (buf key : Bytes) (capacity : ℕ) : ∃ text, jsonExtractStringLocal buf key capacity = .ok text ∧
    text.length ≤ capacity ∧ SameFront capacity text (stringBehind buf key) ∧
    (text = stringBehind buf key ↔ (stringBehind buf key).length ≤ capacity) := by
  obtain ⟨pieces, hlength, hpieces, hread⟩ := jsonExtractStringLocal_pieces buf key
  have hwhole : stringBehind buf key = pieces.flatten := by
    rw [stringBehind, hread, putPieces_eq_iff.mpr hlength]
    rfl
  rw [hwhole, hread]
  exact ⟨_, rfl, putPieces_length_le _ _, putPieces_sameFront hpieces, putPieces_eq_iff⟩

/-- A buffer that is no shorter than the text to read takes the string whole, as every longer one does. -/
theorem readString_more (hlen : len ≤ buf.length) (hroom : len ≤ capacity) (more start : ℕ) :
    readString buf len (capacity + more) start = readString buf len capacity start := by
  obtain ⟨r, hr, hpieces⟩ := readPieces_returns hlen start
  rw [readString_eq_pieces, readString_eq_pieces, hr]
  cases r with
  | none => rfl
  | some pieces =>
    have hle := (hpieces pieces rfl).1
    rw [Except.map_ok, Except.map_ok, Option.map_some, Option.map_some, putPieces_eq_iff.mpr (by omega),
      putPieces_eq_iff.mpr (by omega)]

theorem jsonExtractStringFrom_more (hlen : len ≤ buf.length) (hroom : len ≤ capacity) (more start : ℕ) :
    jsonExtractStringFrom buf len key (capacity + more) start = jsonExtractStringFrom buf len key capacity start := by
  unfold jsonExtractStringFrom
  simp only [readString_more hlen hroom]

theorem extractOpenaiNestedOutputText_more {body : Bytes} (hroom : body.length ≤ capacity) (more : ℕ) :
    extractOpenaiNestedOutputText body (capacity + more) = extractOpenaiNestedOutputText body capacity := by
  unfold extractOpenaiNestedOutputText
  simp only [jsonExtractStringFrom_more le_rfl hroom]

end Strings

end MiniAgentOS
