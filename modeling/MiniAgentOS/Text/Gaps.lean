import MiniAgentOS.Text.Capacity
import MiniAgentOS.Text.Escape

/-! Where a text does not fit into its buffer: the reader of strings leaves out a character that is too long and goes on
with shorter ones, and so does the writer behind a byte that begins no character. -/
namespace MiniAgentOS
open Checked

/-- A text that ends where one of its pieces ends. -/
def CutAtPiece (pieces : List Bytes) (text : Bytes) : Prop := ∃ k, text = (pieces.take k).flatten

section Reader

variable {buf key out piece : Bytes} {len capacity used : ℕ} {pieces rest : List Bytes}

/-- No piece behind the first one that does not fit is short enough for the room that is left. -/
def NoGap (capacity : ℕ) : ℕ → List Bytes → Prop
  | _, [] => True
  | used, piece :: rest =>
    if used + piece.length ≤ capacity then NoGap capacity (used + piece.length) rest
    else ∀ other ∈ rest, other ≠ [] → capacity < used + other.length

instance decidableNoGap (capacity : ℕ) : ∀ (used : ℕ) (pieces : List Bytes), Decidable (NoGap capacity used pieces)
  | _, [] => isTrue trivial
  | used, piece :: rest =>
    if hfits : used + piece.length ≤ capacity then
      have := decidableNoGap capacity (used + piece.length) rest
      decidable_of_iff (NoGap capacity (used + piece.length) rest) (by rw [NoGap, if_pos hfits])
    else
      decidable_of_iff (∀ other ∈ rest, other ≠ [] → capacity < used + other.length) (by rw [NoGap, if_neg hfits])

/-- The pieces of the string behind a key, without a bound for the output. -/
def literalPieces (buf : Bytes) (len : ℕ) (key : Bytes) : Checked (Option (List Bytes)) := do
  match ← jsonFindValue buf len key 0 with
  | none => pure none
  | some off =>
    if ← testAt (· == quote) buf len off then readPieces buf len (off + 1)
    else pure none

theorem jsonExtractString_pieces (buf : Bytes) (len : ℕ) (key : Bytes) (capacity : ℕ) :
    jsonExtractString buf len key capacity = Option.map (putPieces capacity) <$> literalPieces buf len key := by
  unfold jsonExtractString jsonExtractStringFrom literalPieces
  cases jsonFindValue buf len key 0 with
  | error trap => rfl
  | ok found =>
    cases found with
    | none => rfl
    | some off =>
      rw [ok_bind, ok_bind]
      dsimp only
      cases testAt (· == quote) buf len off with
      | error trap => rfl
      | ok quoted =>
        cases quoted with
        | false => rfl
        | true =>
          rw [ok_bind, ok_bind, if_pos rfl, if_pos rfl, readString_eq_pieces]
          cases readPieces buf len (off + 1) with
          | error trap => rfl
          | ok r =>
            cases r with
            | none => rfl
            | some pieces => rfl

/-- Nothing more is written just when nothing more fits. -/
theorem foldl_putPiece_same_iff (out : Bytes) (rest : List Bytes) :
    rest.foldl (putPiece capacity) out = out ↔ ∀ other ∈ rest, other ≠ [] → capacity < out.length + other.length := by
  induction rest with
  | nil => simp
  | cons piece rest ih =>
    rw [List.foldl_cons, List.forall_mem_cons]
    by_cases hfits : out.length + piece.length ≤ capacity
    · have hput : putPiece capacity out piece = out ++ piece := if_pos hfits
      rw [hput]
      by_cases hnil : piece = []
      · rw [hnil, List.append_nil, ih]
        simp
      · refine iff_of_false (fun heq => ?_) (fun h => absurd (h.1 hnil) (by omega))
        have hfront := (foldl_putPiece_extends capacity (out ++ piece) rest).length_le
        rw [heq, List.length_append] at hfront
        have hpos := List.length_pos_iff.mpr hnil
        omega
    · have hput : putPiece capacity out piece = out := if_neg hfits
      rw [hput, ih]
      exact (and_iff_right fun _ => by omega).symm

/-- What the pieces come to behind a text is cut at a piece just when there is no gap. -/
theorem foldl_putPiece_cut_iff (h : out.length ≤ capacity) (pieces : List Bytes) :
    (∃ k, pieces.foldl (putPiece capacity) out = out ++ (pieces.take k).flatten) ↔
      NoGap capacity out.length pieces := by
  induction pieces generalizing out with
  | nil =>
    refine iff_of_true ⟨0, ?_⟩ trivial
    simp
  | cons piece rest ih =>
    rw [List.foldl_cons, NoGap]
    by_cases hfits : out.length + piece.length ≤ capacity
    · have hput : putPiece capacity out piece = out ++ piece := if_pos hfits
      have hlength : (out ++ piece).length = out.length + piece.length := List.length_append
      rw [if_pos hfits, hput, ← hlength, ← ih (by omega)]
      constructor
      · rintro ⟨k, hk⟩
        cases k with
        | zero =>
          -- nothing was written, so the piece is empty
          have hfront := (foldl_putPiece_extends capacity (out ++ piece) rest).length_le
          rw [hk, List.take_zero, List.flatten_nil, List.append_nil] at hfront
          have hnil : piece = [] := List.eq_nil_of_length_eq_zero (by omega)
          refine ⟨0, ?_⟩
          rw [hk, hnil]
          simp
        | succ k =>
          refine ⟨k, ?_⟩
          rw [hk, List.take_succ_cons, List.flatten_cons, List.append_assoc]
      · rintro ⟨k, hk⟩
        refine ⟨k + 1, ?_⟩
        rw [hk, List.take_succ_cons, List.flatten_cons, List.append_assoc]
    · have hput : putPiece capacity out piece = out := if_neg hfits
      rw [if_neg hfits, hput, ← foldl_putPiece_same_iff]
      constructor
      · rintro ⟨k, hk⟩
        cases k with
        | zero => simpa using hk
        | succ k =>
          have hlong := foldl_putPiece_length_le h rest
          rw [hk, List.take_succ_cons, List.flatten_cons, List.length_append, List.length_append] at hlong
          omega
      · intro hsame
        refine ⟨0, ?_⟩
        simpa using hsame

theorem putPieces_cut_iff (capacity : ℕ) (pieces : List Bytes) :
    CutAtPiece pieces (putPieces capacity pieces) ↔ NoGap capacity 0 pieces :=
  foldl_putPiece_cut_iff (Nat.zero_le _) pieces

end Reader

section Writer

/-- A character as it is written, or a byte that begins none. -/
inductive EscapePiece where
  | char (bytes : Bytes)
  | bad
  deriving DecidableEq, Repr

def EscapePiece.bytes : EscapePiece → Bytes
  | .char bytes => bytes
  | .bad => replacement

def EscapePiece.isChar : EscapePiece → Bool
  | .char _ => true
  | .bad => false

variable {src out c rest : Bytes} {b : UInt8} {capacity : ℕ} {pieces tail : List EscapePiece}

/-- The pieces of a text inside a JSON string; `skip` bytes belong to a character before. -/
def escapePiecesFrom : ℕ → Bytes → List EscapePiece
  | _, [] => []
  | skip + 1, _ :: src => escapePiecesFrom skip src
  | 0, b :: src =>
    match utf8SeqLen (b :: src) with
    | 0 => .bad :: escapePiecesFrom 0 src
    | more + 1 => .char (escapeChar ((b :: src).take (more + 1))) :: escapePiecesFrom more src

def escapePieces (src : Bytes) : List EscapePiece := escapePiecesFrom 0 src

/-- No character behind the first byte that begins none and has no room is short enough for the room that is left. -/
def NoBadGap (capacity : ℕ) : ℕ → List EscapePiece → Prop
  | _, [] => True
  | used, piece :: rest =>
    if used + piece.bytes.length ≤ capacity then NoBadGap capacity (used + piece.bytes.length) rest
    else piece = .bad → ∀ next ∈ rest.find? EscapePiece.isChar, capacity < used + next.bytes.length

/-- What `json_escape_append` writes of the pieces. -/
def writePieces (capacity : ℕ) (out : Bytes) : List EscapePiece → Bytes
  | [] => out
  | piece :: rest =>
    if out.length + piece.bytes.length ≤ capacity then writePieces capacity (out ++ piece.bytes) rest
    else if piece.isChar then out
    else writePieces capacity out rest

theorem escapePiecesFrom_skip (skip : ℕ) (src : Bytes) : escapePiecesFrom skip src = escapePieces (src.drop skip) := by
  induction skip generalizing src with
  | zero => rfl
  | succ skip ih =>
    cases src with
    | nil => rfl
    | cons b src => exact ih src

theorem escapePieces_char (h : Utf8Char c) (rest : Bytes) :
    escapePieces (c ++ rest) = .char (escapeChar c) :: escapePieces rest := by
  obtain ⟨first, more, rfl, -⟩ := h.shape
  have hlen := utf8SeqLen_char h rest
  unfold escapePieces
  rw [List.cons_append] at hlen ⊢
  rw [escapePiecesFrom, hlen, List.length_cons]
  dsimp only
  rw [escapePiecesFrom_skip, List.drop_left, ← List.cons_append, ← List.length_cons, List.take_left]
  rfl

theorem escapePieces_bad (h : utf8SeqLen (b :: rest) = 0) : escapePieces (b :: rest) = .bad :: escapePieces rest := by
  unfold escapePieces
  rw [escapePiecesFrom, h]

/-- The pieces come to the whole encoding. -/
theorem escapePieces_flatten (src : Bytes) : ((escapePieces src).map EscapePiece.bytes).flatten = jsonEscape src := by
  induction src using each_char with
  | nil => rfl
  | char hchar ih =>
    rw [escapePieces_char hchar, jsonEscape_char hchar, List.map_cons, List.flatten_cons, ih]
    rfl
  | bad hbad ih =>
    rw [escapePieces_bad hbad, jsonEscape_bad hbad, List.map_cons, List.flatten_cons, ih]
    rfl

theorem escapePieces_pos (src : Bytes) : ∀ piece ∈ escapePieces src, 0 < piece.bytes.length := by
  induction src using each_char with
  | nil => simp [escapePieces, escapePiecesFrom]
  | char hchar ih =>
    rw [escapePieces_char hchar, List.forall_mem_cons]
    exact ⟨(escapeChar_escaped hchar).pos, ih⟩
  | bad hbad ih =>
    rw [escapePieces_bad hbad, List.forall_mem_cons]
    exact ⟨replacement_escaped.pos, ih⟩

theorem writePieces_char (capacity : ℕ) (out bytes : Bytes) (rest : List EscapePiece) :
    writePieces capacity out (.char bytes :: rest) =
      if out.length + bytes.length ≤ capacity then writePieces capacity (out ++ bytes) rest else out := rfl

theorem writePieces_bad (capacity : ℕ) (out : Bytes) (rest : List EscapePiece) :
    writePieces capacity out (.bad :: rest) =
      if out.length + replacement.length ≤ capacity then writePieces capacity (out ++ replacement) rest
      else writePieces capacity out rest := rfl

/-- Nothing is written where the buffer is full. -/
theorem writePieces_full (h : capacity ≤ out.length) (hpos : ∀ piece ∈ pieces, 0 < piece.bytes.length) :
    writePieces capacity out pieces = out := by
  induction pieces with
  | nil => rfl
  | cons piece rest ih =>
    rw [List.forall_mem_cons] at hpos
    rw [writePieces, if_neg (by omega), ih hpos.2, ite_self]

/-- `json_escape_append` writes the pieces. -/
theorem jsonEscapeAppend_pieces (capacity : ℕ) (out src : Bytes) :
    jsonEscapeAppend capacity out src = writePieces capacity out (escapePieces src) := by
  unfold jsonEscapeAppend
  induction src using each_char generalizing out with
  | nil => rfl
  | @char c rest hchar ih =>
    have hpos := (escapeChar_escaped hchar).pos
    rw [escapePieces_char hchar, writePieces_char]
    obtain ⟨first, more, rfl, -⟩ := hchar.shape
    have hlen := utf8SeqLen_char hchar rest
    rw [List.cons_append] at hlen ⊢
    rw [escapeLoop]
    by_cases hfull : capacity ≤ out.length
    · rw [if_pos hfull, if_neg (by omega)]
    rw [if_neg hfull]
    cases hpiece : escapeByte first with
    | some piece =>
      obtain rfl := escapeByte_single hchar hpiece
      have hwritten : escapeChar [first] = piece := by
        simp [escapeChar, hpiece]
      rw [hwritten]
      dsimp only
      by_cases hfits : out.length + piece.length ≤ capacity
      · rw [if_neg (by omega), if_pos hfits, ← ih]
        exact congrArg (escapeLoop capacity 0 (out ++ piece)) (List.nil_append rest)
      · rw [if_pos (by omega), if_neg hfits]
    | none =>
      have hwritten : escapeChar (first :: more) = first :: more := by
        simp [escapeChar, hpiece]
      rw [hwritten, hlen, List.length_cons]
      dsimp only
      by_cases hfits : out.length + (more.length + 1) ≤ capacity
      · have hskip := escapeLoop_skip capacity more.length (out ++ (first :: more)) (more ++ rest)
        rw [List.drop_left] at hskip
        rw [if_neg (by omega), if_pos hfits, ← ih, ← List.cons_append, ← List.length_cons, List.take_left]
        exact hskip
      · rw [if_pos (by omega), if_neg hfits]
  | @bad b rest hbad ih =>
    have hnone : escapeByte b = none := by
      apply escapeByte_high
      rcases low_or_high b with hlow | hhigh
      · have hone := utf8SeqLen_char (.one hlow) rest
        rw [List.singleton_append, hbad] at hone
        cases hone
      · exact hhigh
    have hpos := replacement_escaped.pos
    rw [escapePieces_bad hbad, writePieces_bad, escapeLoop]
    by_cases hfull : capacity ≤ out.length
    · rw [if_pos hfull, if_neg (by omega), writePieces_full hfull (escapePieces_pos rest)]
    rw [if_neg hfull, hnone, hbad]
    dsimp only
    rw [ih]
    by_cases hfits : out.length + replacement.length ≤ capacity
    · rw [if_pos hfits, if_pos hfits]
    · rw [if_neg hfits, if_neg hfits, List.append_nil]

theorem writePieces_extends (capacity : ℕ) (out : Bytes) (pieces : List EscapePiece) :
    out <+: writePieces capacity out pieces := by
  induction pieces generalizing out with
  | nil => exact List.prefix_rfl
  | cons piece rest ih =>
    rw [writePieces]
    split_ifs
    · exact (List.prefix_append out piece.bytes).trans (ih _)
    · exact List.prefix_rfl
    · exact ih out

theorem writePieces_length_le (capacity : ℕ) (out : Bytes) (pieces : List EscapePiece) :
    (writePieces capacity out pieces).length ≤ max capacity out.length := by
  induction pieces generalizing out with
  | nil => exact le_max_right _ _
  | cons piece rest ih =>
    rw [writePieces]
    split_ifs with hfits
    · have hle := ih (out ++ piece.bytes)
      rw [List.length_append] at hle
      omega
    · exact le_max_right _ _
    · exact ih out

/-- Where no replacement fits, nothing more is written just when the next character does not fit either. -/
theorem writePieces_same_iff (hroom : capacity < out.length + replacement.length)
    (hpos : ∀ piece ∈ pieces, 0 < piece.bytes.length) : writePieces capacity out pieces = out ↔
      ∀ next ∈ pieces.find? EscapePiece.isChar, capacity < out.length + next.bytes.length := by
  induction pieces with
  | nil => simp [writePieces]
  | cons piece rest ih =>
    rw [List.forall_mem_cons] at hpos
    rw [writePieces]
    cases piece with
    | bad =>
      have hnot : ¬ out.length + EscapePiece.bad.bytes.length ≤ capacity := Nat.not_le.mpr hroom
      rw [if_neg hnot, if_neg (by simp [EscapePiece.isChar]), ih hpos.2,
        List.find?_cons_of_neg (by simp [EscapePiece.isChar])]
    | char bytes =>
      rw [List.find?_cons_of_pos (by rfl)]
      simp only [Option.mem_def, Option.some.injEq, forall_eq']
      by_cases hfits : out.length + (EscapePiece.char bytes).bytes.length ≤ capacity
      · rw [if_pos hfits]
        refine iff_of_false (fun heq => ?_) (by omega)
        have hfront := (writePieces_extends capacity (out ++ (EscapePiece.char bytes).bytes) rest).length_le
        rw [heq, List.length_append] at hfront
        have hone := hpos.1
        omega
      · rw [if_neg hfits, if_pos (by rfl)]
        exact iff_of_true rfl (by omega)

/-- The text of some pieces. -/
def escapedText (pieces : List EscapePiece) : Bytes := (pieces.map EscapePiece.bytes).flatten

theorem escapedText_cons (piece : EscapePiece) (pieces : List EscapePiece) :
    escapedText (piece :: pieces) = piece.bytes ++ escapedText pieces := by
  simp [escapedText]

/-- What is written of the pieces is cut at a piece just when there is no gap. -/
theorem writePieces_cut_iff (hpos : ∀ piece ∈ pieces, 0 < piece.bytes.length) :
    (∃ k, writePieces capacity out pieces = out ++ escapedText (pieces.take k)) ↔ NoBadGap capacity out.length pieces := by
  induction pieces generalizing out with
  | nil =>
    refine iff_of_true ⟨0, ?_⟩ trivial
    simp [writePieces, escapedText]
  | cons piece rest ih =>
    rw [List.forall_mem_cons] at hpos
    rw [writePieces, NoBadGap]
    by_cases hfits : out.length + piece.bytes.length ≤ capacity
    · have hlength : (out ++ piece.bytes).length = out.length + piece.bytes.length := List.length_append
      rw [if_pos hfits, if_pos hfits, ← hlength, ← ih hpos.2]
      constructor
      · rintro ⟨k, hk⟩
        cases k with
        | zero =>
          have hfront := (writePieces_extends capacity (out ++ piece.bytes) rest).length_le
          rw [hk, List.take_zero, List.length_append, List.length_append] at hfront
          have hone := hpos.1
          have hnil : (escapedText []).length = 0 := rfl
          omega
        | succ k =>
          refine ⟨k, ?_⟩
          rw [hk, List.take_succ_cons, escapedText_cons, List.append_assoc]
      · rintro ⟨k, hk⟩
        refine ⟨k + 1, ?_⟩
        rw [hk, List.take_succ_cons, escapedText_cons, List.append_assoc]
    · rw [if_neg hfits, if_neg hfits]
      cases piece with
      | char bytes =>
        rw [if_pos (by rfl)]
        refine iff_of_true ⟨0, ?_⟩ nofun
        simp [escapedText]
      | bad =>
        have hroom : capacity < out.length + replacement.length := Nat.not_le.mp hfits
        rw [if_neg (by simp [EscapePiece.isChar]), ← writePieces_same_iff hroom hpos.2]
        simp only [true_implies]
        constructor
        · rintro ⟨k, hk⟩
          cases k with
          | zero => simpa [escapedText] using hk
          | succ k =>
            have hlong := writePieces_length_le capacity out rest
            have hthree : 0 < replacement.length := replacement_escaped.pos
            rw [hk, List.take_succ_cons, escapedText_cons, List.length_append, List.length_append] at hlong
            simp only [EscapePiece.bytes] at hlong
            omega
        · intro hsame
          refine ⟨0, ?_⟩
          simpa [escapedText] using hsame

theorem jsonEscapeAppend_cut_iff (capacity : ℕ) (out src : Bytes) :
    (∃ added, jsonEscapeAppend capacity out src = out ++ added ∧
      CutAtPiece ((escapePieces src).map EscapePiece.bytes) added) ↔ NoBadGap capacity out.length (escapePieces src) := by
  rw [jsonEscapeAppend_pieces, ← writePieces_cut_iff (escapePieces_pos src)]
  constructor
  · rintro ⟨added, heq, k, rfl⟩
    refine ⟨k, ?_⟩
    rw [heq, escapedText, List.map_take]
  · rintro ⟨k, hk⟩
    refine ⟨_, hk, k, ?_⟩
    rw [escapedText, List.map_take]

end Writer

section Overflow

variable {buf key : Bytes} {len : ℕ} {pieces : List Bytes}

/-- A reader and a writer cut their texts at a piece just when there is no gap behind the first one that does not fit. -/
theorem overflow_cut_iff (h : literalPieces buf len key = .ok (some pieces)) (capacity room : ℕ) (out src : Bytes) :
    (∃ text, jsonExtractString buf len key capacity = .ok (some text) ∧
      (CutAtPiece pieces text ↔ NoGap capacity 0 pieces)) ∧
    ((∃ added, jsonEscapeAppend room out src = out ++ added ∧
        CutAtPiece ((escapePieces src).map EscapePiece.bytes) added) ↔
      NoBadGap room out.length (escapePieces src)) := by
  refine ⟨⟨putPieces capacity pieces, ?_, putPieces_cut_iff capacity pieces⟩, jsonEscapeAppend_cut_iff room out src⟩
  rw [jsonExtractString_pieces, h]
  rfl

/-- A string with a character of two bytes behind one of one byte. -/
def accented : Bytes := ascii "\x7b\"k\":\"a\\u00e9b\"\x7d"

theorem overflow_cut_accented :
    (∃ text, jsonExtractString accented accented.length (ascii "k") 3 = .ok (some text) ∧
      (CutAtPiece [[97], [0xc3, 0xa9], [98]] text ↔ NoGap 3 0 [[97], [0xc3, 0xa9], [98]])) ∧
    ((∃ added, jsonEscapeAppend 5 [34] [0xff, 97] = [34] ++ added ∧
        CutAtPiece ((escapePieces [0xff, 97]).map EscapePiece.bytes) added) ↔
      NoBadGap 5 1 (escapePieces [0xff, 97])) := by
  have hpieces : literalPieces accented accented.length (ascii "k") = .ok (some [[97], [0xc3, 0xa9], [98]]) := by
    decide +kernel
  exact overflow_cut_iff hpieces 3 5 [34] [0xff, 97]

/-- A buffer of two bytes takes `ab` of `aéb`, and one of one byte takes `a` behind a byte that begins no character. -/
theorem overflow_gap :
    ¬ (∀ buf len key capacity pieces text, literalPieces buf len key = .ok (some pieces) →
      jsonExtractString buf len key capacity = .ok (some text) → CutAtPiece pieces text) ∧
    ¬ ∀ capacity out src, ∃ added, jsonEscapeAppend capacity out src = out ++ added ∧
      CutAtPiece ((escapePieces src).map EscapePiece.bytes) added := by
  constructor
  · intro hall
    have hpieces : literalPieces accented accented.length (ascii "k") = .ok (some [[97], [0xc3, 0xa9], [98]]) := by
      decide +kernel
    have htext : jsonExtractString accented accented.length (ascii "k") 2 = .ok (some [97, 98]) := by
      decide +kernel
    obtain ⟨k, hk⟩ := hall _ _ _ _ _ _ hpieces htext
    rcases k with _ | _ | _ | k
    · cases hk
    · cases hk
    · cases hk
    · rw [List.take_of_length_le (by simp)] at hk
      cases hk
  · intro hall
    obtain ⟨added, hadded, k, hk⟩ := hall 1 [] [0xff, 97]
    have hwritten : jsonEscapeAppend 1 [] [0xff, 97] = [97] := by
      decide
    have hpieces : escapePieces [0xff, 97] = [.bad, .char [97]] := by
      decide
    rw [hwritten, List.nil_append] at hadded
    rw [hpieces, ← hadded] at hk
    rcases k with _ | _ | k
    · cases hk
    · cases hk
    · rw [List.take_of_length_le (by simp)] at hk
      cases hk

end Overflow

end MiniAgentOS
