import MiniAgentOS.Text.Capacity
import MiniAgentOS.Text.JsonText

/-! The inside of a string as the extractors read it, token by token, and as the grammar has it, character by
character. -/
namespace MiniAgentOS
open Checked

section Tokens

/-- A byte that stands for itself, an escape of one letter, or one of four digits. -/
inductive Token where
  | byte (b : UInt8) (plain : b ≠ quote ∧ b ≠ backslash)
  | letter (e : UInt8) (other : e ≠ 117)
  | word (d0 d1 d2 d3 : UInt8) (hex : ∀ d ∈ [d0, d1, d2, d3], isHex d)

def Token.text : Token → Bytes
  | .byte b _ => [b]
  | .letter e _ => [backslash, e]
  | .word d0 d1 d2 d3 _ => [backslash, 117, d0, d1, d2, d3]

/-- What an extractor stores for a token. The extractors differ in the escapes of one letter. -/
def Token.piece (letters : UInt8 → UInt8) : Token → Bytes
  | .byte b _ => [b]
  | .letter e _ => [letters e]
  | .word d0 d1 d2 d3 _ => codepointPiece (hexWord4 d0 d1 d2 d3)

def tokensText (tokens : List Token) : Bytes := tokens.flatMap Token.text

/-- The beginning of an escape that does not end. -/
inductive Unfinished : Bytes → Prop where
  | nil : Unfinished []
  | slash : Unfinished [backslash]
  | word {digits : Bytes} : digits.length < 4 → Unfinished (backslash :: 117 :: digits)

variable {tokens : List Token} {front : Bytes}

@[simp] theorem tokensText_nil : tokensText [] = [] := rfl

@[simp] theorem tokensText_cons (t : Token) (tokens : List Token) :
    tokensText (t :: tokens) = t.text ++ tokensText tokens := rfl

theorem Token.text_pos (t : Token) : 0 < t.text.length := by
  cases t <;> simp [Token.text]

theorem utf8Bytes_pos (cp : ℕ) : 0 < (utf8Bytes cp).length := by
  unfold utf8Bytes
  dsimp only
  repeat' split
  all_goals simp

theorem hexDigit_lt : ∀ b : UInt8, isHex b → hexDigit b < 16 := forall_byte (by decide +kernel)

theorem hexWord4_lt {d0 d1 d2 d3 : UInt8} (h : ∀ d ∈ [d0, d1, d2, d3], isHex d) : hexWord4 d0 d1 d2 d3 < 0x10000 := by
  have h0 := hexDigit_lt d0 (h d0 (by simp))
  have h1 := hexDigit_lt d1 (h d1 (by simp))
  have h2 := hexDigit_lt d2 (h d2 (by simp))
  have h3 := hexDigit_lt d3 (h d3 (by simp))
  unfold hexWord4
  omega

theorem codepointPiece_word {d0 d1 d2 d3 : UInt8} (h : ∀ d ∈ [d0, d1, d2, d3], isHex d) :
    codepointPiece (hexWord4 d0 d1 d2 d3) = utf8Bytes (hexWord4 d0 d1 d2 d3) := by
  have hlt := hexWord4_lt h
  exact if_pos (by omega)

theorem Token.piece_pos (letters : UInt8 → UInt8) (t : Token) : 0 < (t.piece letters).length := by
  cases t with
  | byte b plain => exact Nat.one_pos
  | letter e other => exact Nat.one_pos
  | word d0 d1 d2 d3 hex =>
    rw [Token.piece, codepointPiece_word hex]
    exact utf8Bytes_pos _

/-- The beginning of a token that is not whole. -/
theorem Token.cut (t : Token) (h : front <+: t.text) (hne : front ≠ t.text) : Unfinished front := by
  obtain ⟨rest, hrest⟩ := h
  cases t with
  | byte b plain =>
    match front, hrest with
    | [], _ => exact .nil
    | [a], hrest =>
      have hlen := congrArg List.length hrest
      simp [Token.text] at hlen
      subst hlen
      exact absurd (by simpa using hrest) hne
    | a :: c :: front, hrest => simp [Token.text] at hrest
  | letter e other =>
    match front, hrest with
    | [], _ => exact .nil
    | [a], hrest =>
      obtain ⟨rfl, -⟩ := List.cons.inj hrest
      exact .slash
    | [a, c], hrest =>
      have hlen := congrArg List.length hrest
      simp [Token.text] at hlen
      subst hlen
      exact absurd (by simpa using hrest) hne
    | a :: c :: d :: front, hrest => simp [Token.text] at hrest
  | word d0 d1 d2 d3 hex =>
    match front, hrest with
    | [], _ => exact .nil
    | [a], hrest =>
      obtain ⟨rfl, -⟩ := List.cons.inj hrest
      exact .slash
    | a :: c :: digits, hrest =>
      obtain ⟨rfl, htail⟩ := List.cons.inj hrest
      obtain ⟨rfl, -⟩ := List.cons.inj htail
      refine .word (Nat.lt_of_le_of_ne ?_ fun hfour => ?_)
      · have hlen := congrArg List.length hrest
        simp [Token.text] at hlen
        omega
      · have hlen := congrArg List.length hrest
        simp [Token.text, hfour] at hlen
        subst hlen
        exact hne (by simpa using hrest)

/-- A text that is cut off keeps its first tokens, and may keep the beginning of one more. -/
theorem tokensText_cut (h : front <+: tokensText tokens) :
    ∃ kept tail, kept <+: tokens ∧ Unfinished tail ∧ front = tokensText kept ++ tail := by
  induction tokens generalizing front with
  | nil => exact ⟨[], [], List.prefix_rfl, .nil, List.prefix_nil.mp h⟩
  | cons t tokens ih =>
    rcases List.prefix_or_prefix_of_prefix h (List.prefix_append t.text (tokensText tokens)) with hin | hout
    · by_cases hwhole : front = t.text
      · exact ⟨[t], [], by simp, .nil, by simp [hwhole]⟩
      · exact ⟨[], front, List.nil_prefix, t.cut hin hwhole, rfl⟩
    · obtain ⟨more, rfl⟩ := hout
      rw [tokensText_cons, List.prefix_append_right_inj] at h
      obtain ⟨kept, tail, hkept, htail, rfl⟩ := ih h
      refine ⟨t :: kept, tail, ?_, htail, by simp⟩
      rwa [List.prefix_cons_inj]

end Tokens

section Readers

variable {buf rest tail out : Bytes} {tokens : List Token} {off capacity : ℕ}

theorem hexNibble_hex : ∀ b : UInt8, isHex b → hexNibble b = .ok (some (hexDigit b)) := forall_byte (by decide +kernel)

theorem readHex4_word {d0 d1 d2 d3 : UInt8} (h : ∀ d ∈ [d0, d1, d2, d3], isHex d)
    (hdrop : buf.drop off = d0 :: d1 :: d2 :: d3 :: rest) :
    readHex4 buf off = .ok (some (hexWord4 d0 d1 d2 d3)) := by
  obtain ⟨-, h0⟩ := index_of_drop hdrop
  obtain ⟨-, h1⟩ := index_of_drop (@drop_of_drop buf _ off [d0] hdrop)
  obtain ⟨-, h2⟩ := index_of_drop (@drop_of_drop buf _ off [d0, d1] hdrop)
  obtain ⟨-, h3⟩ := index_of_drop (@drop_of_drop buf _ off [d0, d1, d2] hdrop)
  simp only [List.length_cons, List.length_nil] at h1 h2 h3
  have hd : ∀ d ∈ [d0, d1, d2, d3], hexNibble d = .ok (some (hexDigit d)) := fun d hmem => hexNibble_hex d (h d hmem)
  simp only [List.mem_cons, List.not_mem_nil, or_false, forall_eq_or_imp, forall_eq] at hd
  obtain ⟨hd0, hd1, hd2, hd3⟩ := hd
  unfold readHex4
  rw [h0, ok_bind, hd0, ok_bind]
  dsimp only
  rw [h1, ok_bind, hd1, ok_bind]
  dsimp only
  rw [h2, ok_bind, hd2, ok_bind]
  dsimp only
  rw [h3, ok_bind, hd3, ok_bind]
  rfl

/-- What ends a string, and what the strict readers make of all its pieces there. -/
inductive Ending (pieces : List Bytes) : Bytes → Option (List Bytes) → Prop where
  | closed (rest : Bytes) : Ending pieces (quote :: rest) (some pieces)
  | cut {tail : Bytes} : Unfinished tail → Ending pieces tail none

/-- The strict readers take a string that is closed, and no other. -/
theorem readPieces_tokens {r : Option (List Bytes)} (hend : Ending (tokens.map (Token.piece unescape)) tail r)
    (hdrop : buf.drop off = tokensText tokens ++ tail) : readPieces buf buf.length off = .ok r := by
  have hreturns : Returns (readPieces buf buf.length off) fun result => result = r := by
    refine returns_loop (fun s => ∃ done todo, done ++ todo = tokens ∧ s.2 = done.map (Token.piece unescape) ∧
      buf.drop s.1 = tokensText todo ++ tail) (fun s => buf.length - s.1) ?_ ⟨[], tokens, rfl, rfl, hdrop⟩
      (Nat.lt_succ_self _)
    rintro ⟨off, out⟩ ⟨done, todo, hall, hout, hdrop⟩
    dsimp only at hout hdrop ⊢
    cases todo with
    | nil =>
      rw [tokensText_nil, List.nil_append] at hdrop
      rw [List.append_nil] at hall
      cases hend with
      | closed rest =>
        obtain ⟨hoff, hindex⟩ := index_of_drop hdrop
        rw [if_pos hoff, hindex, ok_bind, if_pos rfl, hout, hall]
        exact Returns.pure rfl
      | cut hcut =>
        have hlen := congrArg List.length hdrop
        rw [List.length_drop] at hlen
        cases hcut with
        | nil =>
          rw [if_neg (by simp at hlen; omega)]
          exact Returns.pure rfl
        | slash =>
          obtain ⟨hoff, hindex⟩ := index_of_drop hdrop
          rw [if_pos hoff, hindex, ok_bind, if_neg (by decide), if_pos rfl, if_pos (by simp at hlen; omega)]
          exact Returns.pure rfl
        | word hfour =>
          obtain ⟨hoff, hindex⟩ := index_of_drop hdrop
          obtain ⟨hoff', hindex'⟩ := index_of_drop (@drop_of_drop buf _ off [backslash] hdrop)
          rw [List.length_singleton] at hoff' hindex'
          simp only [List.length_cons] at hlen
          rw [if_pos hoff, hindex, ok_bind, if_neg (by decide), if_pos rfl, if_neg (Nat.not_le.mpr hoff'), hindex',
            ok_bind, if_pos rfl, if_pos (by omega)]
          exact Returns.pure rfl
    | cons t todo =>
      have hnext : Returns (pure (.next (off + t.text.length, out ++ [t.piece unescape])) : Checked (Round _ _))
          (RoundPost (fun s => ∃ done todo, done ++ todo = tokens ∧ s.2 = done.map (Token.piece unescape) ∧
            buf.drop s.1 = tokensText todo ++ tail) (fun s => buf.length - s.1) (fun result => result = r)
            (off, out)) := by
        rw [tokensText_cons, List.append_assoc] at hdrop
        have hlen := congrArg List.length hdrop
        have hpos := t.text_pos
        rw [List.length_drop, List.length_append] at hlen
        rw [returns_pure, roundPost_next]
        refine ⟨⟨done ++ [t], todo, by simpa using hall, ?_, drop_of_drop hdrop⟩, by dsimp only; omega⟩
        rw [hout, List.map_append]
        rfl
      cases t with
      | byte b plain =>
        obtain ⟨hoff, hindex⟩ := index_of_drop hdrop
        rw [if_pos hoff, hindex, ok_bind, if_neg plain.1, if_neg plain.2]
        exact hnext
      | letter e other =>
        obtain ⟨hoff, hindex⟩ := index_of_drop hdrop
        obtain ⟨hoff', hindex'⟩ := index_of_drop (@drop_of_drop buf _ off [backslash] hdrop)
        rw [List.length_singleton] at hoff' hindex'
        rw [if_pos hoff, hindex, ok_bind, if_neg (by decide), if_pos rfl, if_neg (Nat.not_le.mpr hoff'), hindex',
          ok_bind, if_neg other]
        exact hnext
      | word d0 d1 d2 d3 hex =>
        obtain ⟨hoff, hindex⟩ := index_of_drop hdrop
        obtain ⟨hoff', hindex'⟩ := index_of_drop (@drop_of_drop buf _ off [backslash] hdrop)
        have hdigits : buf.drop (off + 2) = d0 :: d1 :: d2 :: d3 :: (tokensText todo ++ tail) :=
          @drop_of_drop buf _ off [backslash, 117] hdrop
        have hlen := congrArg List.length hdigits
        rw [List.length_singleton] at hoff' hindex'
        simp only [List.length_drop, List.length_cons] at hlen
        rw [if_pos hoff, hindex, ok_bind, if_neg (by decide), if_pos rfl, if_neg (Nat.not_le.mpr hoff'), hindex',
          ok_bind, if_pos rfl, if_neg (by omega), readHex4_word hex hdigits, ok_bind]
        exact hnext
  obtain ⟨result, hresult, rfl⟩ := hreturns
  exact hresult

theorem foldl_putPiece_full {pieces : List Bytes} (hfull : capacity ≤ out.length)
    (hpos : ∀ piece ∈ pieces, 0 < piece.length) : pieces.foldl (putPiece capacity) out = out := by
  induction pieces with
  | nil => rfl
  | cons piece pieces ih =>
    have hpiece := hpos piece List.mem_cons_self
    have hput : putPiece capacity out piece = out := if_neg (by omega)
    rw [List.foldl_cons, hput]
    exact ih fun other hother => hpos other (List.mem_cons_of_mem _ hother)

/-- The partial reader takes the tokens that are there, and stops where the buffer is full. -/
theorem readPartialString_tokens (hend : ∀ pieces, ∃ r, Ending pieces tail r)
    (hdrop : buf.drop off = tokensText tokens ++ tail) :
    readPartialString buf capacity off = .ok (putPieces capacity (tokens.map (Token.piece unescapePartial))) := by
  have hreturns : Returns (readPartialString buf capacity off) fun result =>
      result = putPieces capacity (tokens.map (Token.piece unescapePartial)) := by
    refine returns_loop (fun s => ∃ done todo, done ++ todo = tokens ∧
      s.2 = putPieces capacity (done.map (Token.piece unescapePartial)) ∧ buf.drop s.1 = tokensText todo ++ tail)
      (fun s => buf.length - s.1) ?_ ⟨[], tokens, rfl, rfl, hdrop⟩ (Nat.lt_succ_self _)
    rintro ⟨off, out⟩ ⟨done, todo, hall, hout, hdrop⟩
    dsimp only at hout hdrop ⊢
    by_cases hroom : out.length < capacity
    swap
    · rw [if_neg fun h => hroom h.2, returns_pure, roundPost_done, ← hall, List.map_append, putPieces,
        List.foldl_append]
      change out = _ at hout
      rw [← putPieces, ← hout]
      refine (foldl_putPiece_full (Nat.not_lt.mp hroom) fun piece hpiece => ?_).symm
      obtain ⟨t, -, rfl⟩ := List.mem_map.mp hpiece
      exact t.piece_pos _
    cases todo with
    | nil =>
      have hdone : Returns (pure (.done out) : Checked (Round (ℕ × Bytes) Bytes)) (RoundPost (fun s => ∃ done todo,
          done ++ todo = tokens ∧ s.2 = putPieces capacity (done.map (Token.piece unescapePartial)) ∧
          buf.drop s.1 = tokensText todo ++ tail) (fun s => buf.length - s.1) (fun result =>
          result = putPieces capacity (tokens.map (Token.piece unescapePartial))) (off, out)) := by
        rw [returns_pure, roundPost_done, hout, ← hall, List.append_nil]
      rw [tokensText_nil, List.nil_append] at hdrop
      obtain ⟨r, hr⟩ := hend []
      cases hr with
      | closed rest =>
        obtain ⟨hoff, hindex⟩ := index_of_drop hdrop
        rw [if_pos ⟨hoff, hroom⟩, hindex, ok_bind, if_pos rfl]
        exact hdone
      | cut hcut =>
        have hlen := congrArg List.length hdrop
        rw [List.length_drop] at hlen
        cases hcut with
        | nil =>
          rw [if_neg (by simp at hlen; omega)]
          exact hdone
        | slash =>
          obtain ⟨hoff, hindex⟩ := index_of_drop hdrop
          rw [if_pos ⟨hoff, hroom⟩, hindex, ok_bind, if_neg (by decide), if_neg (by decide),
            if_pos (by simp at hlen; omega)]
          exact hdone
        | word hfour =>
          obtain ⟨hoff, hindex⟩ := index_of_drop hdrop
          obtain ⟨hoff', hindex'⟩ := index_of_drop (@drop_of_drop buf _ off [backslash] hdrop)
          rw [List.length_singleton] at hoff' hindex'
          simp only [List.length_cons] at hlen
          rw [if_pos ⟨hoff, hroom⟩, hindex, ok_bind, if_neg (by decide), if_neg (by decide),
            if_neg (Nat.not_le.mpr hoff'), hindex', ok_bind, if_pos rfl, if_neg (by omega)]
          exact hdone
    | cons t todo =>
      have hnext : ∀ next, next = putPiece capacity out (t.piece unescapePartial) →
          Returns (pure (.next (off + t.text.length, next)) : Checked (Round (ℕ × Bytes) Bytes))
          (RoundPost (fun s => ∃ done todo, done ++ todo = tokens ∧
            s.2 = putPieces capacity (done.map (Token.piece unescapePartial)) ∧
            buf.drop s.1 = tokensText todo ++ tail) (fun s => buf.length - s.1) (fun result =>
            result = putPieces capacity (tokens.map (Token.piece unescapePartial))) (off, out)) := by
        rintro next rfl
        rw [tokensText_cons, List.append_assoc] at hdrop
        have hlen := congrArg List.length hdrop
        have hpos := t.text_pos
        rw [List.length_drop, List.length_append] at hlen
        rw [returns_pure, roundPost_next]
        refine ⟨⟨done ++ [t], todo, by simpa using hall, ?_, drop_of_drop hdrop⟩, by dsimp only; omega⟩
        rw [hout, List.map_append, List.map_singleton, putPieces_append]
      have hone : ∀ b : UInt8, putPiece capacity out [b] = out ++ [b] := fun b => if_pos hroom
      cases t with
      | byte b plain =>
        obtain ⟨hoff, hindex⟩ := index_of_drop hdrop
        rw [if_pos ⟨hoff, hroom⟩, hindex, ok_bind, if_neg plain.1, if_pos plain.2, extend_eq hroom, ok_bind]
        exact hnext _ (hone b).symm
      | letter e other =>
        obtain ⟨hoff, hindex⟩ := index_of_drop hdrop
        obtain ⟨hoff', hindex'⟩ := index_of_drop (@drop_of_drop buf _ off [backslash] hdrop)
        rw [List.length_singleton] at hoff' hindex'
        rw [if_pos ⟨hoff, hroom⟩, hindex, ok_bind, if_neg (by decide), if_neg (by decide),
          if_neg (Nat.not_le.mpr hoff'), hindex', ok_bind, if_neg other, extend_eq hroom, ok_bind]
        exact hnext _ (hone _).symm
      | word d0 d1 d2 d3 hex =>
        obtain ⟨hoff, hindex⟩ := index_of_drop hdrop
        obtain ⟨hoff', hindex'⟩ := index_of_drop (@drop_of_drop buf _ off [backslash] hdrop)
        have hdigits : buf.drop (off + 2) = d0 :: d1 :: d2 :: d3 :: (tokensText todo ++ tail) :=
          @drop_of_drop buf _ off [backslash, 117] hdrop
        have hlen := congrArg List.length hdigits
        rw [List.length_singleton] at hoff' hindex'
        simp only [List.length_drop, List.length_cons] at hlen
        rw [if_pos ⟨hoff, hroom⟩, hindex, ok_bind, if_neg (by decide), if_neg (by decide),
          if_neg (Nat.not_le.mpr hoff'), hindex', ok_bind, if_pos rfl, if_pos (by omega), readHex4_word hex hdigits,
          ok_bind]
        dsimp only
        rw [hout, appendUtf8Codepoint_pieces, ok_bind, ← hout]
        apply hnext
        rw [putPieces_append, ← hout]
        rfl
  obtain ⟨result, hresult, rfl⟩ := hreturns
  exact hresult

end Readers

section Characters

/-- What may stand in a string: a character, or an escape of one. -/
inductive StringUnit where
  | plain (c : Bytes) (char : Utf8Char c) (free : ∀ b ∈ c, b ≠ quote ∧ b ≠ backslash ∧ 0x20 ≤ b)
  | letter (e b : UInt8) (known : (e, b) ∈ jsonLetters)
  | unicode (d0 d1 d2 d3 : UInt8) (hex : ∀ d ∈ [d0, d1, d2, d3], isHex d)
      (scalar : hexWord4 d0 d1 d2 d3 < 0xd800 ∨ 0xe000 ≤ hexWord4 d0 d1 d2 d3)
  | surrogates (d0 d1 d2 d3 e0 e1 e2 e3 : UInt8) (hex : ∀ d ∈ [d0, d1, d2, d3], isHex d)
      (hex' : ∀ e ∈ [e0, e1, e2, e3], isHex e)
      (high : 0xd800 ≤ hexWord4 d0 d1 d2 d3 ∧ hexWord4 d0 d1 d2 d3 < 0xdc00)
      (low : 0xdc00 ≤ hexWord4 e0 e1 e2 e3 ∧ hexWord4 e0 e1 e2 e3 < 0xe000)

/-- The code point of a surrogate pair. -/
@[irreducible] def pairCodepoint (high low : ℕ) : ℕ := 0x10000 + (high - 0xd800) * 1024 + (low - 0xdc00)

theorem letter_token {e b : UInt8} (h : (e, b) ∈ jsonLetters) : e ≠ 117 ∧ b ≤ 0x7f ∧ unescapePartial e = b ∧
    (unescape e = b ↔ e ≠ 98 ∧ e ≠ 102) := by
  simp only [jsonLetters, List.mem_cons, Prod.mk.injEq, List.not_mem_nil, or_false] at h
  rcases h with ⟨rfl, rfl⟩ | ⟨rfl, rfl⟩ | ⟨rfl, rfl⟩ | ⟨rfl, rfl⟩ | ⟨rfl, rfl⟩ | ⟨rfl, rfl⟩ | ⟨rfl, rfl⟩ | ⟨rfl, rfl⟩ <;>
    decide

namespace StringUnit

def text : StringUnit → Bytes
  | plain c _ _ => c
  | letter e _ _ => [backslash, e]
  | unicode d0 d1 d2 d3 _ _ => [backslash, 117, d0, d1, d2, d3]
  | surrogates d0 d1 d2 d3 e0 e1 e2 e3 _ _ _ _ =>
    [backslash, 117, d0, d1, d2, d3, backslash, 117, e0, e1, e2, e3]

/-- The character, in UTF-8. -/
def decoded : StringUnit → Bytes
  | plain c _ _ => c
  | letter _ b _ => [b]
  | unicode d0 d1 d2 d3 _ _ => utf8Bytes (hexWord4 d0 d1 d2 d3)
  | surrogates d0 d1 d2 d3 e0 e1 e2 e3 _ _ _ _ =>
    utf8Bytes (pairCodepoint (hexWord4 d0 d1 d2 d3) (hexWord4 e0 e1 e2 e3))

def tokens : StringUnit → List Token
  | plain c _ free => c.pmap (fun b h => .byte b ⟨h.1, h.2.1⟩) free
  | letter e _ known => [.letter e (letter_token known).1]
  | unicode d0 d1 d2 d3 hex _ => [.word d0 d1 d2 d3 hex]
  | surrogates d0 d1 d2 d3 e0 e1 e2 e3 hex hex' _ _ => [.word d0 d1 d2 d3 hex, .word e0 e1 e2 e3 hex']

def IsPair : StringUnit → Bool
  | surrogates .. => true
  | _ => false

def IsPlain : StringUnit → Bool
  | plain .. => true
  | _ => false

/-- No surrogate pair, and neither `\b` nor `\f`. -/
def Simple : StringUnit → Prop
  | letter e _ _ => e ≠ 98 ∧ e ≠ 102
  | surrogates .. => False
  | _ => True

end StringUnit

def unitsText (units : List StringUnit) : Bytes := units.flatMap StringUnit.text

def unitsDecoded (units : List StringUnit) : Bytes := units.flatMap StringUnit.decoded

def unitsPieces (letters : UInt8 → UInt8) (units : List StringUnit) : List Bytes :=
  units.flatMap fun u => u.tokens.map (Token.piece letters)

variable {units : List StringUnit} {u : StringUnit} {letters : UInt8 → UInt8} {out more : Bytes} {capacity : ℕ}

@[simp] theorem unitsText_cons (u : StringUnit) (units : List StringUnit) :
    unitsText (u :: units) = u.text ++ unitsText units := rfl

@[simp] theorem unitsDecoded_cons (u : StringUnit) (units : List StringUnit) :
    unitsDecoded (u :: units) = u.decoded ++ unitsDecoded units := rfl

@[simp] theorem unitsPieces_cons (letters : UInt8 → UInt8) (u : StringUnit) (units : List StringUnit) :
    unitsPieces letters (u :: units) = u.tokens.map (Token.piece letters) ++ unitsPieces letters units := rfl

theorem jsonChar_iff {text decoded : Bytes} : JsonChar text decoded ↔
    ∃ u : StringUnit, u.text = text ∧ u.decoded = decoded := by
  constructor
  · intro h
    cases h with
    | plain char free => exact ⟨.plain _ char free, rfl, rfl⟩
    | letter known => exact ⟨.letter _ _ known, rfl, rfl⟩
    | unicode hex scalar => exact ⟨.unicode _ _ _ _ hex scalar, rfl, rfl⟩
    | @surrogates d0 d1 d2 d3 e0 e1 e2 e3 hex high low =>
      have hd : ∀ d ∈ [d0, d1, d2, d3], isHex d := fun d hd => hex d (List.mem_append_left [e0, e1, e2, e3] hd)
      have he : ∀ e ∈ [e0, e1, e2, e3], isHex e := fun e he => hex e (List.mem_append_right [d0, d1, d2, d3] he)
      refine ⟨.surrogates d0 d1 d2 d3 e0 e1 e2 e3 hd he high low, rfl, ?_⟩
      unfold StringUnit.decoded pairCodepoint
      rfl
  · rintro ⟨u, rfl, rfl⟩
    cases u with
    | plain c char free => exact .plain char free
    | letter e b known => exact .letter known
    | unicode d0 d1 d2 d3 hex scalar => exact .unicode hex scalar
    | surrogates d0 d1 d2 d3 e0 e1 e2 e3 hex hex' high low =>
      unfold StringUnit.decoded pairCodepoint
      refine @JsonChar.surrogates d0 d1 d2 d3 e0 e1 e2 e3 (fun d hd => ?_) high low
      rcases List.mem_append.mp (show d ∈ [d0, d1, d2, d3] ++ [e0, e1, e2, e3] from hd) with h | h
      · exact hex d h
      · exact hex' d h

/-- The strings of the grammar are the lists of units. -/
theorem jsonChars_iff {text decoded : Bytes} : JsonChars text decoded ↔
    ∃ units, unitsText units = text ∧ unitsDecoded units = decoded := by
  constructor
  · intro h
    induction h with
    | nil => exact ⟨[], rfl, rfl⟩
    | cons hchar _ ih =>
      obtain ⟨u, rfl, rfl⟩ := jsonChar_iff.mp hchar
      obtain ⟨units, rfl, rfl⟩ := ih
      exact ⟨u :: units, rfl, rfl⟩
  · rintro ⟨units, rfl, rfl⟩
    induction units with
    | nil => exact .nil
    | cons u units ih => exact .cons (jsonChar_iff.mpr ⟨u, rfl, rfl⟩) ih

theorem flatMap_pmap_byte (letters : UInt8 → UInt8) {c : Bytes} (free : ∀ b ∈ c, b ≠ quote ∧ b ≠ backslash ∧ 0x20 ≤ b) :
    (c.pmap (fun b h => Token.byte b ⟨h.1, h.2.1⟩) free).map (Token.piece letters) = c.map ([·]) := by
  rw [List.map_pmap]
  exact List.pmap_eq_map free

theorem flatten_singles (c : Bytes) : (c.map ([·])).flatten = c := by
  induction c with
  | nil => rfl
  | cons b c ih => rw [List.map_cons, List.flatten_cons, ih, List.singleton_append]

theorem tokens_text (u : StringUnit) : tokensText u.tokens = u.text := by
  cases u with
  | plain c char free =>
    have hpmap : (c.pmap (fun b h => Token.byte b ⟨h.1, h.2.1⟩) free).map Token.text = c.map ([·]) := by
      rw [List.map_pmap]
      exact List.pmap_eq_map free
    change (c.pmap _ free).flatMap Token.text = c
    rw [List.flatMap_def, hpmap, flatten_singles]
  | letter e b known => rfl
  | unicode d0 d1 d2 d3 hex scalar => rfl
  | surrogates d0 d1 d2 d3 e0 e1 e2 e3 hex hex' high low => rfl

theorem unitsText_tokens (units : List StringUnit) : unitsText units = tokensText (units.flatMap StringUnit.tokens) := by
  unfold unitsText tokensText
  rw [List.flatMap_assoc]
  exact List.flatMap_congr fun u _ => (tokens_text u).symm

theorem unitsPieces_tokens (letters : UInt8 → UInt8) (units : List StringUnit) :
    unitsPieces letters units = (units.flatMap StringUnit.tokens).map (Token.piece letters) := by
  rw [List.map_flatMap]
  rfl

theorem piece_pos_of_mem {piece : Bytes} (h : piece ∈ unitsPieces letters units) : 0 < piece.length := by
  rw [unitsPieces_tokens] at h
  obtain ⟨t, -, rfl⟩ := List.mem_map.mp h
  exact t.piece_pos letters

/-- The pieces of a unit make its character. -/
theorem pieces_flatten (hpair : u.IsPair = false) (hletter : ∀ e b known, u = .letter e b known → letters e = b) :
    (u.tokens.map (Token.piece letters)).flatten = u.decoded := by
  cases u with
  | plain c char free =>
    change ((c.pmap _ free).map _).flatten = c
    rw [flatMap_pmap_byte, flatten_singles]
  | letter e b known =>
    have hb := hletter e b known rfl
    simp [StringUnit.tokens, StringUnit.decoded, Token.piece, hb]
  | unicode d0 d1 d2 d3 hex scalar =>
    simp [StringUnit.tokens, StringUnit.decoded, Token.piece, codepointPiece_word hex]
  | surrogates => cases hpair

theorem pieces_partial (hpair : u.IsPair = false) : (u.tokens.map (Token.piece unescapePartial)).flatten = u.decoded :=
  pieces_flatten hpair fun _ _ known _ => (letter_token known).2.2.1

theorem pieces_simple (h : u.Simple) : (u.tokens.map (Token.piece unescape)).flatten = u.decoded := by
  refine pieces_flatten ?_ fun e b known hu => ?_
  · cases u with
    | surrogates => exact h.elim
    | _ => rfl
  · subst hu
    exact (letter_token known).2.2.2.mpr h

theorem decoded_pos (u : StringUnit) : 0 < u.decoded.length := by
  cases u with
  | plain c char free =>
    cases char <;> simp [StringUnit.decoded]
  | letter e b known => exact Nat.one_pos
  | unicode d0 d1 d2 d3 hex scalar => exact utf8Bytes_pos _
  | surrogates d0 d1 d2 d3 e0 e1 e2 e3 hex hex' high low => exact utf8Bytes_pos _

/-- The encoding of a code point has one low byte, or begins with a high one. -/
theorem utf8Bytes_head (cp : ℕ) : (∃ b, utf8Bytes cp = [b] ∧ b ≤ 0x7f) ∨
    ∃ b more, utf8Bytes cp = b :: more ∧ more ≠ [] ∧ 0xc0 ≤ b := by
  have htwo : ∀ b : UInt8, 0xc0 ≤ 0xc0 ||| b ∧ 0xc0 ≤ 0xe0 ||| b ∧ 0xc0 ≤ 0xf0 ||| b := forall_byte (by decide +kernel)
  unfold utf8Bytes
  dsimp only
  split_ifs with hone
  · refine .inl ⟨_, rfl, ?_⟩
    rw [UInt8.le_iff_toNat_le, UInt8.toNat_ofNat_of_lt' (by unfold UInt8.size; omega)]
    exact hone
  · exact .inr ⟨_, _, rfl, by simp, (htwo _).1⟩
  · exact .inr ⟨_, _, rfl, by simp, (htwo _).2.1⟩
  · exact .inr ⟨_, _, rfl, by simp, (htwo _).2.2⟩

theorem decoded_single (h : u.decoded.length = 1) : ∃ b, u.decoded = [b] ∧ b ≤ 0x7f := by
  have hutf8 : ∀ cp, (utf8Bytes cp).length = 1 → ∃ b, utf8Bytes cp = [b] ∧ b ≤ 0x7f := by
    intro cp hone
    rcases utf8Bytes_head cp with hlow | ⟨b, more, heq, hmore, -⟩
    · exact hlow
    · rw [heq, List.length_cons] at hone
      exact absurd (List.length_eq_zero_iff.mp (by omega)) hmore
  cases u with
  | plain c char free =>
    rcases char.high with hlow | hhigh
    · exact hlow
    · cases char with
      | one hle =>
        have hge := hhigh _ List.mem_cons_self
        exact ⟨_, rfl, hle⟩
      | _ => simp [StringUnit.decoded] at h
  | letter e b known => exact ⟨b, rfl, (letter_token known).2.1⟩
  | unicode d0 d1 d2 d3 hex scalar => exact hutf8 _ h
  | surrogates d0 d1 d2 d3 e0 e1 e2 e3 hex hex' high low => exact hutf8 _ h

/-- An escape of a character beyond ASCII. -/
theorem decoded_wide (hplain : u.IsPlain = false) (h : 1 < u.decoded.length) : ∃ b more, u.decoded = b :: more ∧ 0xc0 ≤ b := by
  have hutf8 : ∀ cp, 1 < (utf8Bytes cp).length → ∃ b more, utf8Bytes cp = b :: more ∧ 0xc0 ≤ b := by
    intro cp hlong
    rcases utf8Bytes_head cp with ⟨b, heq, -⟩ | ⟨b, more, heq, -, hhigh⟩
    · rw [heq] at hlong
      exact absurd hlong (Nat.lt_irrefl 1)
    · exact ⟨b, more, heq, hhigh⟩
  cases u with
  | plain => cases hplain
  | letter e b known => exact absurd h (Nat.lt_irrefl 1)
  | unicode d0 d1 d2 d3 hex scalar => exact hutf8 _ h
  | surrogates d0 d1 d2 d3 e0 e1 e2 e3 hex hex' high low => exact hutf8 _ h

theorem utf8Bytes_length_le {cp : ℕ} (h : cp ≤ 0xffff) : (utf8Bytes cp).length ≤ 3 := by
  unfold utf8Bytes
  dsimp only
  split_ifs <;> simp

theorem utf8Bytes_surrogate {cp : ℕ} (hlow : 0xd800 ≤ cp) (hhigh : cp < 0xe000) :
    ∃ b c, utf8Bytes cp = [0xed, b, c] := by
  have hlead : cp / 4096 = 13 := by omega
  unfold utf8Bytes
  dsimp only
  rw [if_neg (by omega), if_neg (by omega), if_pos (by omega), hlead]
  exact ⟨_, _, rfl⟩

theorem utf8Bytes_beyond {cp : ℕ} (h : 0xffff < cp) : ∃ b c d e, utf8Bytes cp = [b, c, d, e] ∧ 0xf0 ≤ b := by
  have hlead : ∀ b : UInt8, 0xf0 ≤ 0xf0 ||| b := forall_byte (by decide +kernel)
  unfold utf8Bytes
  dsimp only
  rw [if_neg (by omega), if_neg (by omega), if_neg (by omega)]
  exact ⟨_, _, _, _, rfl, hlead _⟩

/-- A surrogate pair is read as two characters that it does not stand for. -/
theorem pair_pieces (letters : UInt8 → UInt8) (hpair : u.IsPair = true) :
    (∃ b c d e, u.tokens.map (Token.piece letters) = [[0xed, b, c], [0xed, d, e]]) ∧
    ∃ b c d e, u.decoded = [b, c, d, e] ∧ 0xf0 ≤ b := by
  cases u with
  | surrogates d0 d1 d2 d3 e0 e1 e2 e3 hex hex' high low =>
    constructor
    · obtain ⟨b, c, hhigh⟩ := utf8Bytes_surrogate high.1 (by omega : hexWord4 d0 d1 d2 d3 < 0xe000)
      obtain ⟨d, e, hlow⟩ := utf8Bytes_surrogate (by omega : 0xd800 ≤ hexWord4 e0 e1 e2 e3) low.2
      refine ⟨b, c, d, e, ?_⟩
      simp [StringUnit.tokens, Token.piece, codepointPiece_word hex, codepointPiece_word hex', hhigh, hlow]
    · exact utf8Bytes_beyond (by unfold pairCodepoint; omega)
  | _ => cases hpair

end Characters

section Room

variable {units : List StringUnit} {u : StringUnit} {out more target : Bytes} {capacity room : ℕ}

/-- Nothing that is stored in `room` bytes is out of order: no surrogate pair finds room, and what first finds room
behind an escape that does not fit begins like the character of that escape. -/
def InOrder : ℕ → List StringUnit → Prop
  | _, [] => True
  | room, u :: rest =>
    if u.decoded.length ≤ room then u.IsPair = false ∧ InOrder (room - u.decoded.length) rest
    else room = 0 ∨ u.IsPlain ∨ (room ≤ 2 ∧
      ∀ v ∈ rest.find? fun v => v.IsPlain || decide (v.decoded.length ≤ room), u.decoded.take room <+: v.decoded)

/-- Bytes go into the buffer up to its end. -/
theorem foldl_putPiece_bytes (h : out.length ≤ capacity) (c : Bytes) :
    (c.map ([·])).foldl (putPiece capacity) out = out ++ c.take (capacity - out.length) := by
  induction c generalizing out with
  | nil => simp
  | cons b c ih =>
    by_cases hroom : out.length < capacity
    · have hput : putPiece capacity out [b] = out ++ [b] := if_pos hroom
      have hlen : (out ++ [b]).length = out.length + 1 := by simp
      rw [List.map_cons, List.foldl_cons, hput, ih (by rw [hlen]; exact hroom), hlen, List.append_assoc]
      obtain ⟨room, hroom⟩ : ∃ room, capacity - out.length = room + 1 := ⟨capacity - out.length - 1, by omega⟩
      have hnext : capacity - (out.length + 1) = room := by omega
      rw [hroom, hnext, List.take_succ_cons]
      rfl
    · have hfull : capacity - out.length = 0 := by omega
      rw [hfull, List.take_zero, List.append_nil]
      refine foldl_putPiece_full (by omega) fun piece hpiece => ?_
      obtain ⟨a, -, rfl⟩ := List.mem_map.mp hpiece
      exact Nat.one_pos

theorem plain_pieces (letters : UInt8 → UInt8) (h : u.IsPlain = true) :
    u.tokens.map (Token.piece letters) = u.decoded.map ([·]) := by
  cases u with
  | plain c char free => exact flatMap_pmap_byte letters free
  | _ => cases h

theorem plain_not_pair (h : u.IsPlain = true) : u.IsPair = false := by
  cases u with
  | plain => rfl
  | _ => cases h

/-- A unit that is no surrogate pair is stored if it fits, or if it is not escaped. -/
theorem foldl_unit (hout : out.length ≤ capacity) (hpair : u.IsPair = false)
    (h : u.IsPlain = true ∨ u.decoded.length ≤ capacity - out.length) :
    (u.tokens.map (Token.piece unescapePartial)).foldl (putPiece capacity) out =
      out ++ u.decoded.take (capacity - out.length) := by
  rcases h with hplain | hfits
  · rw [plain_pieces unescapePartial hplain, foldl_putPiece_bytes hout]
  · have hpieces := pieces_partial hpair
    rw [foldl_putPiece_eq (by rw [hpieces]; omega), hpieces, List.take_of_length_le hfits]

/-- An escape that does not fit is dropped. -/
theorem foldl_dropped (hplain : u.IsPlain = false) (hlong : capacity - out.length < u.decoded.length)
    (hroom : 0 < capacity - out.length) (htwo : u.IsPair = true → capacity - out.length ≤ 2) :
    (u.tokens.map (Token.piece unescapePartial)).foldl (putPiece capacity) out = out := by
  cases u with
  | plain => cases hplain
  | letter e b known => exact absurd hlong (by simp only [StringUnit.decoded, List.length_singleton]; omega)
  | unicode d0 d1 d2 d3 hex scalar =>
    change putPiece capacity out (codepointPiece _) = out
    rw [codepointPiece_word hex]
    exact if_neg (by simp only [StringUnit.decoded] at hlong; omega)
  | surrogates d0 d1 d2 d3 e0 e1 e2 e3 hex hex' high low =>
    obtain ⟨⟨b, c, d, e, hpieces⟩, -⟩ := pair_pieces unescapePartial
      (show (StringUnit.surrogates d0 d1 d2 d3 e0 e1 e2 e3 hex hex' high low).IsPair = true from rfl)
    have hsmall := htwo rfl
    have hdrop : ∀ b c : UInt8, putPiece capacity out [0xed, b, c] = out := by
      intro b c
      refine if_neg ?_
      simp only [List.length_cons, List.length_nil]
      omega
    rw [hpieces, List.foldl_cons, List.foldl_cons, hdrop, hdrop]
    rfl

/-- A surrogate pair with room for one of its halves is not stored as its character. -/
theorem foldl_pair (letters : UInt8 → UInt8) (hpair : u.IsPair = true) (hroom : out.length + 3 ≤ capacity)
    (pieces : List Bytes) (more : Bytes) :
    ¬ (u.tokens.map (Token.piece letters) ++ pieces).foldl (putPiece capacity) out <+: out ++ (u.decoded ++ more) := by
  obtain ⟨⟨b, c, d, e, hpieces⟩, b', c', d', e', hdecoded, hhigh⟩ := pair_pieces letters hpair
  have hput : putPiece capacity out [0xed, b, c] = out ++ [0xed, b, c] := if_pos hroom
  rw [hpieces, List.foldl_append, List.foldl_cons, hput, hdecoded]
  intro h
  have hfront := ((foldl_putPiece_extends capacity _ [[0xed, d, e]]).trans
    (foldl_putPiece_extends capacity _ pieces)).trans h
  rw [List.prefix_append_right_inj, List.cons_append, List.cons_prefix_cons] at hfront
  obtain ⟨rfl, -⟩ := hfront
  exact absurd hhigh (by decide)

/-- What is stored behind an escape without room is in order just when it begins like the character of the escape. -/
theorem behind_dropped (hout : out.length ≤ capacity) (hroom : 0 < capacity - out.length)
    (htwo : capacity - out.length ≤ 2) (hlong : capacity - out.length < target.length)
    (hwide : ∃ b tail, target = b :: tail ∧ 0xc0 ≤ b) :
    (unitsPieces unescapePartial units).foldl (putPiece capacity) out <+: out ++ (target ++ more) ↔
      ∀ v ∈ units.find? (fun v => v.IsPlain || decide (v.decoded.length ≤ capacity - out.length)),
        target.take (capacity - out.length) <+: v.decoded := by
  induction units with
  | nil => simp [unitsPieces]
  | cons v units ih =>
    rw [unitsPieces_cons, List.foldl_append, List.find?_cons]
    by_cases hfinds : v.IsPlain = true ∨ v.decoded.length ≤ capacity - out.length
    · have htest : (v.IsPlain || decide (v.decoded.length ≤ capacity - out.length)) = true := by simpa using hfinds
      have hpair : v.IsPair = false := by
        rcases hfinds with hplain | hfits
        · exact plain_not_pair hplain
        · by_contra hpair
          obtain ⟨-, b, c, d, e, hdecoded, -⟩ := pair_pieces unescapePartial (by simpa using hpair)
          rw [hdecoded] at hfits
          simp only [List.length_cons, List.length_nil] at hfits
          omega
      rw [htest, foldl_unit hout hpair hfinds]
      simp only [Option.mem_def, Option.some.injEq, forall_eq']
      constructor
      · intro h
        have hfront := (foldl_putPiece_extends capacity _ (unitsPieces unescapePartial units)).trans h
        rw [List.prefix_append_right_inj] at hfront
        rcases Nat.lt_or_ge v.decoded.length (capacity - out.length) with hshort | hge
        · have hpos := decoded_pos v
          obtain ⟨b, hb, hlow⟩ := decoded_single (show v.decoded.length = 1 by omega)
          obtain ⟨a, tail, rfl, hhigh⟩ := hwide
          rw [List.take_of_length_le hshort.le, hb, List.cons_append, List.cons_prefix_cons] at hfront
          obtain ⟨rfl, -⟩ := hfront
          exact absurd (UInt8.le_trans hhigh hlow) (by decide)
        · have hsame : v.decoded.take (capacity - out.length) = target.take (capacity - out.length) := by
            rw [List.prefix_iff_eq_take.mp hfront, List.length_take, Nat.min_eq_left hge,
              List.take_append_of_le_length hlong.le]
          rw [← hsame]
          exact List.take_prefix _ _
      · intro h
        have hsame : v.decoded.take (capacity - out.length) = target.take (capacity - out.length) := by
          have hlen := List.prefix_iff_eq_take.mp h
          rw [hlen, List.length_take, Nat.min_eq_left hlong.le]
        rw [hsame, foldl_putPiece_full _ fun piece => piece_pos_of_mem, List.prefix_append_right_inj]
        · exact (List.take_prefix _ target).trans (List.prefix_append target more)
        · rw [List.length_append, List.length_take]
          omega
    · have htest : (v.IsPlain || decide (v.decoded.length ≤ capacity - out.length)) = false := by simpa using hfinds
      obtain ⟨hplain, hlarge⟩ := not_or.mp hfinds
      rw [htest, foldl_dropped (by simpa using hplain) (Nat.not_le.mp hlarge) hroom fun _ => htwo]
      exact ih

/-- What the partial reader stores is a prefix of the text just when it is stored in order. -/
theorem inOrder_iff (hout : out.length ≤ capacity) :
    (unitsPieces unescapePartial units).foldl (putPiece capacity) out <+: out ++ unitsDecoded units ↔
      InOrder (capacity - out.length) units := by
  induction units generalizing out with
  | nil => simp [unitsPieces, InOrder]
  | cons u units ih =>
    rw [unitsDecoded_cons, InOrder]
    have hpos := decoded_pos u
    by_cases hfits : u.decoded.length ≤ capacity - out.length
    · rw [if_pos hfits]
      cases hpair : u.IsPair with
      | true =>
        obtain ⟨-, b, c, d, e, hdecoded, -⟩ := pair_pieces unescapePartial hpair
        rw [hdecoded] at hfits
        simp only [List.length_cons, List.length_nil] at hfits
        rw [unitsPieces_cons]
        exact iff_of_false (foldl_pair _ hpair (by omega) _ _) (by simp)
      | false =>
        have hlen : (out ++ u.decoded).length = out.length + u.decoded.length := List.length_append
        rw [unitsPieces_cons, List.foldl_append, foldl_unit hout hpair (.inr hfits), List.take_of_length_le hfits,
          ← List.append_assoc, ih (by omega), hlen, Nat.sub_add_eq]
        simp
    · rw [if_neg hfits]
      rcases Nat.eq_zero_or_pos (capacity - out.length) with hzero | hroom
      · refine iff_of_true ?_ (.inl hzero)
        rw [foldl_putPiece_full (by omega) fun piece => piece_pos_of_mem]
        exact List.prefix_append _ _
      cases hplain : u.IsPlain with
      | true =>
        refine iff_of_true ?_ (.inr (.inl rfl))
        rw [unitsPieces_cons, List.foldl_append, foldl_unit hout (plain_not_pair hplain) (.inl hplain),
          foldl_putPiece_full _ fun piece => piece_pos_of_mem, List.prefix_append_right_inj]
        · exact (List.take_prefix _ u.decoded).trans (List.prefix_append _ _)
        · rw [List.length_append, List.length_take]
          omega
      | false =>
        by_cases htwo : capacity - out.length ≤ 2
        · rw [unitsPieces_cons, List.foldl_append, foldl_dropped hplain (Nat.not_le.mp hfits) hroom fun _ => htwo,
            behind_dropped hout hroom htwo (Nat.not_le.mp hfits) (decoded_wide hplain (by omega))]
          simp [htwo, hroom.ne']
        · have hpair : u.IsPair = true := by
            cases u with
            | plain => cases hplain
            | letter e b known => exact absurd hfits (by simp only [StringUnit.decoded, List.length_singleton]; omega)
            | unicode d0 d1 d2 d3 hex scalar =>
              have hlt := hexWord4_lt hex
              refine absurd hfits (not_not_intro ?_)
              have hthree := utf8Bytes_length_le (show hexWord4 d0 d1 d2 d3 ≤ 0xffff by omega)
              simp only [StringUnit.decoded]
              omega
            | surrogates => rfl
          rw [unitsPieces_cons]
          refine iff_of_false (foldl_pair _ hpair (by omega) _ _) ?_
          simp [htwo, hroom.ne']

/-- The strict readers store a text that fits exactly when its units are simple. -/
theorem simple_iff (hfits : out.length + (unitsDecoded units).length ≤ capacity) :
    (unitsPieces unescape units).foldl (putPiece capacity) out = out ++ unitsDecoded units ↔ ∀ u ∈ units, u.Simple := by
  induction units generalizing out with
  | nil => simp [unitsPieces, unitsDecoded]
  | cons u units ih =>
    rw [unitsDecoded_cons, List.length_append] at hfits
    rw [unitsPieces_cons, unitsDecoded_cons, List.forall_mem_cons]
    by_cases hsimple : u.Simple
    · have hpieces := pieces_simple hsimple
      have hunit : (u.tokens.map (Token.piece unescape)).foldl (putPiece capacity) out = out ++ u.decoded := by
        rw [foldl_putPiece_eq (by rw [hpieces]; omega), hpieces]
      rw [List.foldl_append, hunit, ← List.append_assoc, ih (by rw [List.length_append]; omega), and_iff_right hsimple]
    · refine iff_of_false (fun h => ?_) fun h => hsimple h.1
      cases u with
      | plain => exact hsimple trivial
      | unicode => exact hsimple trivial
      | letter e b known =>
        have hput : putPiece capacity out [unescape e] = out ++ [unescape e] := if_pos (by
          simp only [StringUnit.decoded, List.length_singleton] at hfits ⊢
          omega)
        change (unitsPieces unescape units).foldl _ (putPiece capacity out [unescape e]) = _ at h
        rw [hput] at h
        have hfront := foldl_putPiece_extends capacity (out ++ [unescape e]) (unitsPieces unescape units)
        rw [h, List.prefix_append_right_inj] at hfront
        exact hsimple ((letter_token known).2.2.2.mp (List.cons_prefix_cons.mp hfront).1)
      | surrogates d0 d1 d2 d3 e0 e1 e2 e3 hex hex' high low =>
        have hpair : (StringUnit.surrogates d0 d1 d2 d3 e0 e1 e2 e3 hex hex' high low).IsPair = true := rfl
        obtain ⟨-, b, c, d, e, hdecoded, -⟩ := pair_pieces unescape hpair
        rw [hdecoded] at hfits
        simp only [List.length_cons, List.length_nil] at hfits
        have hroom : out.length + 3 ≤ capacity := by omega
        apply foldl_pair unescape hpair hroom
          (unitsPieces unescape units) (unitsDecoded units)
        rw [h]

end Room

end MiniAgentOS
