import MiniAgentOS.Text.Literal
import MiniAgentOS.Text.Prefix

/-! The three decoders of JSON strings: what they make of a literal, and of one that is cut off. -/
namespace MiniAgentOS
open Checked

section Take

variable {buf key : Bytes} {len i : ℕ}

theorem index_take (h : i < len) : index (buf.take len) i = index buf i := by
  unfold index
  rw [List.getElem?_take_of_lt h]

theorem testAt_take (cls : UInt8 → Bool) (buf : Bytes) (len i : ℕ) :
    testAt cls (buf.take len) len i = testAt cls buf len i := by
  unfold testAt
  split_ifs with h
  · rw [index_take h]
  · rfl

theorem skipWhile_take (cls : UInt8 → Bool) (buf : Bytes) (len start : ℕ) :
    skipWhile cls (buf.take len) len start = skipWhile cls buf len start := by
  unfold skipWhile
  congr 1
  funext i
  split_ifs with h
  · rw [index_take h]
  · rfl

theorem matchesAt_take (h : i + key.length ≤ len) : matchesAt (buf.take len) i key = matchesAt buf i key := by
  induction key generalizing i with
  | nil => rfl
  | cons c key ih =>
    rw [List.length_cons] at h
    unfold matchesAt
    rw [index_take (by omega), ih (by omega)]

theorem quotedKeyAt_take (h : i + key.length + 2 ≤ len) :
    quotedKeyAt (buf.take len) key i = quotedKeyAt buf key i := by
  unfold quotedKeyAt
  rw [index_take (by omega), matchesAt_take (by omega), index_take (by omega)]

theorem readHex4_take (h : i + 4 ≤ len) : readHex4 (buf.take len) i = readHex4 buf i := by
  unfold readHex4
  rw [index_take (by omega), index_take (by omega), index_take (by omega), index_take (by omega)]

theorem jsonFindKeyFrom_take (buf key : Bytes) (len start : ℕ) :
    jsonFindKeyFrom (buf.take len) len key start = jsonFindKeyFrom buf len key start := by
  unfold jsonFindKeyFrom
  congr 1
  funext i
  split_ifs with h
  · rw [quotedKeyAt_take h.le]
    simp only [skipWhile_take, testAt_take]
  · rfl

theorem readString_take (buf : Bytes) (len capacity start : ℕ) :
    readString (buf.take len) len capacity start = readString buf len capacity start := by
  unfold readString
  congr 1
  funext state
  obtain ⟨off, out⟩ := state
  dsimp only
  by_cases hoff : off < len
  · rw [if_pos hoff, if_pos hoff, index_take hoff]
    by_cases hesc : off + 1 ≥ len
    · simp only [if_pos hesc]
    · simp only [if_neg hesc]
      rw [index_take (by omega)]
      by_cases hdigits : off + 5 ≥ len
      · simp only [if_pos hdigits]
      · simp only [if_neg hdigits]
        rw [readHex4_take (by omega)]
  · rw [if_neg hoff, if_neg hoff]

/-- Nothing behind the length is read. -/
theorem jsonExtractStringFrom_take (buf key : Bytes) (len capacity start : ℕ) :
    jsonExtractStringFrom (buf.take len) len key capacity start = jsonExtractStringFrom buf len key capacity start := by
  unfold jsonExtractStringFrom jsonFindValue
  simp only [jsonFindKeyFrom_take, skipWhile_take, testAt_take, readString_take]

end Take

section Values

variable {buf key text : Bytes} {start off capacity : ℕ}

/-- The value of the key, where that stands first from `start` on, begins at `off`, and the buffer ends in `text`
from there on. -/
structure StringAt (buf key : Bytes) (start off : ℕ) (text : Bytes) : Prop where
  found : ∃ i stop blanks, FoundKey buf key start i stop ∧ (∀ b ∈ blanks, isSpace b) ∧
    buf.drop stop = blanks ++ quote :: text ∧ off = stop + blanks.length

theorem StringAt.skip (h : StringAt buf key start off text) : ∃ i stop, FoundKey buf key start i stop ∧
    skipWhile isSpace buf buf.length stop = .ok off ∧ testAt (· == quote) buf buf.length off = .ok true ∧
    buf.drop (off + 1) = text := by
  obtain ⟨i, stop, blanks, hfound, hblanks, hdrop, rfl⟩ := h.found
  have hvalue := drop_of_drop hdrop
  obtain ⟨hoff, hindex⟩ := index_of_drop hvalue
  have htake : (blanks ++ quote :: text).takeWhile isSpace = blanks := by
    rw [List.takeWhile_append_of_pos hblanks, List.takeWhile_cons_of_neg (by decide), List.append_nil]
  refine ⟨i, stop, hfound, ?_, ?_, @drop_of_drop buf _ _ [quote] hvalue⟩
  · rw [skipWhile_eq isSpace (by omega), hdrop, htake]
  · rw [testAt, if_pos hoff, hindex]
    rfl

theorem StringAt.extract (capacity : ℕ) (h : StringAt buf key start off text) :
    jsonExtractStringFrom buf buf.length key capacity start =
      (fun r => r.map fun text => (off, text)) <$> readString buf buf.length capacity (off + 1) := by
  obtain ⟨i, stop, hfound, hskip, hquote, -⟩ := h.skip
  unfold jsonExtractStringFrom jsonFindValue
  rw [hfound.eq, ok_bind]
  dsimp only
  rw [hskip, Except.map_ok, ok_bind]
  dsimp only
  rw [hquote, ok_bind, if_pos rfl]
  cases readString buf buf.length capacity (off + 1) <;> rfl

/-- A place that the tests of the partial decoder take for the key has the key and its colon. -/
theorem not_keyAt_tests {i : ℕ} (hkey : ¬ KeyAt key (buf.drop i)) (hroom : i + key.length + 2 < buf.length) :
    quotedKeyAt buf key i = .ok false ∨ (quotedKeyAt buf key i = .ok true ∧
      ∃ off, skipWhile isSpace buf buf.length (i + key.length + 2) = .ok off ∧
        testAt (· == colon) buf buf.length off = .ok false) := by
  rw [quotedKeyAt_eq hroom.le]
  by_cases hmatch : quote :: key ++ [quote] <+: buf.drop i
  · right
    rw [decide_eq_true hmatch]
    obtain ⟨off, hskip, ⟨hlow, hhigh⟩, hblank, -⟩ := skipWhile_spec isSpace hroom.le (le_refl buf.length)
    refine ⟨rfl, off, hskip, ?_⟩
    unfold testAt
    by_cases hin : off < buf.length
    · rw [if_pos hin, index_eq hin, Except.map_ok]
      by_cases hcolon : buf[off] = colon
      · have hcell : buf[off]? = some colon := by rw [List.getElem?_eq_getElem hin, hcolon]
        exact absurd (keyAt_of_match hmatch hlow hblank hcell) hkey
      · rw [beq_false_of_ne hcolon]
    · rw [if_neg hin]
      rfl
  · left
    rw [decide_eq_false hmatch]

/-- The partial decoder finds the same value. -/
theorem StringAt.partial_extract (h : StringAt buf key 0 off text) :
    jsonExtractStringPartialLocal buf key capacity = readPartialString buf capacity (off + 1) := by
  obtain ⟨i, stop, hfound, hskip, hquote, -⟩ := h.skip
  obtain ⟨text, htext⟩ : ∃ text, readPartialString buf capacity (off + 1) = .ok text :=
    (readPartialString_returns buf capacity (off + 1)).imp fun _ h => h.1
  have hreturns : Returns (jsonExtractStringPartialLocal buf key capacity) fun r => r = text := by
    refine returns_loop (fun j => j ≤ i) (fun j => buf.length - j) ?_ (Nat.zero_le i) (by omega)
    intro j hj
    obtain ⟨hroom, hblanks, hcolon, -⟩ := hfound.ends.skip
    rw [if_pos (by omega)]
    rcases Nat.lt_or_eq_of_le hj with hlt | rfl
    · have hnext : Returns (pure (.next (j + 1)) : Checked (Round ℕ Bytes))
          (RoundPost (fun j => j ≤ i) (fun j => buf.length - j) (fun r => r = text) j) := by
        rw [returns_pure, roundPost_next]
        omega
      rcases not_keyAt_tests (hfound.misses j (Nat.zero_le j) hlt) (by omega) with hno | ⟨hyes, at', hat, hnot⟩
      · rw [hno, ok_bind, if_neg Bool.false_ne_true]
        exact hnext
      · rw [hyes, ok_bind, if_pos rfl, hat, ok_bind, hnot, ok_bind, if_neg Bool.false_ne_true]
        exact hnext
    · have hmatch : quotedKeyAt buf key j = .ok true := by
        obtain ⟨blanks, rest, -, hdrop⟩ := hfound.ends.keyAt
        rw [quotedKeyAt_eq hroom.le, hdrop, decide_eq_true]
        exact ⟨blanks ++ colon :: rest, by simp⟩
      have hstop : stop - 1 + 1 = stop := by
        obtain ⟨blanks, rest, -, -, rfl⟩ := hfound.ends
        omega
      rw [hmatch, ok_bind, if_pos rfl, hblanks, ok_bind, hcolon, ok_bind, if_pos rfl, hstop, hskip, ok_bind, hquote,
        ok_bind, if_pos rfl, htext]
      exact Returns.pure rfl
  obtain ⟨r, hr, rfl⟩ := hreturns
  rw [hr, htext]

end Values

section Decoders

variable {units : List StringUnit} {buf key rest front : Bytes} {start off len capacity : ℕ}

/-- The decoders return the text of the literal, wherever it stands. -/
structure Decodes (units : List StringUnit) (capacity : ℕ) : Prop where
  from_start : ∀ buf key len start off rest, len ≤ buf.length →
    StringAt (buf.take len) key start off (unitsText units ++ quote :: rest) →
    jsonExtractStringFrom buf len key capacity start = .ok (some (off, unitsDecoded units))
  whole : ∀ buf key len off rest, len ≤ buf.length →
    StringAt (buf.take len) key 0 off (unitsText units ++ quote :: rest) →
    jsonExtractString buf len key capacity = .ok (some (unitsDecoded units))
  lenient : ∀ buf key off rest, StringAt buf key 0 off (unitsText units ++ quote :: rest) →
    jsonExtractStringPartialLocal buf key capacity = .ok (unitsDecoded units)

/-- Of a literal that is cut off before its closing quote the strict decoders return nothing, and the partial one a
prefix of its text. -/
structure CutsOff (units : List StringUnit) (capacity : ℕ) : Prop where
  from_start : ∀ front, front <+: unitsText units → ∀ buf key len start off, len ≤ buf.length →
    StringAt (buf.take len) key start off front → jsonExtractStringFrom buf len key capacity start = .ok none
  whole : ∀ front, front <+: unitsText units → ∀ buf key len off, len ≤ buf.length →
    StringAt (buf.take len) key 0 off front → jsonExtractString buf len key capacity = .ok none
  lenient : ∀ front, front <+: unitsText units → ∀ buf key off, StringAt buf key 0 off front →
    ∃ out, jsonExtractStringPartialLocal buf key capacity = .ok out ∧ out <+: unitsDecoded units

theorem extract_closed (capacity : ℕ) (hlen : len ≤ buf.length)
    (h : StringAt (buf.take len) key start off (unitsText units ++ quote :: rest)) :
    jsonExtractStringFrom buf len key capacity start =
      .ok (some (off, putPieces capacity (unitsPieces unescape units))) := by
  obtain ⟨-, -, -, -, -, hdrop⟩ := h.skip
  have htake : (buf.take len).length = len := List.length_take_of_le hlen
  have hextract := h.extract capacity
  rw [htake] at hextract
  rw [unitsText_tokens] at hdrop
  have hread := readPieces_tokens (.closed rest) hdrop
  rw [htake] at hread
  rw [← jsonExtractStringFrom_take, hextract, readString_eq_pieces, hread, ← unitsPieces_tokens]
  rfl

theorem extract_cut (hfront : front <+: unitsText units) (hlen : len ≤ buf.length)
    (h : StringAt (buf.take len) key start off front) :
    jsonExtractStringFrom buf len key capacity start = .ok none := by
  obtain ⟨-, -, -, -, -, hdrop⟩ := h.skip
  have htake : (buf.take len).length = len := List.length_take_of_le hlen
  have hextract := h.extract capacity
  rw [htake] at hextract
  rw [unitsText_tokens] at hfront
  obtain ⟨kept, tail, -, htail, rfl⟩ := tokensText_cut hfront
  have hread := readPieces_tokens (.cut htail) hdrop
  rw [htake] at hread
  rw [← jsonExtractStringFrom_take, hextract, readString_eq_pieces, hread]
  rfl

theorem lenient_closed (h : StringAt buf key 0 off (unitsText units ++ quote :: rest)) :
    jsonExtractStringPartialLocal buf key capacity = .ok (putPieces capacity (unitsPieces unescapePartial units)) := by
  obtain ⟨-, -, -, -, -, hdrop⟩ := h.skip
  rw [unitsText_tokens] at hdrop
  rw [h.partial_extract, readPartialString_tokens (fun _ => ⟨_, .closed rest⟩) hdrop, unitsPieces_tokens]

/-- Of a literal that is cut off the partial decoder stores the first tokens. -/
theorem lenient_cut (capacity : ℕ) (hfront : front <+: unitsText units) (h : StringAt buf key 0 off front) :
    ∃ kept, kept <+: unitsPieces unescapePartial units ∧
      jsonExtractStringPartialLocal buf key capacity = .ok (putPieces capacity kept) := by
  obtain ⟨-, -, -, -, -, hdrop⟩ := h.skip
  rw [unitsText_tokens] at hfront
  obtain ⟨kept, tail, hkept, htail, rfl⟩ := tokensText_cut hfront
  refine ⟨kept.map (Token.piece unescapePartial), ?_, ?_⟩
  · rw [unitsPieces_tokens]
    exact hkept.map _
  · rw [h.partial_extract, readPartialString_tokens (fun _ => ⟨_, .cut htail⟩) hdrop]

/-- A buffer that is nothing but an empty key and the beginning of its value. -/
theorem stringAt_plain (text : Bytes) : StringAt (quote :: quote :: colon :: quote :: text) [] 0 3 text := by
  refine ⟨0, 3, [], ⟨le_rfl, fun j _ hj => absurd hj (Nat.not_lt_zero j), ?_⟩, by simp, rfl, rfl⟩
  exact ⟨[], quote :: text, by simp, rfl, rfl⟩

/-- The decoders read a literal as they should, cut off or not, exactly when its escapes are among those that they
know, where its text fits the buffer, and when the partial one stores it in order. -/
theorem decoders_iff (units : List StringUnit) (capacity : ℕ) :
    ((unitsDecoded units).length ≤ capacity → Decodes units capacity) ∧ CutsOff units capacity ↔
      ((unitsDecoded units).length ≤ capacity → ∀ u ∈ units, u.Simple) ∧ InOrder capacity units := by
  have hnil : ([] : Bytes).length ≤ capacity := Nat.zero_le capacity
  have horder : putPieces capacity (unitsPieces unescapePartial units) <+: unitsDecoded units ↔
      InOrder capacity units := inOrder_iff hnil
  have hsimple : (unitsDecoded units).length ≤ capacity →
      (putPieces capacity (unitsPieces unescape units) = unitsDecoded units ↔ ∀ u ∈ units, u.Simple) := by
    intro hfits
    have hroom : ([] : Bytes).length + (unitsDecoded units).length ≤ capacity := by simpa using hfits
    exact simple_iff hroom
  constructor
  · rintro ⟨hdecodes, hcuts⟩
    constructor
    · intro hfits
      have hread := (hdecodes hfits).from_start _ [] _ 0 3 [] le_rfl (by
        rw [List.take_length]
        exact stringAt_plain (unitsText units ++ [quote]))
      have hwhole : StringAt ((quote :: quote :: colon :: quote :: (unitsText units ++ [quote])).take
          (quote :: quote :: colon :: quote :: (unitsText units ++ [quote])).length) [] 0 3
          (unitsText units ++ [quote]) := by
        rw [List.take_length]
        exact stringAt_plain (unitsText units ++ [quote])
      have hclosed := extract_closed capacity le_rfl hwhole
      rw [hclosed] at hread
      exact (hsimple hfits).mp (congrArg Prod.snd (Option.some.inj (Except.ok.inj hread)))
    · obtain ⟨out, hout, hprefix⟩ := hcuts.lenient _ List.prefix_rfl _ [] 3 (stringAt_plain (unitsText units))
      have hdrop : (quote :: quote :: colon :: quote :: unitsText units).drop 4 =
          tokensText (units.flatMap StringUnit.tokens) ++ [] := by
        rw [List.append_nil, ← unitsText_tokens]
        rfl
      rw [(stringAt_plain (unitsText units)).partial_extract,
        readPartialString_tokens (fun _ => ⟨_, .cut .nil⟩) hdrop, ← unitsPieces_tokens] at hout
      rw [← horder, Except.ok.inj hout]
      exact hprefix
  · rintro ⟨hunits, hin⟩
    refine ⟨fun hfits => ⟨?_, ?_, ?_⟩, ?_, ?_, ?_⟩
    · intro buf key len start off rest hlen h
      rw [extract_closed capacity hlen h, (hsimple hfits).mpr (hunits hfits)]
    · intro buf key len off rest hlen h
      rw [jsonExtractString, extract_closed capacity hlen h, (hsimple hfits).mpr (hunits hfits)]
      rfl
    · intro buf key off rest h
      have hpair : ∀ u ∈ units, (u.tokens.map (Token.piece unescapePartial)).flatten = u.decoded := by
        intro u hu
        apply pieces_partial
        have hgood := hunits hfits u hu
        cases u with
        | surrogates => exact hgood.elim
        | _ => rfl
      have hflatten : (unitsPieces unescapePartial units).flatten = unitsDecoded units := by
        unfold unitsPieces unitsDecoded
        rw [List.flatMap_def, List.flatMap_def, List.flatten_flatten, List.map_map]
        exact congrArg List.flatten (List.map_congr_left hpair)
      rw [lenient_closed h, putPieces_eq_iff.mpr (by rwa [hflatten]), hflatten]
    · exact fun front hfront buf key len start off hlen h => extract_cut hfront hlen h
    · intro front hfront buf key len off hlen h
      rw [jsonExtractString, extract_cut hfront hlen h]
      rfl
    · intro front hfront buf key off h
      obtain ⟨kept, ⟨more, hmore⟩, hread⟩ := lenient_cut capacity hfront h
      refine ⟨_, hread, ?_⟩
      have hall := horder.mpr hin
      rw [← hmore, putPieces, List.foldl_append] at hall
      exact (foldl_putPiece_extends capacity _ more).trans hall

/-- `\b` is read as the letter. -/
theorem decoders_backspace : ¬ ∀ units capacity,
    ((unitsDecoded units).length ≤ capacity → Decodes units capacity) ∧ CutsOff units capacity := by
  intro h
  have hread := ((h [.letter 98 8 (by decide)] 1).1 (by decide)).whole _ [] _ 3 [] le_rfl (by
    rw [List.take_length]
    exact stringAt_plain (ascii "\\b\""))
  exact absurd hread (by decide +kernel)

end Decoders

end MiniAgentOS
