import MiniAgentOS.Text.FlatObject

/-! What the extractors find in the front of a text they find in the whole text. -/
namespace MiniAgentOS
open Checked

variable {buf key more : Bytes} {start off capacity : ℕ}

section Loops

/-- A loop that finds something finds it with any body that agrees on all rounds but the vain ones. -/
theorem loop_found {σ α : Type} {body whole : σ → Checked (Round σ (Option α))} {state : σ} {result : α}
    (hagree : ∀ state round, body state = .ok round → round ≠ .done none → whole state = .ok round)
    {fuel : ℕ} (h : loop body fuel state = .ok (some result)) : loop whole fuel state = .ok (some result) := by
  induction fuel generalizing state with
  | zero => cases h
  | succ fuel ih =>
    rw [loop] at h ⊢
    cases hround : body state with
    | error trap =>
      rw [hround] at h
      cases h
    | ok round =>
      rw [hround, ok_bind] at h
      cases round with
      | next after =>
        rw [hagree state _ hround (by simp), ok_bind]
        exact ih h
      | done found =>
        have hfound : found = some result := Except.ok.inj h
        rw [hagree state _ hround (by simp [hfound]), ok_bind, hfound]
        rfl

theorem index_append {b : UInt8} (h : index buf off = .ok b) : index (buf ++ more) off = .ok b := by
  unfold index at h ⊢
  cases hcell : buf[off]? with
  | none =>
    rw [hcell] at h
    cases h
  | some c =>
    have hlt : off < buf.length := (List.getElem?_eq_some_iff.mp hcell).1
    rw [List.getElem?_append_left hlt, hcell]
    rw [hcell] at h
    exact h

theorem index_lt {b : UInt8} (h : index buf off = .ok b) : off < buf.length := by
  by_contra hout
  unfold index at h
  rw [List.getElem?_eq_none (by omega)] at h
  cases h

theorem index_append_of_lt (h : off < buf.length) : index (buf ++ more) off = index buf off := by
  rw [index_eq h]
  exact index_append (index_eq h)

/-- A scan that stops within the front stops there in the whole. -/
theorem skipWhile_append (cls : UInt8 → Bool) (h : skipWhile cls buf buf.length start = .ok off)
    (hstart : start ≤ buf.length) (hroom : off < buf.length) :
    skipWhile cls (buf ++ more) (buf ++ more).length start = .ok off := by
  have hfull : start ≤ (buf ++ more).length := by
    rw [List.length_append]
    omega
  rw [skipWhile_eq cls hstart] at h
  rw [skipWhile_eq cls hfull, List.drop_append_of_le_length hstart, List.takeWhile_append, if_neg]
  · exact h
  · intro hall
    rw [List.length_drop] at hall
    have hoff := Except.ok.inj h
    omega

end Loops

section Keys

/-- The key stands at `i` with a colon behind it, and its value begins at `off`. -/
def KeyEnds (buf key : Bytes) (i off : ℕ) : Prop := ∃ blanks rest, (∀ b ∈ blanks, isSpace b) ∧
  buf.drop i = quote :: key ++ quote :: (blanks ++ colon :: rest) ∧ off = i + key.length + 3 + blanks.length

/-- The key stands for the first time from `start` on, and its value begins at `off`. -/
structure FoundKey (buf key : Bytes) (start i off : ℕ) : Prop where
  low : start ≤ i
  misses : ∀ j, start ≤ j → j < i → ¬ KeyAt key (buf.drop j)
  ends : KeyEnds buf key i off

variable {i : ℕ}

theorem KeyEnds.keyAt (h : KeyEnds buf key i off) : KeyAt key (buf.drop i) := by
  obtain ⟨blanks, rest, hblanks, hdrop, -⟩ := h
  exact ⟨blanks, rest, hblanks, hdrop⟩

theorem drop_key {blanks rest : Bytes} (h : buf.drop i = quote :: key ++ quote :: (blanks ++ colon :: rest)) :
    buf.drop (i + key.length + 2) = blanks ++ colon :: rest := by
  have hsplit : quote :: key ++ quote :: (blanks ++ colon :: rest) =
      (quote :: key ++ [quote]) ++ (blanks ++ colon :: rest) := by simp
  rw [hsplit] at h
  rw [← drop_of_drop h]
  congr 1
  simp
  omega

theorem takeWhile_blanks_colon {blanks rest : Bytes} (h : ∀ b ∈ blanks, isSpace b) :
    (blanks ++ colon :: rest).takeWhile isSpace = blanks := by
  rw [List.takeWhile_append_of_pos h, List.takeWhile_cons_of_neg (by decide), List.append_nil]

/-- The blanks behind the key end at its colon. -/
theorem KeyEnds.skip (h : KeyEnds buf key i off) : i + key.length + 2 < buf.length ∧
    skipWhile isSpace buf buf.length (i + key.length + 2) = .ok (off - 1) ∧
    testAt (· == colon) buf buf.length (off - 1) = .ok true ∧ off ≤ buf.length := by
  obtain ⟨blanks, rest, hblanks, hdrop, hoff⟩ := h
  have hbehind := drop_key hdrop
  have hlen := congrArg List.length hbehind
  rw [List.length_drop, List.length_append, List.length_cons] at hlen
  have hlast : off - 1 = i + key.length + 2 + blanks.length := by omega
  have hcolon : buf[i + key.length + 2 + blanks.length]? = some colon := by
    rw [← List.getElem?_drop, hbehind, List.getElem?_append_right le_rfl, Nat.sub_self]
    rfl
  have hroom : i + key.length + 2 + blanks.length < buf.length := by omega
  refine ⟨by omega, ?_, ?_, by omega⟩
  · rw [skipWhile_eq isSpace (by omega), hbehind, takeWhile_blanks_colon hblanks, hlast]
  · have hcell : buf[i + key.length + 2 + blanks.length] = colon := by
      rw [List.getElem?_eq_getElem hroom] at hcolon
      exact Option.some.inj hcolon
    rw [hlast, testAt, if_pos hroom, index_eq hroom, hcell]
    rfl

/-- What the search for a key finds. -/
theorem jsonFindKeyFrom_spec (buf key : Bytes) (start : ℕ) :
    Returns (jsonFindKeyFrom buf buf.length key start) fun r => match r with
      | some off => ∃ i, FoundKey buf key start i off
      | none => ∀ j, start ≤ j → ¬ KeyAt key (buf.drop j) := by
  refine returns_loop (fun i => start ≤ i ∧ ∀ j, start ≤ j → j < i → ¬ KeyAt key (buf.drop j))
    (fun i => buf.length - i) ?_ ⟨le_rfl, fun j hlow hhigh => absurd hhigh (Nat.not_lt.mpr hlow)⟩ (by omega)
  rintro i ⟨hlow, hmiss⟩
  have hnext : ¬ KeyAt key (buf.drop i) → i < buf.length →
      Returns (pure (.next (i + 1)) : Checked (Round ℕ (Option ℕ))) (RoundPost
        (fun i => start ≤ i ∧ ∀ j, start ≤ j → j < i → ¬ KeyAt key (buf.drop j)) (fun i => buf.length - i)
        (fun r => match r with
          | some off => ∃ i, FoundKey buf key start i off
          | none => ∀ j, start ≤ j → ¬ KeyAt key (buf.drop j)) i) := by
    intro hnot hroom
    rw [returns_pure, roundPost_next]
    refine ⟨⟨by omega, ?_⟩, by omega⟩
    intro j hj hji
    rcases Nat.lt_or_eq_of_le (Nat.le_of_lt_succ hji) with hlt | rfl
    · exact hmiss j hj hlt
    · exact hnot
  by_cases hkey : KeyAt key (buf.drop i)
  · obtain ⟨blanks, rest, hblanks, hdrop⟩ := hkey
    have hends : KeyEnds buf key i (i + key.length + 3 + blanks.length) := ⟨blanks, rest, hblanks, hdrop, rfl⟩
    obtain ⟨hroom, hskip, hcolon, -⟩ := hends.skip
    have hmatch : quote :: key ++ [quote] <+: buf.drop i := by
      rw [hdrop]
      exact ⟨blanks ++ colon :: rest, by simp⟩
    rw [if_pos hroom, quotedKeyAt_eq (by omega), ok_bind, if_pos (decide_eq_true hmatch), hskip, ok_bind, hcolon,
      ok_bind, if_pos rfl, returns_pure, roundPost_done]
    refine ⟨i, hlow, hmiss, ?_⟩
    have hoff : i + key.length + 3 + blanks.length - 1 + 1 = i + key.length + 3 + blanks.length := by omega
    rw [hoff]
    exact hends
  apply Returns.ite
  · intro hroom
    rw [quotedKeyAt_eq (by omega), ok_bind]
    apply Returns.ite
    · intro hmatch
      apply Returns.bind (skipWhile_spec isSpace (by omega) le_rfl)
      intro off hskip
      obtain ⟨⟨hoff, hend⟩, hblank, -⟩ := hskip
      unfold testAt
      by_cases hin : off < buf.length
      · rw [if_pos hin, index_eq hin, Except.map_ok, ok_bind]
        apply Returns.ite
        · intro hcolon
          have hcell : buf[off]? = some colon := by
            rw [List.getElem?_eq_getElem hin, eq_of_beq hcolon]
          exact absurd (keyAt_of_match (of_decide_eq_true hmatch) hoff hblank hcell) hkey
        · exact fun _ => hnext hkey (by omega)
      · rw [if_neg hin]
        exact hnext hkey (by omega)
    · exact fun _ => hnext hkey (by omega)
  · intro hroom
    rw [returns_pure, roundPost_done]
    intro j hj hat
    rcases Nat.lt_or_ge j i with hlt | hge
    · exact hmiss j hj hlt hat
    · obtain ⟨blanks, rest, -, hdrop⟩ := hat
      have hlen := congrArg List.length hdrop
      simp only [List.length_drop, List.length_append, List.length_cons] at hlen
      omega

theorem jsonFindKeyFrom_found (h : jsonFindKeyFrom buf buf.length key start = .ok (some off)) :
    ∃ i, FoundKey buf key start i off := by
  obtain ⟨r, hr, hspec⟩ := jsonFindKeyFrom_spec buf key start
  rw [h] at hr
  cases hr
  exact hspec

theorem KeyEnds.unique {other : ℕ} (h : KeyEnds buf key i off) (h' : KeyEnds buf key i other) : off = other := by
  have hskip := h.skip
  have hskip' := h'.skip
  have hsame := Except.ok.inj (hskip.2.1.symm.trans hskip'.2.1)
  obtain ⟨blanks, -, -, -, hoff⟩ := h
  obtain ⟨blanks', -, -, -, hoff'⟩ := h'
  omega

/-- The key is found where it stands first. -/
theorem FoundKey.eq (h : FoundKey buf key start i off) :
    jsonFindKeyFrom buf buf.length key start = .ok (some off) := by
  obtain ⟨r, hr, hspec⟩ := jsonFindKeyFrom_spec buf key start
  cases r with
  | none => exact absurd h.ends.keyAt (hspec i h.low)
  | some other =>
    obtain ⟨j, hj⟩ := hspec
    have hsame : j = i := by
      rcases Nat.lt_trichotomy j i with hlt | heq | hgt
      · exact absurd hj.ends.keyAt (h.misses j hj.low hlt)
      · exact heq
      · exact absurd h.ends.keyAt (hj.misses i h.low hgt)
    rw [hsame] at hj
    rw [hr, hj.ends.unique h.ends]

theorem KeyEnds.append (h : KeyEnds buf key i off) (more : Bytes) : KeyEnds (buf ++ more) key i off := by
  obtain ⟨hroom, -⟩ := h.skip
  obtain ⟨blanks, rest, hblanks, hdrop, hoff⟩ := h
  refine ⟨blanks, rest ++ more, hblanks, ?_, hoff⟩
  rw [List.drop_append_of_le_length (by omega), hdrop]
  simp

/-- Where the key stands in the whole text, in front of a place where it stands in the front, it stands in
the front. -/
theorem keyAt_front {j : ℕ} (h : KeyEnds buf key i off) (hlt : j < i) (hat : KeyAt key ((buf ++ more).drop j)) :
    KeyAt key (buf.drop j) := by
  obtain ⟨blanks, rest, hblanks, hdrop⟩ := hat
  obtain ⟨hroom, -⟩ := h.skip
  obtain ⟨blanks', rest', -, hdrop', -⟩ := h
  have hquote : (buf ++ more)[i + key.length + 1]? = some quote := by
    have hcell := congrArg (·[key.length + 1]?) hdrop'
    simp only [List.getElem?_drop, List.cons_append, List.getElem?_cons_succ] at hcell
    rw [List.getElem?_append_right le_rfl, Nat.sub_self] at hcell
    rw [List.getElem?_append_left (by omega), Nat.add_assoc, hcell]
    rfl
  have hbehind := drop_key hdrop
  -- a colon behind the front would leave blanks only up to the end of the front
  have hcolon : j + key.length + 2 + blanks.length < i + key.length + 1 := by
    by_contra hover
    have hcell : (buf ++ more)[i + key.length + 1]? = blanks[i + key.length + 1 - (j + key.length + 2)]? ∨
        i + key.length + 1 = j + key.length + 2 + blanks.length := by
      rcases Nat.lt_or_ge (i + key.length + 1) (j + key.length + 2 + blanks.length) with hin | hout
      · left
        rw [show i + key.length + 1 = j + key.length + 2 + (i + key.length + 1 - (j + key.length + 2)) by omega,
          ← List.getElem?_drop, hbehind, List.getElem?_append_left (by omega)]
        congr 1
        omega
      · right
        omega
    rcases hcell with hcell | hcell
    · rw [hquote] at hcell
      have hspace := hblanks quote (List.mem_of_getElem? hcell.symm)
      exact absurd hspace (by decide)
    · have hcolon : (buf ++ more)[i + key.length + 1]? = some colon := by
        rw [hcell, ← List.getElem?_drop, hbehind, List.getElem?_append_right le_rfl, Nat.sub_self]
        rfl
      rw [hquote] at hcolon
      exact absurd (Option.some.inj hcolon) (by decide)
  rw [List.drop_append_of_le_length (by omega)] at hdrop
  have hsplit : quote :: key ++ quote :: (blanks ++ colon :: rest) =
      (quote :: key ++ quote :: (blanks ++ [colon])) ++ rest := by simp
  rw [hsplit] at hdrop
  have hpre : quote :: key ++ quote :: (blanks ++ [colon]) <+: buf.drop j := by
    refine List.prefix_of_prefix_length_le ⟨rest, rfl⟩ (hdrop ▸ List.prefix_append (buf.drop j) more) ?_
    simp only [List.length_append, List.length_cons, List.length_nil, List.length_drop]
    omega
  obtain ⟨tail, htail⟩ := hpre
  exact ⟨blanks, tail, hblanks, by rw [← htail]; simp⟩

theorem FoundKey.append (h : FoundKey buf key start i off) (more : Bytes) :
    FoundKey (buf ++ more) key start i off :=
  ⟨h.low, fun j hj hlt hat => h.misses j hj hlt (keyAt_front h.ends hlt hat), h.ends.append more⟩

/-- A key that is found in the front is found in the whole. -/
theorem jsonFindKeyFrom_append (h : jsonFindKeyFrom buf buf.length key start = .ok (some off)) (more : Bytes) :
    jsonFindKeyFrom (buf ++ more) (buf ++ more).length key start = .ok (some off) ∧ off ≤ buf.length := by
  obtain ⟨i, hi⟩ := jsonFindKeyFrom_found h
  exact ⟨(hi.append more).eq, hi.ends.skip.2.2.2⟩

end Keys

section Strings

theorem readHex4_append (h : off + 4 ≤ buf.length) (more : Bytes) :
    readHex4 (buf ++ more) off = readHex4 buf off := by
  unfold readHex4
  rw [index_append_of_lt (by omega), index_append_of_lt (by omega), index_append_of_lt (by omega),
    index_append_of_lt (by omega)]

/-- A string that ends in the front reads the same in the whole. -/
theorem readString_append {text : Bytes} (h : readString buf buf.length capacity start = .ok (some text))
    (more : Bytes) : readString (buf ++ more) (buf ++ more).length capacity start = .ok (some text) := by
  have hlen : (buf ++ more).length = buf.length + more.length := List.length_append
  unfold readString at h ⊢
  have hfuel : buf.length - start + 1 ≤ (buf ++ more).length - start + 1 := by omega
  refine loop_mono (loop_found ?_ h) hfuel
  intro state round hround hvain
  obtain ⟨off, out⟩ := state
  dsimp only at hround ⊢
  by_cases hroom : off < buf.length
  swap
  · rw [if_neg hroom] at hround
    exact absurd (Except.ok.inj hround).symm hvain
  rw [if_pos hroom, index_eq hroom, ok_bind] at hround
  rw [if_pos (by omega), index_append (index_eq hroom), ok_bind]
  by_cases hquote : buf[off] = quote
  · rw [if_pos hquote] at hround ⊢
    exact hround
  rw [if_neg hquote] at hround ⊢
  by_cases hslash : buf[off] = backslash
  swap
  · rw [if_neg hslash] at hround ⊢
    exact hround
  rw [if_pos hslash] at hround ⊢
  by_cases hlast : off + 1 ≥ buf.length
  · rw [if_pos hlast] at hround
    exact absurd (Except.ok.inj hround).symm hvain
  rw [if_neg hlast, index_eq (by omega), ok_bind] at hround
  rw [if_neg (by omega), index_append (index_eq (by omega)), ok_bind]
  by_cases hu : buf[off + 1] = 117
  swap
  · rw [if_neg hu] at hround ⊢
    exact hround
  rw [if_pos hu] at hround ⊢
  by_cases hshort : off + 5 ≥ buf.length
  · rw [if_pos hshort] at hround
    exact absurd (Except.ok.inj hround).symm hvain
  rw [if_neg hshort] at hround
  rw [if_neg (by omega), readHex4_append (by omega)]
  exact hround

theorem jsonExtractStringFrom_append {r : ℕ × Bytes}
    (h : jsonExtractStringFrom buf buf.length key capacity start = .ok (some r)) (more : Bytes) :
    jsonExtractStringFrom (buf ++ more) (buf ++ more).length key capacity start = .ok (some r) := by
  rw [jsonExtractStringFrom, jsonFindValue] at h ⊢
  cases hkey : jsonFindKeyFrom buf buf.length key start with
  | error trap =>
    rw [hkey] at h
    cases h
  | ok found =>
    rw [hkey] at h
    cases found with
    | none => cases h
    | some off =>
      obtain ⟨hwhole, hoff⟩ := jsonFindKeyFrom_append hkey more
      rw [hwhole]
      rw [ok_bind] at h ⊢
      dsimp only at h ⊢
      have hskip : skipWhile isSpace buf buf.length off = _ := skipWhile_eq isSpace hoff
      generalize off + ((buf.drop off).takeWhile isSpace).length = value at hskip
      rw [hskip] at h
      by_cases hin : value < buf.length
      · have hlong : value < (buf ++ more).length := by
          rw [List.length_append]
          omega
        rw [skipWhile_append isSpace hskip hoff hin]
        rw [Except.map_ok, ok_bind] at h ⊢
        dsimp only at h ⊢
        rw [testAt, if_pos hin, index_eq hin, Except.map_ok, ok_bind] at h
        rw [testAt, if_pos hlong, index_append (index_eq hin), Except.map_ok, ok_bind]
        by_cases hquote : (buf[value] == quote) = true
        · rw [if_pos hquote] at h ⊢
          cases hread : readString buf buf.length capacity (value + 1) with
          | error trap =>
            rw [hread] at h
            cases h
          | ok text =>
            rw [hread] at h
            cases text with
            | none => cases h
            | some text =>
              rw [readString_append hread more]
              exact h
        · rw [if_neg hquote] at h
          cases h
      · rw [Except.map_ok, ok_bind] at h
        dsimp only at h
        rw [testAt, if_neg hin] at h
        cases h

/-- A text that is found in the front of a body is found in the whole body. -/
theorem extractOpenaiNestedOutputText_append {body text : Bytes}
    (h : extractOpenaiNestedOutputText body capacity = .ok (some text)) (more : Bytes) :
    extractOpenaiNestedOutputText (body ++ more) capacity = .ok (some text) := by
  have hlen : (body ++ more).length = body.length + more.length := List.length_append
  unfold extractOpenaiNestedOutputText at h ⊢
  refine loop_mono (loop_found ?_ h) (by omega)
  intro scan round hround hvain
  by_cases hroom : scan < body.length
  swap
  · rw [if_neg hroom] at hround
    exact absurd (Except.ok.inj hround).symm hvain
  rw [if_pos hroom] at hround
  rw [if_pos (by omega)]
  cases htype : jsonExtractStringFrom body body.length (ascii "type") 32 scan with
  | error trap =>
    rw [htype] at hround
    cases hround
  | ok found =>
    rw [htype, ok_bind] at hround
    cases found with
    | none => exact absurd (Except.ok.inj hround).symm hvain
    | some found =>
      obtain ⟨valueStart, kind⟩ := found
      rw [jsonExtractStringFrom_append htype more, ok_bind]
      dsimp only at hround ⊢
      cases hkind : startsWith kind kind.length (ascii "output_text") with
      | error trap =>
        rw [hkind] at hround
        cases hround
      | ok starts =>
        rw [hkind, ok_bind] at hround
        rw [ok_bind]
        cases starts with
        | false => exact hround
        | true =>
          rw [if_pos rfl] at hround ⊢
          cases htext : jsonExtractStringFrom body body.length (ascii "text") capacity valueStart with
          | error trap =>
            rw [htext] at hround
            cases hround
          | ok found =>
            rw [htext, ok_bind] at hround
            cases found with
            | none => exact absurd (Except.ok.inj hround).symm hvain
            | some found =>
              rw [jsonExtractStringFrom_append htext more, ok_bind]
              exact hround

end Strings

end MiniAgentOS
