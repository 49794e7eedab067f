import MiniAgentOS.Http.Header
import MiniAgentOS.Text.Escape

/-! `header_value` on a block of fields: it decides by the first place where the name and a colon stand,
wherever in the block that is. -/
namespace MiniAgentOS.Http
open Checked

variable {buf name : Bytes} {i start : ℕ}

section Values

/-- The value of a field whose text behind the colon is `text`: without the blanks in front, if anything is
left. -/
def valueBounds (off : ℕ) (text : Bytes) : Option (ℕ × ℕ) :=
  let blanks := (text.takeWhile isBlank).length
  if blanks < text.length then some (off + blanks, off + text.length) else none

/-- The rest of the line. -/
def lineRest (buf : Bytes) (off : ℕ) : Bytes := (buf.drop off).takeWhile fun b => !isLineEnd b

theorem blank_not_lineEnd : ∀ b : UInt8, isBlank b = true → isLineEnd b = false := by
  intro b hb
  cases hend : isLineEnd b with
  | false => rfl
  | true =>
    simp only [isBlank, isLineEnd, Bool.or_eq_true, beq_iff_eq] at hb hend
    rcases hb with rfl | rfl <;> revert hend <;> decide

theorem takeWhile_blanks (text : Bytes) :
    ((text.takeWhile fun b => !isLineEnd b).takeWhile isBlank).length = (text.takeWhile isBlank).length ∧
    (text.takeWhile isBlank).length +
      ((text.drop (text.takeWhile isBlank).length).takeWhile fun b => !isLineEnd b).length =
      (text.takeWhile fun b => !isLineEnd b).length := by
  induction text with
  | nil => exact ⟨rfl, rfl⟩
  | cons b text ih =>
    by_cases hblank : isBlank b = true
    · have hline : (!isLineEnd b) = true := by rw [blank_not_lineEnd b hblank, Bool.not_false]
      rw [List.takeWhile_cons_of_pos hblank,
        List.takeWhile_cons_of_pos (p := fun b => !isLineEnd b) hline, List.takeWhile_cons_of_pos hblank]
      simp only [List.length_cons, List.drop_succ_cons]
      exact ⟨congrArg (· + 1) ih.1, by omega⟩
    · rw [List.takeWhile_cons_of_neg hblank]
      refine ⟨?_, ?_⟩
      · rw [List.takeWhile_cons]
        split_ifs
        · rw [List.takeWhile_cons_of_neg hblank]
        · rfl
      · rw [List.length_nil, Nat.zero_add, List.drop_zero]

theorem fieldValue_eq (h : start ≤ buf.length) :
    fieldValue buf buf.length start = .ok (valueBounds start (lineRest buf start)) := by
  have hlen : ((buf.drop start).takeWhile isBlank).length ≤ buf.length - start := by
    have hle := (List.takeWhile_prefix isBlank (l := buf.drop start)).length_le
    rwa [List.length_drop] at hle
  obtain ⟨hblanks, hsum⟩ := takeWhile_blanks (buf.drop start)
  rw [fieldValue, skipWhile_eq isBlank h, ok_bind, skipWhile_eq _ (by omega), ok_bind, ← List.drop_drop,
    Nat.add_assoc, hsum]
  unfold valueBounds lineRest
  dsimp only
  rw [hblanks]
  split_ifs with hlt hlt' hlt'
  · rfl
  · omega
  · omega
  · rfl

end Values

section Places

theorem matchesLower_eq (h : i + name.length ≤ buf.length) :
    matchesLower buf i name =
      .ok (decide (((buf.drop i).take name.length).map asciiLower = name.map asciiLower)) := by
  induction name generalizing i with
  | nil => exact congrArg Except.ok (by simp)
  | cons c name ih =>
    rw [List.length_cons] at h
    have hlt : i < buf.length := by omega
    rw [matchesLower, index_eq hlt, ok_bind, List.drop_eq_getElem_cons hlt, List.length_cons,
      List.take_succ_cons, List.map_cons, List.map_cons]
    by_cases hsame : asciiLower buf[i] = asciiLower c
    · rw [if_neg (not_not.mpr hsame), ih (by omega)]
      simp [hsame]
    · rw [if_pos hsame]
      exact congrArg Except.ok (by simp [hsame])

/-- The name and a colon stand at `i`, ignoring case. -/
structure Place (buf name : Bytes) (i : ℕ) : Prop where
  room : i + name.length + 1 < buf.length
  name_eq : ((buf.drop i).take name.length).map asciiLower = name.map asciiLower
  colon_eq : buf[i + name.length]? = some colon

/-- The first such place. -/
structure FirstPlace (buf name : Bytes) (i : ℕ) : Prop where
  place : Place buf name i
  first : ∀ k, Place buf name k → i ≤ k

theorem exists_firstPlace (h : Place buf name i) : ∃ k, FirstPlace buf name k := by
  classical
  have hex : ∃ k, Place buf name k := ⟨i, h⟩
  exact ⟨Nat.find hex, Nat.find_spec hex, fun k hk => Nat.find_min' hex hk⟩

theorem fieldAt_eq (h : i + name.length + 1 < buf.length) :
    fieldAt buf name i = .ok true ∧ Place buf name i ∨ fieldAt buf name i = .ok false ∧ ¬ Place buf name i := by
  have hcell : buf[i + name.length]? = some buf[i + name.length] := List.getElem?_eq_getElem (by omega)
  rw [fieldAt, matchesLower_eq (by omega), ok_bind]
  by_cases hname : ((buf.drop i).take name.length).map asciiLower = name.map asciiLower
  · rw [if_pos (decide_eq_true hname), index_eq (by omega)]
    by_cases hcolon : buf[i + name.length] = colon
    · left
      refine ⟨?_, h, hname, by rw [hcell, hcolon]⟩
      rw [hcolon]
      rfl
    · right
      refine ⟨?_, fun hplace => ?_⟩
      · exact congrArg Except.ok (beq_eq_false_iff_ne.mpr hcolon)
      · have hsame := hplace.colon_eq
        rw [hcell] at hsame
        exact hcolon (Option.some.inj hsame)
  · right
    refine ⟨?_, fun hplace => hname hplace.name_eq⟩
    rw [if_neg (by simpa using hname)]
    rfl

/-- The body of the loop of `header_value`. -/
def searchRound (buf name : Bytes) (i : ℕ) : Checked (Round ℕ (Option (ℕ × ℕ))) :=
  if i + name.length + 1 < buf.length then do
    if ← fieldAt buf name i then .done <$> fieldValue buf buf.length (i + name.length + 1)
    else pure (.next (i + 1))
  else pure (.done none)

/-- The search from `start` on. -/
theorem search_eq {fuel : ℕ} (hstart : start ≤ buf.length) (hbefore : ∀ k, k < start → ¬ Place buf name k)
    (hfuel : buf.length < start + fuel) :
    (∃ k, FirstPlace buf name k ∧
      loop (searchRound buf name) fuel start = fieldValue buf buf.length (k + name.length + 1)) ∨
    (∀ k, ¬ Place buf name k) ∧ loop (searchRound buf name) fuel start = .ok none := by
  induction fuel generalizing start with
  | zero => omega
  | succ fuel ih =>
    rw [loop, searchRound]
    by_cases hroom : start + name.length + 1 < buf.length
    · rw [if_pos hroom]
      rcases fieldAt_eq hroom with ⟨hat, hplace⟩ | ⟨hat, hnot⟩
      · left
        refine ⟨start, ⟨hplace, fun k hk => ?_⟩, ?_⟩
        · by_contra hlt
          exact hbefore k (by omega) hk
        · rw [hat, ok_bind, if_pos rfl, fieldValue_eq (by omega)]
          rfl
      · have hnext : ∀ k, k < start + 1 → ¬ Place buf name k := by
          intro k hk
          rcases Nat.lt_or_eq_of_le (Nat.le_of_lt_succ hk) with hlt | rfl
          · exact hbefore k hlt
          · exact hnot
        rw [hat, ok_bind]
        exact ih (by omega) hnext (by omega)
    · right
      rw [if_neg hroom]
      refine ⟨fun k hplace => ?_, rfl⟩
      have hlt := hplace.room
      exact hbefore k (by omega) hplace

/-- The value behind the first place decides. -/
theorem headerValue_first (h : FirstPlace buf name i) : headerValue buf buf.length name =
    .ok (valueBounds (i + name.length + 1) (lineRest buf (i + name.length + 1))) := by
  have hroom := h.place.room
  rcases @search_eq buf name 0 (buf.length + 1) (Nat.zero_le _) (fun k hk => absurd hk (Nat.not_lt_zero k))
    (by omega) with ⟨k, hk, hloop⟩ | ⟨hnone, -⟩
  · have hsame : k = i := Nat.le_antisymm (hk.first i h.place) (h.first k hk.place)
    rw [hsame, fieldValue_eq (by omega)] at hloop
    exact hloop
  · exact absurd h.place (hnone i)

theorem headerValue_none (h : ∀ k, ¬ Place buf name k) : headerValue buf buf.length name = .ok none := by
  rcases @search_eq buf name 0 (buf.length + 1) (Nat.zero_le _) (fun k hk => absurd hk (Nat.not_lt_zero k))
    (by omega) with ⟨k, hk, -⟩ | ⟨-, hloop⟩
  · exact absurd hk.place (h k)
  · exact hloop

end Places

section Blocks

/-- The name of a field: no blank, colon or line end in it. -/
structure FieldName (name : Bytes) : Prop where
  ne_nil : name ≠ []
  token : ∀ b ∈ name, b ≠ colon ∧ isBlank b = false ∧ isLineEnd b = false

/-- A header field. `value` is all that stands behind the colon. -/
structure HeaderField where
  name : Bytes
  value : Bytes
  named : FieldName name
  oneLine : ∀ b ∈ value, isLineEnd b = false

def HeaderField.line (field : HeaderField) : Bytes := field.name ++ colon :: field.value ++ [cr, lf]

/-- Whether a field has the name, ignoring case. -/
def HeaderField.Named (field : HeaderField) (name : Bytes) : Prop :=
  field.name.map asciiLower = name.map asciiLower

instance (field : HeaderField) (name : Bytes) : Decidable (field.Named name) :=
  inferInstanceAs (Decidable (_ = _))

def fieldLines (fields : List HeaderField) : Bytes := (fields.map HeaderField.line).flatten

/-- A header block: the status line, the fields and an empty line. -/
def headerText (status : Bytes) (fields : List HeaderField) : Bytes :=
  status ++ [cr, lf] ++ fieldLines fields ++ [cr, lf]

/-- The value of the first field with the name, for fields that begin at `off`. -/
def lookup (name : Bytes) : ℕ → List HeaderField → Option (ℕ × ℕ)
  | _, [] => none
  | off, field :: fields =>
    if field.Named name then valueBounds (off + field.name.length + 1) field.value
    else lookup name (off + field.line.length) fields

theorem lookup_named {field : HeaderField} {before after : List HeaderField} (off : ℕ)
    (hbefore : ∀ other ∈ before, ¬ other.Named name) (hnamed : field.Named name) :
    lookup name off (before ++ field :: after) =
      valueBounds (off + (fieldLines before).length + field.name.length + 1) field.value := by
  induction before generalizing off with
  | nil => exact if_pos hnamed
  | cons other before ih =>
    have hnot := hbefore other List.mem_cons_self
    have hrest := fun another hanother => hbefore another (List.mem_cons_of_mem other hanother)
    rw [List.cons_append, lookup, if_neg hnot, ih (off + other.line.length) hrest, fieldLines, fieldLines,
      List.map_cons, List.flatten_cons, List.length_append, ← Nat.add_assoc]

theorem lookup_none (off : ℕ) {fields : List HeaderField} (h : ∀ field ∈ fields, ¬ field.Named name) :
    lookup name off fields = none := by
  induction fields generalizing off with
  | nil => rfl
  | cons field fields ih =>
    rw [lookup, if_neg (h field List.mem_cons_self)]
    exact ih _ fun other hother => h other (List.mem_cons_of_mem field hother)

theorem exists_first_named {fields : List HeaderField} (h : ∃ field ∈ fields, field.Named name) :
    ∃ before field after, fields = before ++ field :: after ∧ (∀ other ∈ before, ¬ other.Named name) ∧
      field.Named name := by
  induction fields with
  | nil =>
    obtain ⟨field, hfield, -⟩ := h
    cases hfield
  | cons first fields ih =>
    by_cases hfirst : first.Named name
    · exact ⟨[], first, fields, rfl, fun _ hother => (nomatch hother), hfirst⟩
    · obtain ⟨field, hfield, hnamed⟩ := h
      rcases List.mem_cons.mp hfield with rfl | hmem
      · exact absurd hnamed hfirst
      · obtain ⟨before, field, after, rfl, hbefore, hnamed⟩ := ih ⟨field, hmem, hnamed⟩
        refine ⟨first :: before, field, after, rfl, ?_, hnamed⟩
        intro other hother
        rcases List.mem_cons.mp hother with rfl | hmem
        · exact hfirst
        · exact hbefore other hmem

/-- Where a field begins in the block. -/
def fieldOffset (status : Bytes) (before : List HeaderField) : ℕ := status.length + 2 + (fieldLines before).length

variable {status : Bytes} {before after : List HeaderField} {field : HeaderField}

theorem headerText_split (status : Bytes) (before after : List HeaderField) (field : HeaderField) :
    ∃ front, front.length + 1 = fieldOffset status before ∧
      headerText status (before ++ field :: after) =
        front ++ [lf] ++ (field.name ++ colon :: field.value ++ cr :: lf :: (fieldLines after ++ [cr, lf])) := by
  have hlines : fieldLines (before ++ field :: after) = fieldLines before ++ (field.line ++ fieldLines after) := by
    rw [fieldLines, List.map_append, List.flatten_append, List.map_cons, List.flatten_cons]
    rfl
  have hend : ∃ front, status ++ [cr, lf] ++ fieldLines before = front ++ [lf] ∧
      front.length + 1 = fieldOffset status before := by
    rcases List.eq_nil_or_concat before with rfl | ⟨init, last, rfl⟩
    · refine ⟨status ++ [cr], ?_, ?_⟩
      · simp [fieldLines]
      · simp [fieldOffset, fieldLines]
    · refine ⟨status ++ [cr, lf] ++ fieldLines init ++ (last.name ++ colon :: last.value ++ [cr]), ?_, ?_⟩
      · simp [fieldLines, HeaderField.line]
      · simp [fieldOffset, fieldLines, HeaderField.line]
        omega
  obtain ⟨front, hfront, hlen⟩ := hend
  refine ⟨front, hlen, ?_⟩
  rw [headerText, hlines, ← List.append_assoc, hfront, HeaderField.line]
  simp

/-- What a block holds where one of its fields begins. -/
structure FieldAt (buf : Bytes) (field : HeaderField) (p : ℕ) : Prop where
  text : ∃ rest, buf.drop p = field.name ++ colon :: field.value ++ cr :: lf :: rest
  lineEnd : 0 < p ∧ buf[p - 1]? = some lf

theorem headerText_fieldAt (status : Bytes) (before after : List HeaderField) (field : HeaderField) :
    FieldAt (headerText status (before ++ field :: after)) field (fieldOffset status before) := by
  obtain ⟨front, hlen, htext⟩ := headerText_split status before after field
  rw [htext, ← hlen]
  constructor
  · refine ⟨fieldLines after ++ [cr, lf], ?_⟩
    have hfront : (front ++ [lf]).length = front.length + 1 := by rw [List.length_append, List.length_singleton]
    rw [← hfront, List.drop_left]
  · refine ⟨Nat.succ_pos _, ?_⟩
    rw [Nat.add_sub_cancel, List.append_assoc, List.getElem?_append_right le_rfl, Nat.sub_self]
    rfl

variable {p : ℕ}

theorem FieldAt.length (h : FieldAt buf field p) : p + field.name.length + field.value.length + 3 ≤ buf.length := by
  obtain ⟨rest, htext⟩ := h.text
  have hlen := congrArg List.length htext
  simp only [List.length_drop, List.length_append, List.length_cons] at hlen
  omega

theorem FieldAt.get_colon (h : FieldAt buf field p) : buf[p + field.name.length]? = some colon := by
  obtain ⟨rest, htext⟩ := h.text
  rw [← List.getElem?_drop, htext, List.append_assoc, List.getElem?_append_right le_rfl, Nat.sub_self]
  rfl

theorem FieldAt.lineRest (h : FieldAt buf field p) : lineRest buf (p + field.name.length + 1) = field.value := by
  obtain ⟨rest, htext⟩ := h.text
  have hdrop : buf.drop (p + field.name.length + 1) = field.value ++ cr :: lf :: rest := by
    rw [Nat.add_assoc, ← List.drop_drop, htext, List.append_assoc, List.drop_append, List.drop_of_length_le (by omega),
      Nat.add_sub_cancel_left]
    rfl
  have hvalue : ∀ b ∈ field.value, (!isLineEnd b) = true := fun b hb => by rw [field.oneLine b hb, Bool.not_false]
  unfold Http.lineRest
  rw [hdrop, List.takeWhile_append_of_pos hvalue, List.takeWhile_cons_of_neg (by decide), List.append_nil]

set_option maxRecDepth 4000 in
theorem lower_lf : ∀ b : UInt8, asciiLower lf = asciiLower b → b = lf := forall_byte (by decide)

set_option maxRecDepth 4000 in
theorem lower_colon : ∀ b : UInt8, asciiLower b = asciiLower colon → b = colon := forall_byte (by decide)

/-- Where a field begins, the name stands just when it is the field's. -/
theorem FieldAt.place_iff (h : FieldAt buf field p) (hname : FieldName name) :
    Place buf name p ↔ field.Named name := by
  obtain ⟨rest, htext⟩ := h.text
  have hlen := h.length
  constructor
  · intro hplace
    have hcolon := hplace.colon_eq
    have hsame : name.length = field.name.length := by
      rcases Nat.lt_trichotomy name.length field.name.length with hlt | heq | hgt
      · rw [← List.getElem?_drop, htext, List.append_assoc, List.getElem?_append_left hlt] at hcolon
        have hmem := List.mem_of_getElem? hcolon
        exact absurd rfl (field.named.token colon hmem).1
      · exact heq
      · have hcell := congrArg (·[field.name.length]?) hplace.name_eq
        simp only [List.getElem?_map, List.getElem?_take_of_lt hgt, List.getElem?_drop, h.get_colon] at hcell
        obtain ⟨c, hc, hlower⟩ := Option.map_eq_some_iff.mp hcell.symm
        exact absurd (lower_colon c hlower) (hname.token c (List.mem_of_getElem? hc)).1
    have heq := hplace.name_eq
    rw [hsame, htext, List.append_assoc, List.take_left] at heq
    exact heq
  · intro hnamed
    have hsame : name.length = field.name.length := by
      have hmap := congrArg List.length hnamed
      rw [List.length_map, List.length_map] at hmap
      exact hmap.symm
    refine ⟨by omega, ?_, ?_⟩
    · rw [hsame, htext, List.append_assoc, List.take_left]
      exact hnamed
    · rw [hsame]
      exact h.get_colon

/-- A place in front of a field of that name ends in front of it, so that a value behind the place begins at
the field at the latest. -/
theorem FieldAt.value_before {bounds : ℕ × ℕ} (h : FieldAt buf field p) (hname : FieldName name)
    (hplace : Place buf name i) (hlt : i < p)
    (hvalue : valueBounds (i + name.length + 1) (Http.lineRest buf (i + name.length + 1)) = some bounds) :
    bounds.1 ≤ p := by
  obtain ⟨hpos, hlf⟩ := h.lineEnd
  have hbehind : i + name.length + 1 ≤ p := by
    by_contra hover
    rcases Nat.lt_or_ge (p - 1) (i + name.length) with hin | hout
    · have hcell := congrArg (·[p - 1 - i]?) hplace.name_eq
      have hidx : i + (p - 1 - i) = p - 1 := by omega
      simp only [List.getElem?_map, List.getElem?_take_of_lt (show p - 1 - i < name.length by omega),
        List.getElem?_drop, hidx, hlf] at hcell
      obtain ⟨c, hc, hlower⟩ := Option.map_eq_some_iff.mp hcell.symm
      have hend := (hname.token c (List.mem_of_getElem? hc)).2.2
      rw [lower_lf c hlower.symm] at hend
      exact absurd hend (by decide)
    · have hcolon := hplace.colon_eq
      rw [show i + name.length = p - 1 by omega, hlf] at hcolon
      exact absurd (Option.some.inj hcolon) (by decide)
  unfold valueBounds at hvalue
  dsimp only at hvalue
  split_ifs at hvalue with hfound
  rw [← Option.some.inj hvalue]
  by_contra hgt
  -- the first byte of the field's name stands among the blanks
  obtain ⟨rest, htext⟩ := h.text
  obtain ⟨b, name', hb⟩ := List.exists_cons_of_ne_nil field.named.ne_nil
  have hblanks := (takeWhile_blanks (buf.drop (i + name.length + 1))).1
  have hgt' : p - (i + name.length + 1) < ((buf.drop (i + name.length + 1)).takeWhile isBlank).length := by
    unfold Http.lineRest at hgt
    omega
  have hcell : ((buf.drop (i + name.length + 1)).takeWhile isBlank)[p - (i + name.length + 1)]? = some b := by
    obtain ⟨tail, htail⟩ := List.takeWhile_prefix isBlank (l := buf.drop (i + name.length + 1))
    have hget := congrArg (·[p - (i + name.length + 1)]?) htail
    rw [List.getElem?_append_left hgt', List.getElem?_drop, show i + name.length + 1 + (p - (i + name.length + 1)) = p
      by omega] at hget
    have hfirst := congrArg (·[0]?) htext
    rw [List.getElem?_drop, hb, Nat.add_zero] at hfirst
    rw [hget, hfirst]
    rfl
  have hblank := List.mem_takeWhile_imp (List.mem_of_getElem? hcell)
  have htoken := (field.named.token b (hb ▸ List.mem_cons_self)).2.1
  rw [hblank] at htoken
  cases htoken

theorem valueBounds_none {off : ℕ} {text : Bytes} : valueBounds off text = none ↔ ∀ b ∈ text, isBlank b := by
  have hle := (List.takeWhile_prefix isBlank (l := text)).length_le
  unfold valueBounds
  dsimp only
  rw [← List.takeWhile_eq_self_iff]
  split_ifs with hlt
  · refine iff_of_false (by simp) fun hself => ?_
    rw [hself] at hlt
    exact absurd hlt (lt_irrefl _)
  · refine iff_of_true rfl ?_
    exact (List.takeWhile_prefix isBlank).eq_of_length (by omega)

theorem valueBounds_ge {off : ℕ} {text : Bytes} {bounds : ℕ × ℕ} (h : valueBounds off text = some bounds) :
    off ≤ bounds.1 := by
  unfold valueBounds at h
  dsimp only at h
  split_ifs at h
  rw [← Option.some.inj h]
  exact Nat.le_add_right _ _

theorem fieldOffset_lt (status : Bytes) (before after : List HeaderField) (field : HeaderField) :
    fieldOffset status before < fieldOffset status (before ++ field :: after) := by
  have hlines : fieldLines (before ++ field :: after) = fieldLines before ++ (field.line ++ fieldLines after) := by
    rw [fieldLines, List.map_append, List.flatten_append, List.map_cons, List.flatten_cons]
    rfl
  rw [fieldOffset, fieldOffset, hlines, HeaderField.line]
  simp only [List.length_append, List.length_cons]
  omega

/-- `header_value` finds the first field of that name just when the first place where the name and a colon
stand is the beginning of a field, or is followed by blanks only while no field of that name has a value. -/
theorem header_value_iff (status : Bytes) (fields : List HeaderField) (hname : FieldName name) :
    headerValue (headerText status fields) (headerText status fields).length name =
        .ok (lookup name (status.length + 2) fields) ↔
      ∀ i, FirstPlace (headerText status fields) name i →
        (∃ before field after, fields = before ++ field :: after ∧ i = fieldOffset status before) ∨
        lookup name (status.length + 2) fields = none ∧
          ∀ b ∈ lineRest (headerText status fields) (i + name.length + 1), isBlank b := by
  constructor
  · intro hexact i hfirst
    rw [headerValue_first hfirst] at hexact
    have hbounds := Except.ok.inj hexact
    by_cases hnamed : ∃ field ∈ fields, field.Named name
    · obtain ⟨before, field, after, rfl, hbefore, hnamed⟩ := exists_first_named hnamed
      have hat := headerText_fieldAt status before after field
      have hle := hfirst.first _ ((hat.place_iff hname).mpr hnamed)
      rcases Nat.eq_or_lt_of_le hle with heq | hlt
      · exact .inl ⟨before, field, after, rfl, heq⟩
      · have hlookup : lookup name (status.length + 2) (before ++ field :: after) = _ :=
          lookup_named (status.length + 2) hbefore hnamed
        right
        cases hfound : lookup name (status.length + 2) (before ++ field :: after) with
        | none =>
          rw [hfound] at hbounds
          exact ⟨rfl, valueBounds_none.mp hbounds⟩
        | some bounds =>
          rw [hfound] at hbounds hlookup
          have hbehind := valueBounds_ge hlookup.symm
          have hfront := hat.value_before hname hfirst.place hlt hbounds
          unfold fieldOffset at hfront
          omega
    · right
      have hnone : lookup name (status.length + 2) fields = none :=
        lookup_none _ fun field hfield hfound => hnamed ⟨field, hfield, hfound⟩
      rw [hnone] at hbounds
      exact ⟨hnone, valueBounds_none.mp hbounds⟩
  · intro hcond
    by_cases hplace : ∃ i, Place (headerText status fields) name i
    · obtain ⟨i, hi⟩ := hplace
      obtain ⟨first, hfirst⟩ := exists_firstPlace hi
      rw [headerValue_first hfirst]
      rcases hcond first hfirst with ⟨before, field, after, rfl, rfl⟩ | ⟨hnone, hblank⟩
      · have hat := headerText_fieldAt status before after field
        have hnamed := (hat.place_iff hname).mp hfirst.place
        have hbefore : ∀ other ∈ before, ¬ other.Named name := by
          intro other hother hfound
          obtain ⟨init, tail, rfl⟩ := List.append_of_mem hother
          have hother := headerText_fieldAt status init (tail ++ field :: after) other
          rw [← List.cons_append, ← List.append_assoc] at hother
          have hle := hfirst.first _ ((hother.place_iff hname).mpr hfound)
          have hlt := fieldOffset_lt status init tail other
          omega
        have hlength : name.length = field.name.length := by
          have hmap := congrArg List.length hnamed
          rw [List.length_map, List.length_map] at hmap
          exact hmap.symm
        rw [lookup_named _ hbefore hnamed, hlength, hat.lineRest, fieldOffset]
      · rw [hnone, valueBounds_none.mpr hblank]
    · have hnone : ∀ field ∈ fields, ¬ field.Named name := by
        intro field hfield hnamed
        obtain ⟨before, after, rfl⟩ := List.append_of_mem hfield
        have hat := headerText_fieldAt status before after field
        exact hplace ⟨_, (hat.place_iff hname).mpr hnamed⟩
      rw [headerValue_none fun k hk => hplace ⟨k, hk⟩, lookup_none _ hnone]

def contentLengthName : Bytes := ascii "content-length"

theorem fieldName_contentLength : FieldName contentLengthName := ⟨by decide, by decide +kernel⟩

theorem fieldName_lookalike : FieldName (ascii "X-Content-Length") := ⟨by decide +kernel, by decide +kernel⟩

theorem fieldName_length : FieldName (ascii "Content-Length") := ⟨by decide +kernel, by decide +kernel⟩

theorem oneLine_five : ∀ b ∈ ascii " 5", isLineEnd b = false := by decide +kernel

theorem oneLine_seven : ∀ b ∈ ascii " 7", isLineEnd b = false := by decide +kernel

def lookalike : HeaderField := ⟨ascii "X-Content-Length", ascii " 5", fieldName_lookalike, oneLine_five⟩

def lengthField : HeaderField := ⟨ascii "Content-Length", ascii " 7", fieldName_length, oneLine_seven⟩

/-- A name that ends in the name sought is taken for it. -/
theorem lookalike_found : ¬ ∀ status fields name, FieldName name →
    headerValue (headerText status fields) (headerText status fields).length name =
      .ok (lookup name (status.length + 2) fields) := by
  intro h
  have hfound := h (ascii "HTTP/1.1 200 OK") [lookalike, lengthField] contentLengthName fieldName_contentLength
  revert hfound
  decide +kernel

theorem header_value_length :
    headerValue (headerText (ascii "HTTP/1.1 200 OK") [lengthField])
        (headerText (ascii "HTTP/1.1 200 OK") [lengthField]).length contentLengthName =
      .ok (lookup contentLengthName 17 [lengthField]) := by
  have hplace : Place (headerText (ascii "HTTP/1.1 200 OK") [lengthField]) contentLengthName 17 :=
    ⟨by decide, by decide, by decide⟩
  refine (header_value_iff (ascii "HTTP/1.1 200 OK") [lengthField] fieldName_contentLength).mpr ?_
  intro i hfirst
  left
  refine ⟨[], lengthField, [], rfl, ?_⟩
  have hle : i ≤ 17 := hfirst.first 17 hplace
  have hbefore : ∀ k, k < 17 →
      (((headerText (ascii "HTTP/1.1 200 OK") [lengthField]).drop k).take contentLengthName.length).map asciiLower ≠
        contentLengthName.map asciiLower := by
    decide +kernel
  rcases Nat.eq_or_lt_of_le hle with heq | hlt
  · exact heq
  · exact absurd hfirst.place.name_eq (hbefore i hlt)

end Blocks

end MiniAgentOS.Http
