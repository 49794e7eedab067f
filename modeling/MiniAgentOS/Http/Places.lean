import MiniAgentOS.Http.Framing
import MiniAgentOS.Http.Location
import MiniAgentOS.Http.Lookup

/-! The fields of a header block, found by the colons in it: a name is sought in front of each of them. -/
namespace MiniAgentOS.Http
open Checked

variable {buf front rest name text token line : Bytes} {i n : ℕ}

section Colons

/-- The text in front of a colon ends in the name, ignoring case. -/
def EndsIn (front name : Bytes) : Prop := name.map asciiLower <:+ front.map asciiLower

instance : Decidable (EndsIn front name) := inferInstanceAs (Decidable (_ <:+ _))

theorem EndsIn.length_le (h : EndsIn front name) : name.length ≤ front.length := by
  simpa using List.IsSuffix.length_le h

theorem EndsIn.append (front : Bytes) (h : EndsIn rest name) : EndsIn (front ++ rest) name := by
  rw [EndsIn, List.map_append]
  exact h.trans (List.suffix_append _ _)

/-- What a text ends in and its name end in each other. -/
theorem EndsIn.or_of_append (h : EndsIn (front ++ rest) name) : EndsIn name rest ∨ EndsIn rest name := by
  rw [EndsIn, List.map_append] at h
  exact List.suffix_or_suffix_of_suffix (List.suffix_append _ _) h

theorem mem_of_lower_colon (h : colon ∈ name.map asciiLower) : colon ∈ name := by
  obtain ⟨b, hb, hlower⟩ := List.mem_map.mp h
  rwa [lower_colon b hlower] at hb

/-- No name without a colon reaches back behind one. -/
theorem EndsIn.behind_colon (hname : colon ∉ name) (h : EndsIn (front ++ colon :: rest) name) : EndsIn rest name := by
  rcases h.or_of_append with hlong | hshort
  · exact absurd (mem_of_lower_colon (hlong.subset (List.mem_cons_self))) hname
  · obtain ⟨before, hbefore⟩ := hshort
    cases before with
    | nil =>
      have hmem : colon ∈ name.map asciiLower := by
        rw [List.nil_append] at hbefore
        rw [hbefore]
        exact List.mem_cons_self
      exact absurd (mem_of_lower_colon hmem) hname
    | cons b before =>
      rw [List.map_cons, List.cons_append] at hbefore
      exact ⟨before, (List.cons.inj hbefore).2⟩

set_option maxRecDepth 4000 in
theorem lower_digit : ∀ b : UInt8, isDigit (asciiLower b) = isDigit b := forall_byte (by decide)

/-- Neither text ends in the other. -/
def Unlike (name word : Bytes) : Prop := ¬ EndsIn name word ∧ ¬ EndsIn word name

instance {word : Bytes} : Decidable (Unlike name word) := inferInstanceAs (Decidable (_ ∧ _))

theorem Unlike.not_endsIn {word : Bytes} (h : Unlike name word) : ¬ EndsIn (front ++ word) name :=
  fun hends => hends.or_of_append.elim h.1 h.2

/-- A name without digits does not end in one. -/
theorem not_endsIn_digit {d : UInt8} (hne : name ≠ []) (hname : ∀ b ∈ name, isDigit b = false)
    (hd : isDigit d = true) : ¬ EndsIn (front ++ [d]) name := by
  intro h
  rcases h.or_of_append with hlong | hshort
  · have hmem : asciiLower d ∈ name.map asciiLower := hlong.subset (by simp)
    obtain ⟨b, hb, hlower⟩ := List.mem_map.mp hmem
    have hsame := hname b hb
    rw [← lower_digit b, hlower, lower_digit d, hd] at hsame
    cases hsame
  · obtain ⟨b, more, rfl⟩ := List.exists_cons_of_ne_nil hne
    have hmem : asciiLower b ∈ [d].map asciiLower := hshort.subset (by simp)
    have hlower : asciiLower b = asciiLower d := by simpa using hmem
    have hsame := hname b List.mem_cons_self
    rw [← lower_digit b, hlower, lower_digit d, hd] at hsame
    cases hsame

/-- A name stands at a place just when it ends in front of a colon, with something behind it. -/
theorem place_iff : Place buf name i ↔ ∃ front rest, buf = front ++ colon :: rest ∧
    front.length = i + name.length ∧ EndsIn front name ∧ rest ≠ [] := by
  constructor
  · intro h
    have hroom := h.room
    have hcolon := List.getElem?_eq_some_iff.mp h.colon_eq
    obtain ⟨hlt, hcell⟩ := hcolon
    refine ⟨buf.take (i + name.length), buf.drop (i + name.length + 1), ?_, ?_, ?_, ?_⟩
    · have hdrop := List.drop_eq_getElem_cons hlt
      rw [hcell] at hdrop
      rw [← hdrop, List.take_append_drop]
    · rw [List.length_take]
      omega
    · rw [EndsIn, List.take_add, List.map_append, h.name_eq]
      exact List.suffix_append _ _
    · intro hnil
      have hlen := congrArg List.length hnil
      rw [List.length_drop, List.length_nil] at hlen
      omega
  · rintro ⟨front, rest, rfl, hlen, ⟨lead, hlead⟩, hrest⟩
    have hleadLen : lead.length = i := by
      have hsum := congrArg List.length hlead
      rw [List.length_append, List.length_map, List.length_map] at hsum
      omega
    constructor
    · have hpos := List.length_pos_iff.mpr hrest
      rw [List.length_append, List.length_cons]
      omega
    · have htake : ((front ++ colon :: rest).drop i).take name.length = front.drop i := by
        rw [List.drop_append_of_le_length (by omega), List.take_left' (by rw [List.length_drop]; omega)]
      rw [htake, List.map_drop, ← hlead, List.drop_left' hleadLen]
    · rw [← hlen, List.getElem?_append_right le_rfl, Nat.sub_self]
      rfl

/-- The places of a name, colon by colon. -/
theorem place_append (hfront : colon ∉ front) (hname : colon ∉ name) : Place (front ++ colon :: rest) name i ↔
    (front.length = i + name.length ∧ EndsIn front name ∧ rest ≠ []) ∨
      ∃ j, i = front.length + 1 + j ∧ Place rest name j := by
  constructor
  · intro h
    obtain ⟨whole, after, heq, hlen, hends, hafter⟩ := place_iff.mp h
    rcases List.append_eq_append_iff.mp heq with ⟨mid, rfl, hmid⟩ | ⟨mid, rfl, hmid⟩
    · cases mid with
      | nil =>
        left
        rw [List.append_nil] at hlen hends
        obtain rfl := (List.cons.inj hmid).2
        exact ⟨hlen, hends, hafter⟩
      | cons b mid =>
        obtain ⟨rfl, rfl⟩ := List.cons.inj hmid
        right
        have hbehind := hends.behind_colon hname
        have hle := hbehind.length_le
        rw [List.length_append, List.length_cons] at hlen
        refine ⟨mid.length - name.length, by omega, place_iff.mpr ⟨mid, after, rfl, by omega, hbehind, hafter⟩⟩
    · cases mid with
      | nil =>
        left
        obtain rfl := (List.cons.inj hmid).2
        rw [List.append_nil] at hfront ⊢
        exact ⟨hlen, hends, hafter⟩
      | cons b mid =>
        obtain ⟨rfl, -⟩ := List.cons.inj hmid
        exact absurd (by simp) hfront
  · rintro (⟨hlen, hends, hrest⟩ | ⟨j, rfl, h⟩)
    · exact place_iff.mpr ⟨front, rest, rfl, hlen, hends, hrest⟩
    · obtain ⟨mid, after, rfl, hlen, hends, hafter⟩ := place_iff.mp h
      refine place_iff.mpr ⟨front ++ colon :: mid, after, by simp, ?_, ?_, hafter⟩
      · rw [List.length_append, List.length_cons]
        omega
      · exact (hends.append [colon]).append front

theorem no_place_last (hbuf : colon ∉ buf) : ∀ k, ¬ Place buf name k := by
  intro k h
  obtain ⟨front, rest, rfl, -⟩ := place_iff.mp h
  exact hbuf (by simp)

/-- Texts with a colon behind each of them. -/
def joined (fronts : List Bytes) (rest : Bytes) : Bytes := fronts.foldr (fun front rest => front ++ colon :: rest) rest

theorem no_place_later (hfront : colon ∉ front) (hname : colon ∉ name) (hnot : ¬ EndsIn front name)
    (h : ∀ k, ¬ Place rest name k) : ∀ k, ¬ Place (front ++ colon :: rest) name k := by
  intro k hplace
  rcases (place_append hfront hname).mp hplace with ⟨-, hends, -⟩ | ⟨j, -, hj⟩
  · exact hnot hends
  · exact h j hj

theorem no_place_joined {fronts : List Bytes} (hfronts : ∀ front ∈ fronts, colon ∉ front ∧ ¬ EndsIn front name)
    (hname : colon ∉ name) (hrest : colon ∉ rest) : ∀ k, ¬ Place (joined fronts rest) name k := by
  induction fronts with
  | nil => exact no_place_last hrest
  | cons front fronts ih =>
    obtain ⟨⟨hfront, hnot⟩, hmore⟩ := List.forall_mem_cons.mp hfronts
    exact no_place_later hfront hname hnot (ih hmore)

end Colons

section Found

/-- `header_value` finds the text under the name. -/
def Finds (buf name text : Bytes) : Prop := ∃ lead after, buf = lead ++ text ++ after ∧
  headerValue buf buf.length name = .ok (some (lead.length, lead.length + text.length))

theorem valueBounds_shift (k : ℕ) : valueBounds (k + n) text =
    (valueBounds n text).map fun bounds => (k + bounds.1, k + bounds.2) := by
  unfold valueBounds
  dsimp only
  split_ifs
  · simp [Nat.add_assoc]
  · rfl

theorem lineRest_shift (front : Bytes) : lineRest (front ++ rest) (front.length + n) = lineRest rest n := by
  rw [lineRest, lineRest, List.drop_length_add_append]

/-- The name in front of the first colon. -/
theorem finds_here (hfront : colon ∉ front) (hname : colon ∉ name) (hends : EndsIn front name) (hne : text ≠ [])
    (htext : ∀ b ∈ text, isLineEnd b = false) (hhead : ∀ b ∈ text.head?, isBlank b = false) :
    Finds (front ++ colon :: space :: (text ++ cr :: rest)) name text := by
  have hle := hends.length_le
  obtain ⟨b, more, rfl⟩ := List.exists_cons_of_ne_nil hne
  have hb : isBlank b = false := hhead b rfl
  have hline : ∀ c ∈ space :: (b :: more), (!isLineEnd c) = true := by
    intro c hc
    rcases List.mem_cons.mp hc with rfl | hin
    · rfl
    · rw [htext c hin, Bool.not_false]
  have hfirst : FirstPlace (front ++ colon :: space :: (b :: more ++ cr :: rest)) name (front.length - name.length) := by
    refine ⟨(place_append hfront hname).mpr (.inl ⟨by omega, hends, List.cons_ne_nil _ _⟩), fun k hk => ?_⟩
    rcases (place_append hfront hname).mp hk with ⟨hlen, -⟩ | ⟨j, rfl, -⟩
    · omega
    · omega
  have hstart : front.length - name.length + name.length + 1 = (front ++ [colon]).length + 0 := by
    rw [List.length_append, List.length_singleton]
    omega
  have hbuf : front ++ colon :: space :: (b :: more ++ cr :: rest) =
      (front ++ [colon]) ++ (space :: (b :: more) ++ cr :: rest) := by simp
  have hrest : lineRest (front ++ colon :: space :: (b :: more ++ cr :: rest))
      (front.length - name.length + name.length + 1) = space :: (b :: more) := by
    rw [hstart, hbuf, lineRest_shift, lineRest, List.drop_zero, List.takeWhile_append_of_pos hline,
      List.takeWhile_cons_of_neg (by decide), List.append_nil]
  have hblanks : ((space :: (b :: more)).takeWhile isBlank).length = 1 := by
    rw [List.takeWhile_cons_of_pos (by decide), List.takeWhile_cons_of_neg (by rw [hb]; exact Bool.false_ne_true)]
    rfl
  refine ⟨front ++ [colon, space], cr :: rest, by simp, ?_⟩
  rw [headerValue_first hfirst, hrest, valueBounds, hblanks, if_pos (by simp)]
  congr 3
  · simp only [List.length_append, List.length_cons, List.length_nil]
    omega
  · simp only [List.length_append, List.length_cons, List.length_nil]
    omega

/-- The name behind the first colon. -/
theorem finds_later (hfront : colon ∉ front) (hname : colon ∉ name) (hnot : ¬ EndsIn front name)
    (h : Finds rest name text) : Finds (front ++ colon :: rest) name text := by
  obtain ⟨lead, after, hrest, hvalue⟩ := h
  have hplace : ∃ j, Place rest name j := by
    by_contra hnone
    have hnever := headerValue_none fun k hk => hnone ⟨k, hk⟩
    rw [hvalue] at hnever
    cases hnever
  obtain ⟨_, hplace⟩ := hplace
  obtain ⟨j, hfirst⟩ := exists_firstPlace hplace
  rw [headerValue_first hfirst] at hvalue
  have hshifted : FirstPlace (front ++ colon :: rest) name (front.length + 1 + j) := by
    refine ⟨(place_append hfront hname).mpr (.inr ⟨j, rfl, hfirst.place⟩), fun k hk => ?_⟩
    rcases (place_append hfront hname).mp hk with ⟨-, hends, -⟩ | ⟨k, rfl, hbehind⟩
    · exact absurd hends hnot
    · exact Nat.add_le_add_left (hfirst.first k hbehind) _
  have hlen : (front ++ [colon]).length = front.length + 1 := by rw [List.length_append, List.length_singleton]
  have hbuf : front ++ colon :: rest = (front ++ [colon]) ++ rest := by simp
  have hsum : front.length + 1 + j + name.length + 1 = (front ++ [colon]).length + (j + name.length + 1) := by omega
  refine ⟨front ++ colon :: lead, after, by simp [hrest], ?_⟩
  rw [headerValue_first hshifted, hsum, hbuf, lineRest_shift, valueBounds_shift, Except.ok.inj hvalue, Option.map_some]
  congr 3
  · simp
    omega
  · simp
    omega

theorem finds_joined {fronts : List Bytes} (hfronts : ∀ front ∈ fronts, colon ∉ front ∧ ¬ EndsIn front name)
    (hname : colon ∉ name) (h : Finds rest name text) : Finds (joined fronts rest) name text := by
  induction fronts with
  | nil => exact h
  | cons front fronts ih =>
    obtain ⟨⟨hfront, hnot⟩, hmore⟩ := List.forall_mem_cons.mp hfronts
    exact finds_later hfront hname hnot (ih hmore)

theorem Finds.length (h : Finds buf contentLengthName text) : ∃ start stop,
    headerValue buf buf.length (ascii "content-length") = .ok (some (start, stop)) ∧
      decimalValue 0 ((buf.take stop).drop start) = decimalValue 0 text := by
  obtain ⟨lead, after, rfl, hvalue⟩ := h
  refine ⟨_, _, hvalue, ?_⟩
  rw [← List.length_append, List.take_left, List.drop_left]

theorem Finds.date (h : Finds buf (ascii "date") text) : parseDate buf buf.length = parseHttpDate text := by
  obtain ⟨lead, after, rfl, hvalue⟩ := h
  rw [parseDate, hvalue, ok_bind]
  dsimp only
  rw [slice_eq (Nat.le_add_right _ _) (by simp), ok_bind, ← List.length_append, List.take_left, List.drop_left]

/-- A token that the value begins with. -/
theorem Finds.hasToken (h : Finds buf name text)
    (htoken : token.map asciiLower <+: text.map asciiLower) : fieldHasToken buf buf.length name token = .ok true := by
  obtain ⟨lead, after, rfl, hvalue⟩ := h
  have hle : token.length ≤ text.length := by simpa using htoken.length_le
  have hmatch : ((lead ++ text ++ after).drop lead.length).take token.length = text.take token.length := by
    rw [List.append_assoc, List.drop_left, List.take_append_of_le_length hle]
  have hsame : (text.take token.length).map asciiLower = token.map asciiLower := by
    rw [List.map_take]
    obtain ⟨more, hmore⟩ := htoken
    rw [← hmore, List.take_left' (by simp)]
  rw [fieldHasToken, hvalue, ok_bind]
  dsimp only
  have hroom : lead.length + (token.length - 1) ≤ lead.length + text.length := by omega
  rw [containsToken, loop, if_pos hroom, matchesLower_eq (by simp; omega), ok_bind, hmatch,
    decide_eq_true hsame]
  rfl

theorem fieldHasToken_none (h : ∀ k, ¬ Place buf name k) : fieldHasToken buf buf.length name token = .ok false := by
  rw [fieldHasToken, headerValue_none h]
  rfl

/-- A block with no colon behind the name of the redirect field leads nowhere. -/
theorem redirectTarget_none (h : ∀ k, ¬ Place buf (ascii "location") k) :
    redirectTarget buf buf.length = .ok none := by
  obtain ⟨r, hr, -⟩ := redirectTarget_returns buf
  cases r with
  | none => exact hr
  | some target =>
    obtain ⟨value, ⟨before, found, blanks, after, rfl, -, hfound, -, hvalue, -⟩, -⟩ :=
      redirectTarget_ensures buf _ hr target rfl
    have hlen : found.length = 9 := by
      have hnine := congrArg List.length hfound
      rwa [List.length_map] at hnine
    obtain ⟨word, last, rfl⟩ : ∃ word last, found = word ++ [last] :=
      ⟨_, _, (List.dropLast_append_getLast (List.ne_nil_of_length_pos (by omega))).symm⟩
    have hsplit : ascii "location:" = (ascii "location").map asciiLower ++ [asciiLower colon] := by decide
    rw [hsplit, List.map_append, List.map_singleton] at hfound
    obtain ⟨hword, hlast⟩ := List.append_inj' hfound rfl
    obtain rfl := lower_colon last (List.singleton_injective hlast)
    refine absurd (place_iff.mpr ⟨before ++ word, blanks ++ (value ++ after), by simp, ?_, ?_, ?_⟩) (h before.length)
    · have hlength := congrArg List.length hword
      rw [List.length_map, List.length_map] at hlength
      rw [List.length_append, hlength]
    · exact (show EndsIn word (ascii "location") from ⟨[], hword.symm⟩).append before
    · simp [hvalue]

end Found

section Lines

/-- No terminator begins within a line. -/
theorem headerEnd_skip (h : cr ∉ line) : headerEnd (line ++ rest) = (headerEnd rest).map (· + line.length) := by
  induction line with
  | nil => simp
  | cons b line ih =>
    obtain ⟨hb, hline⟩ := not_or.mp (fun hor => h (List.mem_cons.mpr hor))
    have hno : ¬ headerTerminator <+: b :: (line ++ rest) := fun hpre => hb (List.cons_prefix_cons.mp hpre).1
    rw [List.cons_append, headerEnd, if_neg hno, ih hline, Option.map_map]
    rfl

theorem headerEnd_next {b : UInt8} (hb : b ≠ cr) :
    headerEnd (cr :: lf :: b :: rest) = (headerEnd (b :: rest)).map (· + 2) := by
  have hno : ¬ headerTerminator <+: cr :: lf :: b :: rest := by
    simp [headerTerminator, hb.symm]
  have hlf : ¬ headerTerminator <+: lf :: b :: rest := fun hpre => absurd (List.cons_prefix_cons.mp hpre).1 (by decide)
  rw [headerEnd, if_neg hno, headerEnd, if_neg hlf, Option.map_map]
  rfl

/-- The first empty line behind lines that are not empty. -/
theorem headerEnd_lines {lines : List Bytes} (h : ∀ line ∈ lines, line ≠ [] ∧ cr ∉ line) (hne : lines ≠ []) :
    headerEnd (lines.flatMap (· ++ [cr, lf]) ++ (cr :: lf :: rest)) =
      some ((lines.flatMap (· ++ [cr, lf])).length + 2) := by
  induction lines with
  | nil => exact absurd rfl hne
  | cons line lines ih =>
    obtain ⟨⟨-, hline⟩, hmore⟩ := List.forall_mem_cons.mp h
    rw [List.flatMap_cons, List.append_assoc, List.append_assoc, headerEnd_skip hline]
    cases lines with
    | nil =>
      have hat : headerTerminator <+: [cr, lf] ++ (cr :: lf :: rest) := List.prefix_append _ _
      rw [List.flatMap_nil, List.nil_append, headerEnd_of_at_zero hat]
      simp
      omega
    | cons next lines =>
      have hrest := ih hmore (List.cons_ne_nil _ _)
      obtain ⟨⟨hsome, hnext⟩, -⟩ := List.forall_mem_cons.mp hmore
      obtain ⟨b, tail, rfl⟩ := List.exists_cons_of_ne_nil hsome
      have hb : b ≠ cr := fun heq => hnext (heq ▸ List.mem_cons_self)
      rw [List.flatMap_cons, List.cons_append, List.cons_append] at hrest ⊢
      rw [List.cons_append] at hrest
      rw [List.cons_append, List.cons_append, List.nil_append, List.cons_append, headerEnd_next hb, hrest]
      simp
      omega

end Lines

end MiniAgentOS.Http
