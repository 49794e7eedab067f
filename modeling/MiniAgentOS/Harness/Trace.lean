import MiniAgentOS.Agent.Trace
import MiniAgentOS.Harness.Output
import MiniAgentOS.Text.WellFormed

/-! The events that the guest writes to the serial line are those that the harness reads there. -/
namespace MiniAgentOS.Harness
open Bridge

set_option maxRecDepth 4000

section Shown

variable {text more : Bytes}

/-- Texts without control characters. -/
structure Shown (text : Bytes) : Prop where
  utf8 : Utf8 text
  shown : ∀ b ∈ text, 0x20 ≤ b

theorem Shown.append (h : Shown text) (hmore : Shown more) : Shown (text ++ more) :=
  ⟨h.utf8.append hmore.utf8, List.forall_mem_append.mpr ⟨h.shown, hmore.shown⟩⟩

theorem plainText_shown (h : PlainText text) : Shown text :=
  ⟨h.utf8, fun b hb => (escapeByte_none b (h b hb).2).2.2⟩

theorem byte_shown (b : UInt8) (hlow : 0x20 ≤ b) (hhigh : b ≤ 0x7f) : Shown [b] :=
  ⟨.cons (.one hhigh) .nil, List.forall_mem_singleton.mpr hlow⟩

theorem Shown.cons {b : UInt8} (hlow : 0x20 ≤ b) (hhigh : b ≤ 0x7f) (h : Shown text) : Shown (b :: text) :=
  (byte_shown b hlow hhigh).append h

theorem escapedText_shown {decoded : Bytes} (h : EscapedText text decoded) : Shown text := by
  refine ⟨h.utf8, ?_⟩
  have hnibble : ∀ b : UInt8, (0x20 : UInt8) ≤ hexChar ((b >>> 4) &&& 0x0f) ∧
      (0x20 : UInt8) ≤ hexChar (b &&& 0x0f) :=
    forall_byte (by decide +kernel)
  induction h with
  | nil => simp
  | cons hunit _ ih =>
    refine List.forall_mem_append.mpr ⟨?_, ih⟩
    cases hunit with
    | plain _ hplain => exact fun b hb => (hplain b hb).2.2
    | letter hletter =>
      simp only [List.mem_cons, Prod.mk.injEq, List.not_mem_nil, or_false] at hletter
      rcases hletter with ⟨rfl, -⟩ | ⟨rfl, -⟩ | ⟨rfl, -⟩ | ⟨rfl, -⟩ | ⟨rfl, -⟩ <;> decide
    | @control b _ =>
      obtain ⟨hhigh, hlow⟩ := hnibble b
      simp only [List.forall_mem_cons, List.not_mem_nil, false_implies, implies_true, and_true]
      exact ⟨by decide, by decide, by decide, by decide, hhigh, hlow⟩

theorem string_shown (src : Bytes) : Shown (quote :: jsonEscape src ++ [quote]) := by
  have hquote : Shown [quote] := byte_shown quote (by decide) (by decide)
  exact (hquote.append (escapedText_shown (jsonEscape_escaped src))).append hquote

theorem u64ToDec_shown (n : ℕ) : Shown (u64ToDec n) := by
  have hdigit : ∀ b : UInt8, isDigit b → b ≤ 0x7f ∧ escapeByte b = none := forall_byte (by decide +kernel)
  apply plainText_shown
  intro b hb
  unfold u64ToDec at hb
  split_ifs at hb
  · exact hdigit b (List.mem_singleton.mp hb ▸ rfl)
  · exact hdigit b (decDigits_digit 20 n b (List.mem_reverse.mp hb))

mutual

theorem compact_shown : ∀ v : Json, Shown v.compact
  | .null => plainText_shown (plain_ascii String.ofList_toList.symm (by decide))
  | .bool true => plainText_shown (plain_ascii String.ofList_toList.symm (by decide))
  | .bool false => plainText_shown (plain_ascii String.ofList_toList.symm (by decide))
  | .num n => u64ToDec_shown n
  | .str text => string_shown text
  | .arr items => ((compactItems_shown items).cons (b := 91) (by decide) (by decide)).append
      (byte_shown 93 (by decide) (by decide))
  | .obj members => ((compactMembers_shown members).cons (b := openBrace) (by decide) (by decide)).append
      (byte_shown closeBrace (by decide) (by decide))

theorem compactItems_shown : ∀ items : List Json, Shown (compactItems items)
  | [] => ⟨.nil, by simp [compactItems]⟩
  | [v] => compact_shown v
  | v :: w :: items => (compact_shown v).append
      ((compactItems_shown (w :: items)).cons (b := comma) (by decide) (by decide))

theorem compactMember_shown : ∀ m : Bytes × Json, Shown (compactMember m)
  | (key, v) => (string_shown key).append ((compact_shown v).cons (b := colon) (by decide) (by decide))

theorem compactMembers_shown : ∀ members : List (Bytes × Json), Shown (compactMembers members)
  | [] => ⟨.nil, by simp [compactMembers]⟩
  | [m] => compactMember_shown m
  | m :: n :: members => (compactMember_shown m).append
      ((compactMembers_shown (n :: members)).cons (b := comma) (by decide) (by decide))

end

end Shown

section Decoded

variable {bytes more : Bytes} {s t : PyStr} {chars : List Char}

/-- The text that is decoded from well-formed bytes. -/
def DecodesTo (bytes : Bytes) (s : PyStr) : Prop :=
  ∃ chars : List Char, bytes = chars.flatMap String.utf8EncodeChar ∧ s = decode chars

theorem utf8EncodeChar_injective {a b : List Char}
    (h : a.flatMap String.utf8EncodeChar = b.flatMap String.utf8EncodeChar) : a = b := by
  have hencode : a.utf8Encode = b.utf8Encode := congrArg List.toByteArray h
  have hdecode := congrArg ByteArray.utf8Decode? hencode
  rw [List.utf8Decode?_utf8Encode, List.utf8Decode?_utf8Encode] at hdecode
  exact List.toArray_inj (Option.some.inj hdecode)

theorem DecodesTo.unique (h : DecodesTo bytes s) (ht : DecodesTo bytes t) : s = t := by
  obtain ⟨a, hbytes, rfl⟩ := h
  obtain ⟨b, hsame, rfl⟩ := ht
  rw [utf8EncodeChar_injective (hbytes.symm.trans hsame)]

theorem DecodesTo.append (h : DecodesTo bytes s) (ht : DecodesTo more t) : DecodesTo (bytes ++ more) (s ++ t) := by
  obtain ⟨a, rfl, rfl⟩ := h
  obtain ⟨b, rfl, rfl⟩ := ht
  exact ⟨a ++ b, List.flatMap_append.symm, (List.map_append).symm⟩

theorem utf8_decodes (h : Utf8 bytes) : ∃ s, DecodesTo bytes s := by
  obtain ⟨chars, rfl⟩ := utf8_iff_wellFormed.mp h
  exact ⟨decode chars, chars, rfl, rfl⟩

theorem encodeChar_ascii {c : Char} (h : c.toNat < 128) : String.utf8EncodeChar c = [UInt8.ofNat c.toNat] := by
  have hsmall : c.val.toNat ≤ 0x7f := Nat.le_of_lt_succ h
  rw [String.utf8EncodeChar, if_pos hsmall]
  rfl

/-- Text of the source. -/
theorem ascii_decodes {text : String} (h : text.toList.all fun c => c.toNat < 128) : DecodesTo (ascii text) (str text) := by
  refine ⟨text.toList, ?_, rfl⟩
  have hchar : ∀ c ∈ text.toList, String.utf8EncodeChar c = [UInt8.ofNat c.toNat] := fun c hc =>
    encodeChar_ascii (of_decide_eq_true (List.all_eq_true.mp h c hc))
  rw [List.flatMap_congr hchar, ascii, List.map_eq_flatMap]

theorem DecodesTo.mem (h : DecodesTo bytes s) {c : ℕ} (hc : c ∈ s) (hlow : c < 128) : UInt8.ofNat c ∈ bytes := by
  obtain ⟨chars, rfl, rfl⟩ := h
  obtain ⟨char, hchar, rfl⟩ := List.mem_map.mp hc
  exact List.mem_flatMap.mpr ⟨char, hchar, by rw [encodeChar_ascii hlow]; exact List.mem_singleton_self _⟩

/-- A part of the decoded text is decoded from a part of the bytes. -/
theorem DecodesTo.within (h : DecodesTo bytes s) (ht : DecodesTo more t) (hwithin : t <:+: s) : more <:+: bytes := by
  obtain ⟨front, rest, hs⟩ := hwithin
  obtain ⟨chars, rfl, rfl⟩ := h
  obtain ⟨part, rfl, rfl⟩ := ht
  obtain ⟨ahead, back, rfl, hahead, -⟩ := List.map_eq_append_iff.mp hs.symm
  obtain ⟨a, b, rfl, -, hb⟩ := List.map_eq_append_iff.mp hahead
  have hpart : b = part := List.map_injective_iff.mpr (fun _ _ => Char.toNat_inj.mp) hb
  exact ⟨a.flatMap _, back.flatMap _, by rw [hpart, List.flatMap_append, List.flatMap_append]⟩

end Decoded

section Lines

variable {s lead raw json rest : PyStr} {c : ℕ}

theorem splitlines_within {line : PyStr} (h : line ∈ splitlines s) : line <:+: s := by
  obtain ⟨ended, hended, rfl⟩ := List.mem_map.mp h
  obtain ⟨front, back, hsplit⟩ := List.append_of_mem hended
  refine ⟨front.flatMap Line.full, ended.ending ++ back.flatMap Line.full, ?_⟩
  calc front.flatMap Line.full ++ ended.text ++ (ended.ending ++ back.flatMap Line.full)
      = (endedLines s).flatMap Line.full := by simp [hsplit, Line.full]
    _ = s := endedLines_flat s

theorem splitlines_pair (s : PyStr) : splitlines (13 :: 10 :: s) = [] :: splitlines s := rfl

theorem splitlines_break (h : isLineBreak c = true) (hcr : c = 13 → s.head? ≠ some 10) :
    splitlines (c :: s) = [] :: splitlines s := by
  have hpair : ∀ rest, c = 13 → s = 10 :: rest → False := fun rest hc hs => hcr hc (by rw [hs]; rfl)
  rw [splitlines, endedLines.eq_3 _ _ hpair, if_pos h, List.map_cons, splitlines]

theorem splitlines_cons {line : PyStr} {lines : List PyStr} (h : isLineBreak c = false)
    (hs : splitlines s = line :: lines) : splitlines (c :: s) = (c :: line) :: lines := by
  have hpair : ∀ rest, c = 13 → s = 10 :: rest → False := by
    intro rest hc hs
    rw [hc] at h
    cases h
  obtain ⟨ended, others, hended, rfl, rfl⟩ := List.map_eq_cons_iff.mp hs
  rw [splitlines, endedLines.eq_3 _ _ hpair, h, if_neg Bool.false_ne_true, hended]
  rfl

/-- A text without line breaks stands in the first of the lines. -/
theorem splitlines_run {run line : PyStr} {lines : List PyStr} (h : ∀ c ∈ run, isLineBreak c = false)
    (hs : splitlines s = line :: lines) : splitlines (run ++ s) = (run ++ line) :: lines := by
  induction run with
  | nil => exact hs
  | cons c run ih =>
    obtain ⟨hc, hrun⟩ := List.forall_mem_cons.mp h
    exact splitlines_cons hc (ih hrun)

theorem splitlines_eq_nil (h : splitlines s = []) : s = [] := by
  rw [← endedLines_flat s, List.map_eq_nil_iff.mp h, List.flatMap_nil]

/-- The lines of two texts: what the first one has behind its last line break goes on in the first line of the
second. -/
theorem splitlines_append (front : PyStr) {line : PyStr} {lines : List PyStr} (hs : splitlines s = line :: lines)
    (hhead : s.head? ≠ some 10) : ∃ before last, splitlines (front ++ s) = before ++ (last ++ line) :: lines ∧
      (splitlines front = before ∧ last = [] ∨ splitlines front = before ++ [last]) := by
  fun_induction universalNewlines front with
  | case1 => exact ⟨[], [], hs, .inl ⟨rfl, rfl⟩⟩
  | case2 front ih =>
    obtain ⟨before, last, hall, hfront⟩ := ih
    refine ⟨[] :: before, last, by rw [List.cons_append, List.cons_append, splitlines_pair, hall]; rfl, ?_⟩
    rw [splitlines_pair]
    exact hfront.imp (fun h => ⟨by rw [h.1], h.2⟩) (fun h => by rw [h]; rfl)
  | case3 c front hpair ih =>
    obtain ⟨before, last, hall, hfront⟩ := ih
    by_cases hbreak : isLineBreak c = true
    · have hcr : c = 13 → (front ++ s).head? ≠ some 10 := by
        intro hc hten
        cases front with
        | nil => exact hhead hten
        | cons d front =>
          obtain rfl := Option.some.inj hten
          exact hpair front hc rfl
      have hcr' : c = 13 → front.head? ≠ some 10 := by
        intro hc hten
        obtain ⟨rest, hrest⟩ := List.head?_eq_some_iff.mp hten
        exact hpair rest hc hrest
      refine ⟨[] :: before, last, by rw [List.cons_append, splitlines_break hbreak hcr, hall]; rfl, ?_⟩
      rw [splitlines_break hbreak hcr']
      exact hfront.imp (fun h => ⟨by rw [h.1], h.2⟩) (fun h => by rw [h]; rfl)
    · have hplain : isLineBreak c = false := Bool.eq_false_iff.mpr hbreak
      cases before with
      | nil =>
        refine ⟨[], c :: last, splitlines_cons hplain hall, .inr ?_⟩
        rcases hfront with ⟨hnone, rfl⟩ | hone
        · rw [splitlines_eq_nil hnone, splitlines, endedLines.eq_3 _ _ (by simp), hplain]
          rfl
        · exact splitlines_cons hplain hone
      | cons first before =>
        refine ⟨(c :: first) :: before, last, splitlines_cons hplain hall, ?_⟩
        exact hfront.imp (fun h => ⟨splitlines_cons hplain h.1, h.2⟩) (fun h => splitlines_cons hplain h)

/-- A text without line breaks that a line ending follows is a line. -/
theorem splitlines_line (h : ∀ c ∈ s, isLineBreak c = false) (rest : PyStr) :
    splitlines (s ++ 13 :: 10 :: rest) = s :: splitlines rest := by
  have hrun := splitlines_run h (splitlines_pair rest)
  rwa [List.append_nil] at hrun

theorem plain_or_break (s : PyStr) : (∀ c ∈ s, isLineBreak c = false) ∨
    ∃ run c rest, s = run ++ c :: rest ∧ (∀ d ∈ run, isLineBreak d = false) ∧ isLineBreak c = true := by
  induction s with
  | nil => simp
  | cons c s ih =>
    by_cases hbreak : isLineBreak c = true
    · exact .inr ⟨[], c, s, rfl, by simp, hbreak⟩
    · have hplain : isLineBreak c = false := Bool.eq_false_iff.mpr hbreak
      rcases ih with hall | ⟨run, d, rest, rfl, hrun, hd⟩
      · exact .inl (List.forall_mem_cons.mpr ⟨hplain, hall⟩)
      · exact .inr ⟨c :: run, d, rest, rfl, List.forall_mem_cons.mpr ⟨hplain, hrun⟩, hd⟩

/-- A line feed ends the lines before it. -/
theorem splitlines_feed (front s : PyStr) :
    splitlines (front ++ 10 :: s) = splitlines (front ++ [10]) ++ splitlines s := by
  fun_induction universalNewlines front with
  | case1 => rfl
  | case2 front ih => rw [List.cons_append, List.cons_append, splitlines_pair, ih, List.cons_append, List.cons_append,
      splitlines_pair, List.cons_append]
  | case3 c front hpair ih =>
    by_cases hbreak : isLineBreak c = true
    · by_cases hsplit : c = 13 ∧ front = []
      · obtain ⟨rfl, rfl⟩ := hsplit
        rfl
      · have hcr : ∀ more : PyStr, c = 13 → (front ++ 10 :: more).head? ≠ some 10 := by
          intro more hc hten
          cases front with
          | nil => exact hsplit ⟨hc, rfl⟩
          | cons d front =>
            obtain rfl := Option.some.inj hten
            exact hpair front hc rfl
        rw [List.cons_append, splitlines_break hbreak (hcr s), ih, List.cons_append, splitlines_break hbreak (hcr []),
          List.cons_append]
    · have hplain : isLineBreak c = false := Bool.eq_false_iff.mpr hbreak
      cases hlines : splitlines (front ++ [10]) with
      | nil => exact absurd (splitlines_eq_nil hlines) (by simp)
      | cons line lines =>
        rw [hlines] at ih
        rw [List.cons_append, splitlines_cons hplain ih, List.cons_append, splitlines_cons hplain hlines]
        rfl

theorem splitlines_first (h : isLineBreak c = true) (s : PyStr) : ∃ lines, splitlines (c :: s) = [] :: lines := by
  by_cases hcr : c = 13 → s.head? ≠ some 10
  · exact ⟨_, splitlines_break h hcr⟩
  · push Not at hcr
    obtain ⟨rfl, hten⟩ := hcr
    obtain ⟨rest, rfl⟩ := List.head?_eq_some_iff.mp hten
    exact ⟨_, splitlines_pair rest⟩

end Lines

section Marks

variable {s lead raw json rest front : PyStr}

/-- Text without the mark in one line. -/
structure QuietText (s : PyStr) : Prop where
  lf : 10 ∉ s
  mark : ¬ tracePrefix <:+: s

/-- The text of an object. -/
def ObjectText (json : PyStr) : Prop := 10 ∉ json ∧ ∃ inner, json = 123 :: (inner ++ [125])

theorem tracePrefix_head (s : PyStr) : (tracePrefix ++ s).head? ≠ some 10 := fun h =>
  absurd (Option.some.inj h : (84 : ℕ) = 10) (by decide)

theorem mark_borderless : Framed.Borderless tracePrefix := by decide

theorem rawJson_none (h : ¬ tracePrefix <:+: s) : rawJson s = none := by
  rw [rawJson, Framed.find_none (by decide) h]

theorem rawJson_lead (h : ¬ tracePrefix <:+: lead) (raw : PyStr) :
    rawJson (lead ++ (tracePrefix ++ raw)) = if strip raw = [] then none else some (strip raw) := by
  rw [rawJson, Framed.find_lead mark_borderless h]
  dsimp only
  rw [← List.append_assoc, ← List.length_append, List.drop_left]

theorem strip_ends {first last : ℕ} (hfirst : Bridge.isSpace first = false) (hlast : Bridge.isSpace last = false)
    {blanks : PyStr} (h : ∀ c ∈ blanks, Bridge.isSpace c) (inner : PyStr) :
    strip (first :: (inner ++ [last]) ++ blanks) = first :: (inner ++ [last]) := by
  have hblanks : ∀ c ∈ blanks.reverse, Bridge.isSpace c := fun c hc => h c (List.mem_reverse.mp hc)
  have hfront : ¬ Bridge.isSpace first = true := by simp [hfirst]
  have hback : (first :: (inner ++ [last])).reverse = last :: (first :: inner).reverse := by simp
  rw [strip, List.cons_append, List.dropWhile_cons_of_neg hfront, ← List.cons_append, List.rdropWhile,
    List.reverse_append, List.dropWhile_append_of_pos hblanks, hback, List.dropWhile_cons_of_neg (by simp [hlast]),
    List.reverse_cons, List.reverse_reverse, List.cons_append]

/-- The object stands in the line with what the line break takes with it. -/
theorem rawJson_object (h : ¬ tracePrefix <:+: lead) {json : PyStr} (hjson : ObjectText json) {blanks : PyStr}
    (hblanks : ∀ c ∈ blanks, Bridge.isSpace c) : rawJson (lead ++ (tracePrefix ++ (json ++ blanks))) = some json := by
  obtain ⟨-, inner, rfl⟩ := hjson
  have hstrip : strip (123 :: (inner ++ [125]) ++ blanks) = 123 :: (inner ++ [125]) := by
    exact strip_ends (by decide) (by decide) hblanks inner
  rw [rawJson_lead h, hstrip, if_neg (List.cons_ne_nil _ _)]

theorem strip_length_le (s : PyStr) : (strip s).length ≤ s.length :=
  (List.rdropWhile_prefix _ _).length_le.trans (List.dropWhile_suffix _).length_le

theorem strip_cons_ne_nil {c : ℕ} (h : Bridge.isSpace c = false) (s : PyStr) : strip (c :: s) ≠ [] := by
  rw [strip, List.dropWhile_cons_of_neg (by simp [h])]
  intro hnil
  rw [List.rdropWhile_eq_nil_iff.mp hnil c List.mem_cons_self] at h
  cases h

/-- Lines of quiet text have nothing for the trace. -/
theorem quiet_lines (h : ¬ tracePrefix <:+: s) : (splitlines s).filterMap rawJson = [] := by
  rw [List.filterMap_eq_nil_iff]
  intro line hline
  exact rawJson_none fun hmark => h (hmark.trans (splitlines_within hline))

/-- What the last pass reads behind quiet text. -/
theorem finalTraceLines_lead (h : ¬ tracePrefix <:+: lead) {line : PyStr} {lines : List PyStr}
    (hs : splitlines s = line :: lines) : finalTraceLines (lead ++ (tracePrefix ++ s)) =
      (if strip line = [] then none else some (strip line)).toList ++ lines.filterMap rawJson := by
  have hrun : splitlines (tracePrefix ++ s) = (tracePrefix ++ line) :: lines := splitlines_run (by decide) hs
  obtain ⟨before, last, hall, hlead⟩ := splitlines_append lead hrun (tracePrefix_head s)
  have hquiet := quiet_lines h
  have hlast : before.filterMap rawJson = [] ∧ ¬ tracePrefix <:+: last := by
    rcases hlead with ⟨hbefore, rfl⟩ | hbefore
    · exact ⟨hbefore ▸ hquiet, by decide⟩
    · rw [hbefore, List.filterMap_append, List.append_eq_nil_iff] at hquiet
      have hmem : last ∈ splitlines lead := by simp [hbefore]
      exact ⟨hquiet.1, fun hmark => h (hmark.trans (splitlines_within hmem))⟩
  rw [finalTraceLines, hall, List.filterMap_append, hlast.1, List.nil_append, List.filterMap_cons, rawJson_lead hlast.2]
  split_ifs <;> rfl

/-- The last pass reads an object as it is just when no line break stands in it. -/
theorem finalTraceLines_object (h : ¬ tracePrefix <:+: lead) {json : PyStr} (hjson : ObjectText json) (s : PyStr) :
    (∀ c ∈ json, isLineBreak c = false) ∧
        finalTraceLines (lead ++ (tracePrefix ++ (json ++ 13 :: 10 :: s))) = json :: finalTraceLines s ∨
      ¬ (∀ c ∈ json, isLineBreak c = false) ∧ ∃ part more, part ≠ json ∧
        finalTraceLines (lead ++ (tracePrefix ++ (json ++ 13 :: 10 :: s))) = part :: more := by
  by_cases hplain : ∀ c ∈ json, isLineBreak c = false
  · refine .inl ⟨hplain, ?_⟩
    have hstrip : strip json = json := by
      obtain ⟨-, inner, rfl⟩ := hjson
      have hends : strip (123 :: (inner ++ [125]) ++ []) = 123 :: (inner ++ [125]) :=
        strip_ends (by decide) (by decide) (by simp) inner
      rwa [List.append_nil] at hends
    have hne : json ≠ [] := by
      obtain ⟨-, inner, rfl⟩ := hjson
      exact List.cons_ne_nil _ _
    rw [finalTraceLines_lead h (splitlines_line hplain s), hstrip, if_neg hne]
    rfl
  · refine .inr ⟨hplain, ?_⟩
    obtain ⟨-, inner, rfl⟩ := hjson
    rcases plain_or_break (inner ++ [125]) with hall | ⟨run, c, rest, hinner, hrun, hbreak⟩
    · exact absurd (List.forall_mem_cons.mpr ⟨by decide, hall⟩) hplain
    · obtain ⟨lines, hlines⟩ := splitlines_first hbreak (rest ++ 13 :: 10 :: s)
      have hopen : ∀ d ∈ 123 :: run, isLineBreak d = false := List.forall_mem_cons.mpr ⟨by decide, hrun⟩
      have hline := splitlines_run hopen hlines
      have htext : 123 :: run ++ c :: (rest ++ 13 :: 10 :: s) = 123 :: (inner ++ [125]) ++ 13 :: 10 :: s := by
        simp [hinner]
      rw [htext, List.append_nil] at hline
      have hne : strip (123 :: run) ≠ [] := strip_cons_ne_nil (by decide) run
      refine ⟨strip (123 :: run), lines.filterMap rawJson, ?_, ?_⟩
      · intro hsame
        have hlen := strip_length_le (123 :: run)
        rw [hsame, hinner] at hlen
        simp at hlen
      · rw [finalTraceLines_lead h hline, if_neg hne]
        rfl

end Marks

section Serial

variable {lines : List SerialLine} {tail s : PyStr}

/-- A line on the serial line: other output, or an object behind the mark. -/
inductive SerialLine where
  | other (text : PyStr)
  | object (lead json : PyStr)

def SerialLine.text : SerialLine → PyStr
  | .other text => text ++ [10]
  | .object lead json => lead ++ (tracePrefix ++ (json ++ [13, 10]))

def SerialLine.json : SerialLine → Option PyStr
  | .other _ => none
  | .object _ json => some json

def SerialLine.Clean : SerialLine → Prop
  | .other text => QuietText text
  | .object lead json => QuietText lead ∧ ObjectText json

/-- The reader takes the objects of the complete lines. -/
theorem objects_read (hlines : ∀ line ∈ lines, line.Clean) (htail : QuietText tail) :
    (Framed.split 10 (lines.flatMap SerialLine.text ++ tail)).1.filterMap rawJson = lines.filterMap SerialLine.json := by
  induction lines with
  | nil => rw [List.flatMap_nil, List.nil_append, Framed.split_rest htail.lf]; rfl
  | cons line lines ih =>
    obtain ⟨hline, hrest⟩ := List.forall_mem_cons.mp hlines
    cases line with
    | other text =>
      have htext : (SerialLine.other text :: lines).flatMap SerialLine.text ++ tail =
          text ++ 10 :: (lines.flatMap SerialLine.text ++ tail) := by simp [SerialLine.text]
      rw [htext, Framed.split_frame hline.lf, List.filterMap_cons, rawJson_none hline.mark, ih hrest]
      rfl
    | object lead json =>
      obtain ⟨hlead, hjson⟩ := hline
      have htext : (SerialLine.object lead json :: lines).flatMap SerialLine.text ++ tail =
          (lead ++ (tracePrefix ++ (json ++ [13]))) ++ 10 :: (lines.flatMap SerialLine.text ++ tail) := by
        simp [SerialLine.text]
      have hmark : 10 ∉ tracePrefix := by decide
      have hframe : 10 ∉ lead ++ (tracePrefix ++ (json ++ [13])) := by simp [hlead.lf, hmark, hjson.1]
      rw [htext, Framed.split_frame hframe, List.filterMap_cons, rawJson_object hlead.mark hjson (by decide), ih hrest]
      rfl

/-- The last pass finds the same objects just when no line break stands in one of them. -/
theorem finalTraceLines_iff (hlines : ∀ line ∈ lines, line.Clean) (htail : QuietText tail) :
    finalTraceLines (lines.flatMap SerialLine.text ++ tail) = lines.filterMap SerialLine.json ↔
      ∀ json ∈ lines.filterMap SerialLine.json, ∀ c ∈ json, isLineBreak c = false := by
  induction lines with
  | nil => simpa [finalTraceLines] using quiet_lines htail.mark
  | cons line lines ih =>
    obtain ⟨hline, hrest⟩ := List.forall_mem_cons.mp hlines
    cases line with
    | other text =>
      have htext : (SerialLine.other text :: lines).flatMap SerialLine.text ++ tail =
          text ++ 10 :: (lines.flatMap SerialLine.text ++ tail) := by simp [SerialLine.text]
      have hquiet : ¬ tracePrefix <:+: text ++ [10] := by
        rw [List.infix_concat_iff, List.suffix_concat_iff]
        intro hmark
        rcases hmark with (hnil | ⟨front, hfront, -⟩) | hinfix
        · exact absurd hnil (by decide)
        · have hlf : 10 ∈ tracePrefix := by simp [hfront]
          exact absurd hlf (by decide)
        · exact hline.mark hinfix
      have hstep : finalTraceLines (text ++ 10 :: (lines.flatMap SerialLine.text ++ tail)) =
          finalTraceLines (lines.flatMap SerialLine.text ++ tail) := by
        rw [finalTraceLines, splitlines_feed, List.filterMap_append, quiet_lines hquiet, List.nil_append, finalTraceLines]
      rw [htext, hstep]
      exact ih hrest
    | object lead json =>
      obtain ⟨hlead, hjson⟩ := hline
      have htext : (SerialLine.object lead json :: lines).flatMap SerialLine.text ++ tail =
          lead ++ (tracePrefix ++ (json ++ 13 :: 10 :: (lines.flatMap SerialLine.text ++ tail))) := by
        simp [SerialLine.text]
      have hobjects : (SerialLine.object lead json :: lines).filterMap SerialLine.json =
          json :: lines.filterMap SerialLine.json := rfl
      rw [htext, hobjects, List.forall_mem_cons]
      rcases finalTraceLines_object hlead.mark hjson (lines.flatMap SerialLine.text ++ tail) with
        ⟨hplain, hfinal⟩ | ⟨hbroken, part, more, hpart, hfinal⟩
      · rw [hfinal, List.cons.injEq, ih hrest]
        tauto
      · rw [hfinal, List.cons.injEq]
        tauto

end Serial

section Guest

variable {text : Bytes} {s : PyStr} {sent : List UartLine} {ms : ℕ} {e : Agent.TraceEvent}

/-- What the guest writes to the serial line up to a line end: other output, or an event behind other output. -/
inductive UartLine where
  | other (text : Bytes)
  | event (lead : Bytes) (ms : ℕ) (e : Agent.TraceEvent)

def UartLine.bytes : UartLine → Bytes
  | .other text => text ++ [lf]
  | .event lead ms e => lead ++ e.line ms

def UartLine.json : UartLine → Option Json
  | .other _ => none
  | .event _ ms e => some (e.json ms)

/-- UTF-8 in one line without the mark. -/
structure Quiet (text : Bytes) : Prop where
  utf8 : Utf8 text
  lf : lf ∉ text
  mark : ¬ ascii "TRACE " <:+: text

/-- What the agent sends. -/
def UartLine.Sent : UartLine → Prop
  | .other text => Quiet text
  | .event lead ms e => Quiet lead ∧ ms < 2 ^ 64 ∧ Agent.Traced e

theorem mark_decodes : DecodesTo (ascii "TRACE ") tracePrefix := ascii_decodes (by decide)

theorem Quiet.decoded (h : Quiet text) (hs : DecodesTo text s) : QuietText s :=
  ⟨fun hlf => h.lf (hs.mem hlf (by decide)), fun hmark => h.mark (hs.within mark_decodes hmark)⟩

theorem json_decoded (hs : DecodesTo (e.json ms).compact s) : ObjectText s := by
  have hshown := compact_shown (e.json ms)
  constructor
  · intro hlf
    exact absurd (hshown.shown _ (hs.mem hlf (by decide))) (by decide)
  · obtain ⟨members, hmembers⟩ : ∃ members, e.json ms = .obj members := ⟨_, rfl⟩
    rw [hmembers, Json.compact] at hs
    obtain ⟨inner, hinner⟩ := utf8_decodes (compactMembers_shown members).utf8
    have hopen : DecodesTo [openBrace] [123] := ⟨['\x7b'], by decide, by decide⟩
    have hclose : DecodesTo [closeBrace] [125] := ⟨['\x7d'], by decide, by decide⟩
    exact ⟨inner, hs.unique (hopen.append (hinner.append hclose))⟩

/-- The decoded line. -/
theorem UartLine.decodes {line : UartLine} (h : line.Sent) : ∃ serial : SerialLine,
    DecodesTo line.bytes serial.text ∧ serial.Clean ∧
      Option.Rel (fun v text => DecodesTo v.compact text) line.json serial.json := by
  cases line with
  | other text =>
    obtain ⟨s, hs⟩ := utf8_decodes h.utf8
    have hlf : DecodesTo [lf] [10] := ⟨['\n'], by decide, by decide⟩
    exact ⟨.other s, hs.append hlf, h.decoded hs, .none⟩
  | event lead ms e =>
    obtain ⟨hlead, -, htraced⟩ := h
    obtain ⟨s, hs⟩ := utf8_decodes hlead.utf8
    obtain ⟨json, hjson⟩ := utf8_decodes (compact_shown (e.json ms)).utf8
    have hend : DecodesTo [cr, lf] [13, 10] := ⟨['\r', '\n'], by decide, by decide⟩
    refine ⟨.object s json, ?_, ⟨hlead.decoded hs, json_decoded hjson⟩, .some hjson⟩
    rw [bytes, Agent.TraceEvent.line_eq htraced.sound, List.append_assoc]
    exact hs.append (mark_decodes.append (hjson.append hend))

theorem sent_decoded (hsent : ∀ line ∈ sent, line.Sent) : ∃ lines : List SerialLine,
    DecodesTo (sent.flatMap UartLine.bytes) (lines.flatMap SerialLine.text) ∧ (∀ line ∈ lines, line.Clean) ∧
      List.Forall₂ (fun v text => DecodesTo v.compact text) (sent.filterMap UartLine.json)
        (lines.filterMap SerialLine.json) := by
  induction sent with
  | nil => exact ⟨[], ⟨[], rfl, rfl⟩, by simp, .nil⟩
  | cons line sent ih =>
    obtain ⟨hline, hrest⟩ := List.forall_mem_cons.mp hsent
    obtain ⟨serial, htext, hclean, hjson⟩ := UartLine.decodes hline
    obtain ⟨lines, htexts, hcleans, hjsons⟩ := ih hrest
    refine ⟨serial :: lines, htext.append htexts, List.forall_mem_cons.mpr ⟨hclean, hcleans⟩, ?_⟩
    cases hv : line.json <;> cases ht : serial.json <;> rw [hv, ht] at hjson <;> cases hjson
    · rwa [List.filterMap_cons_none hv, List.filterMap_cons_none ht]
    · rename_i hdecodes
      rw [List.filterMap_cons_some hv, List.filterMap_cons_some ht]
      exact .cons hdecodes hjsons

/-- The lines that stand in the decoded text. -/
structure Decoded (sent : List UartLine) (uartText : PyStr) (lines : List SerialLine) (rest : PyStr) : Prop where
  text : uartText = lines.flatMap SerialLine.text ++ rest
  clean : ∀ line ∈ lines, line.Clean
  quiet : QuietText rest
  json : List.Forall₂ (fun v text => DecodesTo v.compact text) (sent.filterMap UartLine.json)
    (lines.filterMap SerialLine.json)

theorem lines_decoded {tail : Bytes} {uartText : PyStr} (hsent : ∀ line ∈ sent, line.Sent) (htail : Quiet tail)
    (huart : DecodesTo (sent.flatMap UartLine.bytes ++ tail) uartText) : ∃ lines rest, Decoded sent uartText lines rest := by
  obtain ⟨lines, hlines, hclean, hjson⟩ := sent_decoded hsent
  obtain ⟨rest, hrest⟩ := utf8_decodes htail.utf8
  exact ⟨lines, rest, huart.unique (hlines.append hrest), hclean, htail.decoded hrest, hjson⟩

theorem Decoded.traceLines {Event : Type} {loads : PyStr → Option Event} {chunks : List PyStr} {lines : List SerialLine}
    {rest : PyStr} (h : Decoded sent chunks.flatten lines rest) :
    (chunks.foldl (Output.processOutput loads) Output.start).traceLines = lines.filterMap SerialLine.json := by
  rw [(processOutput_chunks loads chunks).lines, h.text, objects_read h.clean h.quiet]

theorem Decoded.finalTraceLines {uartText rest : PyStr} {lines : List SerialLine}
    (h : Decoded sent uartText lines rest) : Harness.finalTraceLines uartText = lines.filterMap SerialLine.json ↔
      ∀ json ∈ lines.filterMap SerialLine.json, ∀ c ∈ json, isLineBreak c = false := by
  rw [h.text]
  exact finalTraceLines_iff h.clean h.quiet

def turnSent : List UartLine :=
  [.other (ascii "Goal > hi"), .event (ascii "> ") 5 (Agent.traceModelTurnCompleted 1 (ascii "done"))]

def turnChunks : List PyStr :=
  [str "Goal > hi\n> TRA", str "CE \x7b\"event\":\"model_turn_completed\",\"ts_ms\":5,\"st",
    str "ep\":1,\"stop_reason\":\"done\"\x7d\r", str "\nGoal"]

theorem quiet_ascii {text : String} (h : text.toList.all PlainChar = true) (hmark : ¬ ascii "TRACE " <:+: ascii text) :
    Quiet (ascii text) := by
  have hplain := plain_ascii String.ofList_toList.symm h
  exact ⟨hplain.utf8, fun hlf => absurd ((plainText_shown hplain).shown _ hlf) (by decide), hmark⟩

theorem turnChunks_decode : DecodesTo (turnSent.flatMap UartLine.bytes ++ ascii "Goal") turnChunks.flatten :=
  ⟨("Goal > hi\n> TRACE \x7b\"event\":\"model_turn_completed\",\"ts_ms\":5,\"step\":1," ++
    "\"stop_reason\":\"done\"\x7d\r\nGoal").toList, by decide +kernel, by decide +kernel⟩

theorem turnSent_sent : ∀ line ∈ turnSent, line.Sent := by
  refine List.forall_mem_cons.mpr ⟨quiet_ascii (by decide) (by decide), List.forall_mem_singleton.mpr ?_⟩
  have hdone : Utf8 (ascii "done") := (plain_ascii String.ofList_toList.symm (by decide)).utf8
  exact ⟨quiet_ascii (by decide) (by decide), by decide, .modelTurnCompleted hdone (by decide)⟩

end Guest

end MiniAgentOS.Harness
