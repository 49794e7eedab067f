import MiniAgentOS.Agent.Policy
import MiniAgentOS.Text.Grammar
import MiniAgentOS.Text.Prefix

/-! What the policy of a task allows, compared with what its JSON says. The policy looks for a quoted key anywhere in
the text, and allows everything where it finds no list behind it that it can read. -/
set_option maxRecDepth 4000

namespace MiniAgentOS.Agent
open Checked Fetch Net

section Lists

/-- A string up to its closing quote, as `json_string_array_contains` reads it: a backslash is dropped. -/
inductive RawString : Bytes → Bytes → Prop where
  | nil : RawString [] []
  | byte {b : UInt8} {text raw : Bytes} : b ≠ quote → b ≠ backslash → RawString text raw →
      RawString (b :: text) (b :: raw)
  | escape {b : UInt8} {text raw : Bytes} : RawString text raw → RawString (backslash :: b :: text) (b :: raw)

/-- Strings up to a closing bracket, with blanks and commas between them in any number. -/
inductive RawList : Bytes → List Bytes → Prop where
  | done {rest : Bytes} : RawList (93 :: rest) []
  | skip {b : UInt8} {rest : Bytes} {items : List Bytes} : (isSpace b || b == 44) = true → RawList rest items →
      RawList (b :: rest) items
  | item {text raw rest : Bytes} {items : List Bytes} : RawString text raw → RawList rest items →
      RawList (quote :: (text ++ quote :: rest)) (raw :: items)

/-- The string in front of the next quote, and what follows the quote; `escaped` behind a backslash. -/
def readRaw : Bool → Bytes → Option (Bytes × Bytes)
  | _, [] => none
  | true, b :: text => (readRaw false text).map fun found => (b :: found.1, found.2)
  | false, b :: text =>
    if b = quote then some ([], text)
    else if b = backslash then readRaw true text
    else (readRaw false text).map fun found => (b :: found.1, found.2)

variable {text raw rest want buf : Bytes} {items : List Bytes}

theorem readRaw_string (h : RawString text raw) (rest : Bytes) :
    readRaw false (text ++ quote :: rest) = some (raw, rest) := by
  induction h with
  | nil => rw [List.nil_append, readRaw, if_pos rfl]
  | byte hquote hslash _ ih =>
    rw [List.cons_append, readRaw, if_neg hquote, if_neg hslash, ih]
    rfl
  | escape _ ih =>
    have hslash : ¬ backslash = quote := by decide
    rw [List.cons_append, List.cons_append, readRaw, if_neg hslash, if_pos rfl, readRaw, ih]
    rfl

theorem readRaw_some {escaped : Bool} (h : readRaw escaped buf = some (raw, rest)) :
    ∃ text, RawString ((if escaped then [backslash] else []) ++ text) raw ∧ buf = text ++ quote :: rest := by
  induction buf generalizing escaped raw with
  | nil => cases h
  | cons b buf ih =>
    cases escaped with
    | true =>
      rw [readRaw, Option.map_eq_some_iff] at h
      obtain ⟨⟨raw', rest'⟩, hfound, hpair⟩ := h
      obtain ⟨rfl, rfl⟩ := Prod.mk.inj hpair
      obtain ⟨text, htext, rfl⟩ := ih hfound
      exact ⟨b :: text, .escape htext, rfl⟩
    | false =>
      rw [readRaw] at h
      split_ifs at h with hquote hslash
      · obtain ⟨rfl, rfl⟩ := Prod.mk.inj (Option.some.inj h)
        exact ⟨[], .nil, by rw [hquote]; rfl⟩
      · obtain ⟨text, htext, rfl⟩ := ih h
        exact ⟨b :: text, by rw [hslash]; exact htext, rfl⟩
      · rw [Option.map_eq_some_iff] at h
        obtain ⟨⟨raw', rest'⟩, hfound, hpair⟩ := h
        obtain ⟨rfl, rfl⟩ := Prod.mk.inj hpair
        obtain ⟨text, htext, rfl⟩ := ih hfound
        exact ⟨b :: text, .byte hquote hslash htext, rfl⟩

theorem drop_cons_iff (want raw : Bytes) (b : UInt8) (idx : ℕ) :
    (want[idx]? == some b && decide (want.drop (idx + 1) = raw)) = decide (want.drop idx = b :: raw) := by
  rcases Nat.lt_or_ge idx want.length with hlt | hge
  · have hdrop := List.drop_eq_getElem_cons hlt
    rw [List.getElem?_eq_getElem hlt, Bool.eq_iff_iff]
    simp only [Bool.and_eq_true, beq_iff_eq, Option.some.injEq, decide_eq_true_eq, hdrop, List.cons.injEq]
  · rw [List.getElem?_eq_none hge, List.drop_of_length_le hge]
    simp

/-- What a comparison that has come to `off` finds: whether the rest matches, and the closing quote. -/
def comparison (buf want : Bytes) (off idx : ℕ) (matched : Bool) : Option (Bool × ℕ) :=
  (readRaw false (buf.drop off)).map fun found =>
    (matched && decide (want.drop idx = found.1), buf.length - found.2.length - 1)

theorem comparison_byte {off idx : ℕ} {matched : Bool} (hoff : off < buf.length) (hquote : buf[off] ≠ quote)
    (hslash : buf[off] ≠ backslash) : comparison buf want off idx matched =
      comparison buf want (off + 1) (idx + 1) (matched && want[idx]? == some buf[off]) := by
  have hdrop := List.drop_eq_getElem_cons hoff
  unfold comparison
  rw [hdrop, readRaw, if_neg hquote, if_neg hslash, Option.map_map]
  congr 1
  funext found
  simp only [Function.comp_apply, Bool.and_assoc, drop_cons_iff]

theorem comparison_escape {off idx : ℕ} {matched : Bool} (hoff : off + 1 < buf.length)
    (hslash : buf[off] = backslash) : comparison buf want off idx matched =
      comparison buf want (off + 2) (idx + 1) (matched && want[idx]? == some buf[off + 1]) := by
  have hdrop : buf.drop off = backslash :: buf[off + 1] :: buf.drop (off + 2) := by
    rw [List.drop_eq_getElem_cons (by omega), List.drop_eq_getElem_cons hoff, hslash]
  have hne : ¬ backslash = quote := by decide
  unfold comparison
  rw [hdrop, readRaw, if_neg hne, if_pos rfl, readRaw, Option.map_map]
  congr 1
  funext found
  simp only [Function.comp_apply, Bool.and_assoc, drop_cons_iff]

theorem comparison_quote {off idx : ℕ} {matched : Bool} (hoff : off < buf.length) (hquote : buf[off] = quote)
    (hidx : matched = true → idx ≤ want.length) :
    comparison buf want off idx matched = some (matched && idx == want.length, off) := by
  have hdrop := List.drop_eq_getElem_cons hoff
  have hend : (matched && decide (want.drop idx = [])) = (matched && idx == want.length) := by
    cases matched with
    | false => rfl
    | true =>
      have hle := hidx rfl
      rw [Bool.true_and, Bool.true_and, Bool.eq_iff_iff]
      simp
      omega
  unfold comparison
  rw [hdrop, readRaw, if_pos hquote, Option.map_some, hend, List.length_drop]
  congr 2
  omega

/-- Comparing a string reads it up to its closing quote. -/
theorem compareString_eq (buf want : Bytes) (start : ℕ) :
    compareString buf want buf.length start = .ok (comparison buf want start 0 true) := by
  have hspec : Returns (compareString buf want buf.length start) (· = comparison buf want start 0 true) := by
    refine returns_loop (fun s => (s.2.2 = true → s.2.1 ≤ want.length) ∧
      comparison buf want s.1 s.2.1 s.2.2 = comparison buf want start 0 true) (fun s => buf.length - s.1) ?_
      ⟨fun _ => Nat.zero_le _, rfl⟩ (by simp)
    intro ⟨off, idx, matched⟩ ⟨hidx, hsame⟩
    have hnext : ∀ b, (matched && want[idx]? == some b) = true → idx + 1 ≤ want.length := by
      intro b hb
      obtain ⟨-, hcell⟩ := (Bool.and_eq_true _ _).mp hb
      obtain ⟨hlt, -⟩ := List.getElem?_eq_some_iff.mp (eq_of_beq hcell)
      exact hlt
    dsimp only at hidx hsame ⊢
    by_cases hoff : off < buf.length
    swap
    · have hnil : buf.drop off = [] := List.drop_of_length_le (by omega)
      rw [if_neg hoff, returns_pure, roundPost_done, ← hsame, comparison, hnil]
      rfl
    rw [if_pos hoff, index_eq hoff, ok_bind]
    by_cases hquote : buf[off] = quote
    · rw [if_pos hquote, returns_pure, roundPost_done, ← hsame, comparison_quote hoff hquote hidx]
    rw [if_neg hquote]
    by_cases hslash : buf[off] = backslash
    · rw [if_pos hslash]
      by_cases hlast : off + 1 ≥ buf.length
      · have hdrop : buf.drop off = [backslash] := by
          rw [List.drop_eq_getElem_cons hoff, List.drop_of_length_le hlast, hslash]
        rw [if_pos hlast, returns_pure, roundPost_done, ← hsame, comparison, hdrop]
        rfl
      · rw [if_neg hlast, index_eq (by omega), Except.map_ok, returns_ok, roundPost_next]
        refine ⟨⟨hnext _, ?_⟩, by omega⟩
        rw [← hsame, comparison_escape (by omega) hslash]
    · rw [if_neg hslash, returns_pure, roundPost_next]
      refine ⟨⟨hnext _, ?_⟩, by omega⟩
      rw [← hsame, comparison_byte hoff hquote hslash]
  obtain ⟨r, hr, rfl⟩ := hspec
  exact hr

/-- A list that is read up to its bracket without finding `want`. -/
def Others (want text : Bytes) : Prop := ∃ items, RawList text items ∧ want ∉ items

/-- What may stand between two elements, as the policy reads a list. -/
def between (b : UInt8) : Bool := isSpace b || b == 44

theorem between_ne {b : UInt8} (h : between b = true) : b ≠ 93 ∧ b ≠ quote := by
  constructor
  · rintro rfl
    exact absurd h (by decide)
  · rintro rfl
    exact absurd h (by decide)

theorem not_others_nil (want : Bytes) : ¬ Others want [] := by
  intro ⟨items, hlist, _⟩
  cases hlist

theorem others_done (want rest : Bytes) : Others want (93 :: rest) := ⟨[], .done, List.not_mem_nil⟩

theorem others_skip {b : UInt8} (hb : between b = true) : Others want (b :: rest) ↔ Others want rest := by
  obtain ⟨hbracket, hquote⟩ := between_ne hb
  constructor
  · intro ⟨items, hlist, hmem⟩
    cases hlist with
    | done => exact absurd rfl hbracket
    | skip _ hrest => exact ⟨items, hrest, hmem⟩
    | item _ _ => exact absurd rfl hquote
  · intro ⟨items, hlist, hmem⟩
    exact ⟨items, .skip hb hlist, hmem⟩

theorem others_dropWhile (want text : Bytes) : Others want (text.dropWhile between) ↔ Others want text := by
  induction text with
  | nil => rfl
  | cons b text ih =>
    by_cases hb : between b = true
    · rw [List.dropWhile_cons_of_pos hb, ih, others_skip hb]
    · rw [List.dropWhile_cons_of_neg hb]

theorem not_others {b : UInt8} (hb : between b ≠ true) (hbracket : b ≠ 93) (hquote : b ≠ quote) :
    ¬ Others want (b :: rest) := by
  intro ⟨items, hlist, _⟩
  cases hlist with
  | done => exact hbracket rfl
  | skip hskip _ => exact hb hskip
  | item _ _ => exact hquote rfl

/-- Behind an opening quote the string is read, and then the rest. -/
theorem others_quote (want text : Bytes) : Others want (quote :: text) ↔
    ∃ raw rest, readRaw false text = some (raw, rest) ∧ want ≠ raw ∧ Others want rest := by
  constructor
  · intro ⟨items, hlist, hmem⟩
    cases hlist with
    | skip hskip _ => exact absurd rfl (between_ne hskip).2
    | item hraw hrest =>
      rw [List.mem_cons, not_or] at hmem
      exact ⟨_, _, readRaw_string hraw _, hmem.1, _, hrest, hmem.2⟩
  · intro ⟨raw, rest, hread, hne, items, hlist, hmem⟩
    obtain ⟨text, hraw, rfl⟩ := readRaw_some hread
    refine ⟨raw :: items, .item hraw hlist, ?_⟩
    rw [List.mem_cons, not_or]
    exact ⟨hne, hmem⟩

/-- What is read from a place in a buffer stands behind it, at the end of the buffer. -/
theorem readRaw_drop {off : ℕ} (h : readRaw false (buf.drop off) = some (raw, rest)) :
    off < buf.length - rest.length ∧ buf.drop (buf.length - rest.length) = rest := by
  obtain ⟨text, -, hdrop⟩ := readRaw_some h
  have hlen := congrArg List.length hdrop
  rw [List.length_drop, List.length_append, List.length_cons] at hlen
  have hsuffix : rest <:+ buf := by
    have hwhole : rest <:+ buf.drop off := ⟨text ++ [quote], by rw [hdrop]; simp⟩
    exact hwhole.trans (List.drop_suffix off buf)
  exact ⟨by omega, (List.suffix_iff_eq_drop.mp hsuffix).symm⟩

theorem drop_takeWhile (cls : UInt8 → Bool) (buf : Bytes) (off : ℕ) :
    buf.drop (off + ((buf.drop off).takeWhile cls).length) = (buf.drop off).dropWhile cls := by
  have hsplit := List.takeWhile_append_dropWhile (p := cls) (l := buf.drop off)
  rw [← List.drop_drop]
  calc (buf.drop off).drop ((buf.drop off).takeWhile cls).length
      = ((buf.drop off).takeWhile cls ++ (buf.drop off).dropWhile cls).drop
          ((buf.drop off).takeWhile cls).length := by rw [hsplit]
    _ = (buf.drop off).dropWhile cls := List.drop_left

/-- One round of the search through a list. -/
def searchRound (buf want : Bytes) (off : ℕ) : Checked (Round ℕ (Option Bool)) := do
  let off ← skipWhile between buf buf.length off
  if off ≥ buf.length then pure (.done none)
  else
    let b ← index buf off
    if b = 93 then pure (.done (some false))
    else if b ≠ quote then pure (.done none)
    else
      match ← compareString buf want buf.length (off + 1) with
      | none => pure (.done none)
      | some (true, _) => pure (.done (some true))
      | some (false, off) => pure (.next (off + 1))

/-- The search ends without `want` exactly where the list is such a list. -/
theorem searchList_spec {start fuel : ℕ} (hstart : start ≤ buf.length) (hfuel : buf.length - start < fuel) :
    Returns (loop (searchRound buf want) fuel start) fun r => r = some false ↔ Others want (buf.drop start) := by
  refine returns_loop (fun off => off ≤ buf.length ∧ (Others want (buf.drop off) ↔ Others want (buf.drop start)))
    (fun off => buf.length - off) ?_ ⟨hstart, Iff.rfl⟩ hfuel
  intro off ⟨hoff, hsame⟩
  obtain ⟨item, hitem⟩ : ∃ item, off + ((buf.drop off).takeWhile between).length = item := ⟨_, rfl⟩
  have hskip : skipWhile between buf buf.length off = .ok item := by rw [← hitem, skipWhile_eq between hoff]
  have hstop : ∀ hroom : item < buf.length, ¬ between buf[item] = true := by
    intro hroom
    obtain ⟨-, -, hend⟩ := (skipWhile_spec between hoff le_rfl).of_eq hskip
    rw [hend hroom _ (List.getElem?_eq_getElem hroom)]
    exact Bool.false_ne_true
  have hbehind := drop_takeWhile between buf off
  rw [← others_dropWhile, ← hbehind, hitem] at hsame
  unfold searchRound
  rw [hskip, ok_bind]
  by_cases hin : item ≥ buf.length
  · have hnil : buf.drop item = [] := List.drop_of_length_le hin
    have hnot := not_others_nil want
    rw [if_pos hin, returns_pure, roundPost_done, ← hsame, hnil]
    exact iff_of_false (by simp) hnot
  have hroom : item < buf.length := Nat.not_le.mp hin
  have hdrop := List.drop_eq_getElem_cons hroom
  rw [if_neg hin, index_eq hroom, ok_bind]
  by_cases hbracket : buf[item] = 93
  · have hdone := others_done want (buf.drop (item + 1))
    rw [if_pos hbracket, returns_pure, roundPost_done, ← hsame, hdrop, hbracket]
    exact iff_of_true rfl hdone
  rw [if_neg hbracket]
  by_cases hquote : buf[item] = quote
  · rw [if_neg (not_not_intro hquote), compareString_eq, ok_bind]
    rw [hdrop, hquote, others_quote] at hsame
    unfold comparison
    cases hread : readRaw false (buf.drop (item + 1)) with
    | none =>
      rw [hread] at hsame
      apply Returns.pure
      rw [roundPost_done, ← hsame]
      simp
    | some found =>
      obtain ⟨raw, rest⟩ := found
      obtain ⟨hbehind, hrest⟩ := readRaw_drop hread
      rw [hread] at hsame
      by_cases hwant : want = raw
      · have hnot : ¬ Others want (buf.drop start) := by
          rw [← hsame]
          intro ⟨raw', rest', hsome, hne, _⟩
          exact hne (hwant.trans (Prod.mk.inj (Option.some.inj hsome)).1)
        simp only [Option.map_some, Bool.true_and, List.drop_zero, decide_eq_true hwant]
        apply Returns.pure
        rw [roundPost_done]
        exact iff_of_false (by simp) hnot
      · have hiff : Others want rest ↔ Others want (buf.drop start) := by
          rw [← hsame]
          simp [hwant]
        have hclose : buf.length - rest.length - 1 + 1 = buf.length - rest.length := by omega
        simp only [Option.map_some, Bool.true_and, List.drop_zero, decide_eq_false hwant]
        apply Returns.pure
        rw [roundPost_next, hclose, hrest]
        exact ⟨⟨by omega, hiff⟩, by omega⟩
  · have hnot : ¬ Others want (buf[item] :: buf.drop (item + 1)) := not_others (hstop hroom) hbracket hquote
    rw [if_pos hquote, returns_pure, roundPost_done, ← hsame, hdrop]
    exact iff_of_false (by simp) hnot

end Lists

section Keys

variable {task key want : Bytes} {i off : ℕ}

/-- The text behind the first place where the key stands with a colon. -/
def Value (task key text : Bytes) : Prop :=
  ∃ i off, FoundKey task key 0 i off ∧ (task.drop off).dropWhile isSpace = text

theorem Value.unique {text other : Bytes} (h : Value task key text) (h' : Value task key other) : text = other := by
  obtain ⟨i, off, hfound, rfl⟩ := h
  obtain ⟨j, off', hfound', rfl⟩ := h'
  have hsame := Except.ok.inj (hfound.eq.symm.trans hfound'.eq)
  rw [Option.some.inj hsame]

def FoundValue (task key : Bytes) : Option ℕ → Prop
  | some start => start ≤ task.length ∧ Value task key (task.drop start)
  | none => ∀ text, ¬ Value task key text

/-- The policy finds the value behind the first such place. -/
theorem jsonFindValue_spec (task key : Bytes) :
    Returns (jsonFindValue task task.length key 0) (FoundValue task key) := by
  unfold jsonFindValue
  obtain ⟨r, hr, hspec⟩ := jsonFindKeyFrom_spec task key 0
  rw [hr, ok_bind]
  cases r with
  | none =>
    apply Returns.pure
    intro text ⟨i, off, hfound, _⟩
    exact hspec i (Nat.zero_le i) hfound.ends.keyAt
  | some off =>
    obtain ⟨i, hfound⟩ := hspec
    have hoff := hfound.ends.skip.2.2.2
    have hblanks : ((task.drop off).takeWhile isSpace).length ≤ task.length - off := by
      rw [← List.length_drop]
      exact (List.takeWhile_sublist _).length_le
    have hskip : skipWhile isSpace task task.length off = _ := skipWhile_eq isSpace hoff
    dsimp only
    rw [hskip, Except.map_ok, returns_ok]
    exact ⟨by omega, i, off, hfound, (drop_takeWhile isSpace task off).symm⟩

/-- A list stands behind the key, is read up to its bracket, and does not hold `want`. -/
def ListsOthers (task key want : Bytes) : Prop := ∃ rest, Value task key (91 :: rest) ∧ Others want rest

theorem jsonStringArrayContains_iff (task key want : Bytes) :
    jsonStringArrayContains task task.length key want = .ok (some false) ↔ ListsOthers task key want := by
  unfold jsonStringArrayContains
  obtain ⟨r, hr, hspec⟩ := jsonFindValue_spec task key
  rw [hr, ok_bind]
  cases r with
  | none => exact iff_of_false (by simp [pure, Except.pure]) fun ⟨rest, hvalue, _⟩ => hspec _ hvalue
  | some start =>
    obtain ⟨hstart, hvalue⟩ := hspec
    dsimp only
    unfold testAt
    by_cases hroom : start < task.length
    swap
    · have hnil : task.drop start = [] := List.drop_of_length_le (by omega)
      rw [if_neg hroom]
      refine iff_of_false (by simp [pure, Except.pure]) ?_
      intro ⟨rest, hlist, _⟩
      have hsame := hvalue.unique hlist
      rw [hnil] at hsame
      cases hsame
    have hdrop := List.drop_eq_getElem_cons hroom
    rw [hdrop] at hvalue
    rw [if_pos hroom, index_eq hroom, Except.map_ok, ok_bind]
    by_cases hopen : task[start] = 91
    · rw [if_pos (beq_iff_eq.mpr hopen)]
      have hfuel : task.length - (start + 1) < task.length - start + 1 := by omega
      obtain ⟨r, hloop, hothers⟩ : Returns (loop (searchRound task want) (task.length - start + 1) (start + 1)) _ :=
        searchList_spec hroom hfuel
      change loop (searchRound task want) _ _ = _ ↔ _
      rw [hloop, Except.ok.injEq, hothers]
      constructor
      · intro h
        exact ⟨_, hopen ▸ hvalue, h⟩
      · intro ⟨rest, hlist, h⟩
        rw [(List.cons.inj (hvalue.unique hlist)).2]
        exact h
    · rw [if_neg (by rw [beq_iff_eq]; exact hopen)]
      refine iff_of_false (by simp [pure, Except.pure]) ?_
      intro ⟨rest, hlist, _⟩
      exact hopen (List.cons.inj (hvalue.unique hlist)).1

/-- `true` stands behind the key. -/
def SaysTrue (task key : Bytes) : Prop := ∃ rest, Value task key (ascii "true" ++ rest)

theorem startsWithAt_eq {buf pat : Bytes} {off : ℕ} (hoff : off ≤ buf.length) :
    startsWithAt buf buf.length off pat = .ok (decide (pat <+: buf.drop off)) := by
  unfold startsWithAt
  by_cases hroom : off + pat.length > buf.length
  · have hnot : ¬ pat <+: buf.drop off := by
      intro hpre
      have hle := hpre.length_le
      rw [List.length_drop] at hle
      omega
    rw [if_pos hroom, decide_eq_false hnot]
    rfl
  · rw [if_neg hroom, matchesAt_eq (by omega)]

theorem agentAllowPublicHosts_iff (p : Policy) :
    agentAllowPublicHosts p = .ok true ↔ SaysTrue p.task (ascii "allow_public_hosts") := by
  unfold agentAllowPublicHosts jsonExtractBool
  obtain ⟨r, hr, hspec⟩ := jsonFindValue_spec p.task (ascii "allow_public_hosts")
  rw [hr, ok_bind]
  cases r with
  | none => exact iff_of_false (by simp [pure, Except.pure]) fun ⟨rest, hvalue⟩ => hspec _ hvalue
  | some start =>
    obtain ⟨hstart, hvalue⟩ := hspec
    dsimp only
    rw [startsWithAt_eq hstart, ok_bind]
    by_cases htrue : ascii "true" <+: p.task.drop start
    · obtain ⟨rest, hrest⟩ := htrue
      rw [if_pos (decide_eq_true ⟨rest, hrest⟩)]
      exact iff_of_true rfl ⟨rest, hrest ▸ hvalue⟩
    · rw [if_neg (by rw [decide_eq_true_eq]; exact htrue), startsWithAt_eq hstart, ok_bind]
      refine iff_of_false ?_ ?_
      · by_cases hfalse : ascii "false" <+: p.task.drop start
        · rw [if_pos (decide_eq_true hfalse)]
          simp [pure, Except.pure]
        · rw [if_neg (by rw [decide_eq_true_eq]; exact hfalse)]
          simp [pure, Except.pure]
      · intro ⟨rest, hsays⟩
        exact htrue ⟨rest, hsays.unique hvalue⟩

end Keys

section Permission

variable {p : Policy} {skill : Bytes} {step : ℕ} {url : Option Bytes}

/-- The task names no skills, or an array of strings with this one among them. -/
def SkillPermitted (members : List (Bytes × JsonValue)) (skill : Bytes) : Prop :=
  ∀ v, (ascii "allowed_skills", v) ∈ members → ∃ texts : List Bytes, v = .arr (texts.map .str) ∧ skill ∈ texts

/-- The task allows public hosts. -/
def PublicPermitted (members : List (Bytes × JsonValue)) : Prop :=
  (ascii "allow_public_hosts", .bool true) ∈ members ∧
    ∀ v, (ascii "allow_public_hosts", v) ∈ members → v = .bool true

/-- The task names no hosts, or an array of strings with this one among them, or it allows public hosts. -/
def HostPermitted (members : List (Bytes × JsonValue)) (host : Bytes) : Prop :=
  ∀ v, (ascii "allowed_hosts", v) ∈ members → ∃ texts : List Bytes, v = .arr (texts.map .str) ∧
    (host ∈ texts ∨ (PublicPermitted members ∧ isPrivateIpv4 host = false))

/-- The task permits the skill, and the host of the URL where there is one. -/
structure Permits (members : List (Bytes × JsonValue)) (skill : Bytes) (url : Option Bytes) : Prop where
  skill : SkillPermitted members skill
  host : ∀ target, url = some target → ∀ parts, parseAgentUrl target = some parts → HostPermitted members parts.host

/-- What the policy allows is permitted by the object that the task is. -/
def PolicyExact (p : Policy) (skill : Bytes) (step : ℕ) (url : Option Bytes) : Prop :=
  ∀ members, ValueText (.obj members) p.task → agentPolicyCheck p skill step url = .ok none →
    Permits members skill url

/-- Behind the key for hosts stands a list of others, and the host is not let through as a public one. -/
def HostDenied (task url : Bytes) : Prop := ∀ parts, parseAgentUrl url = some parts →
  ListsOthers task (ascii "allowed_hosts") parts.host ∧
    ¬ (SaysTrue task (ascii "allow_public_hosts") ∧ isPrivateIpv4 parts.host = false)

theorem jsonStringArrayContains_eq (task key want : Bytes) :
    ∃ listed, jsonStringArrayContains task task.length key want = .ok listed ∧
      (listed = some false ↔ ListsOthers task key want) := by
  obtain ⟨listed, hlisted, -⟩ : Returns (jsonStringArrayContains task task.length key want) fun _ => True :=
    jsonStringArrayContains_returns le_rfl
  refine ⟨listed, hlisted, ?_⟩
  rw [← jsonStringArrayContains_iff, hlisted, Except.ok.injEq]

theorem agentSkillAllowed_eq (p : Policy) (skill : Bytes) : ∃ allowed, agentSkillAllowed p skill = .ok allowed ∧
    (allowed = false ↔ ListsOthers p.task (ascii "allowed_skills") skill) := by
  obtain ⟨listed, hlisted, hothers⟩ := jsonStringArrayContains_eq p.task (ascii "allowed_skills") skill
  unfold agentSkillAllowed
  rw [hlisted, ok_bind, ← hothers]
  rcases listed with _ | _ | _
  · exact ⟨true, rfl, by simp⟩
  · exact ⟨false, rfl, by simp⟩
  · exact ⟨true, rfl, by simp⟩

theorem agentHostAllowed_eq (p : Policy) (url : Bytes) :
    ∃ allowed, agentHostAllowed p url = .ok allowed ∧ (allowed = false ↔ HostDenied p.task url) := by
  unfold agentHostAllowed HostDenied
  cases hparts : parseAgentUrl url with
  | none => exact ⟨false, rfl, by simp⟩
  | some parts =>
    obtain ⟨listed, hlisted, hothers⟩ := jsonStringArrayContains_eq p.task (ascii "allowed_hosts") parts.host
    dsimp only
    rw [hlisted, ok_bind]
    simp only [Option.some.injEq, forall_eq', ← hothers]
    rcases listed with _ | _ | _
    · exact ⟨true, rfl, by simp⟩
    · obtain ⟨allowPublic, hpublic, -⟩ : Returns (agentAllowPublicHosts p) fun _ => True := by
        unfold agentAllowPublicHosts
        exact returns_bind.mpr ((jsonExtractBool_returns le_rfl).mono fun _ _ => returns_pure.mpr trivial)
      have hsays := agentAllowPublicHosts_iff p
      rw [hpublic, Except.ok.injEq] at hsays
      refine ⟨allowPublic && ! isPrivateIpv4 parts.host, by rw [hpublic]; rfl, ?_⟩
      rw [← hsays]
      simp
    · exact ⟨true, rfl, by simp⟩

/-- When the policy allows a skill. -/
theorem agentPolicyCheck_iff : agentPolicyCheck p skill step url = .ok none ↔
    ¬ ListsOthers p.task (ascii "allowed_skills") skill ∧ (∀ target, url = some target → ¬ HostDenied p.task target) ∧
      ¬ (p.maxSteps ≠ 0 ∧ p.maxSteps < step) := by
  obtain ⟨allowed, hallowed, hskill⟩ := agentSkillAllowed_eq p skill
  unfold agentPolicyCheck
  rw [hallowed, ok_bind, ← hskill]
  cases allowed with
  | false => exact iff_of_false (by simp [pure, Except.pure]) fun h => h.1 rfl
  | true =>
    have hbudget : ∀ c : Prop, [Decidable c] →
        ((if c then pure (some Denial.budget) else pure none : Checked (Option Denial)) = .ok none ↔ ¬ c) := by
      intro c _
      by_cases hc : c
      · simp [hc, pure, Except.pure]
      · simp [hc, pure, Except.pure]
    cases url with
    | none => simpa using hbudget (p.maxSteps ≠ 0 ∧ p.maxSteps < step)
    | some target =>
      obtain ⟨allowed, hallowed, hhost⟩ := agentHostAllowed_eq p target
      dsimp only
      simp only [Option.some.injEq, forall_eq', ← hhost]
      rw [hallowed]
      cases allowed with
      | false => exact iff_of_false (by simp [pure, Except.pure]) fun h => h.2.1 rfl
      | true => simpa using hbudget (p.maxSteps ≠ 0 ∧ p.maxSteps < step)

/-- The policy allows nothing but what the task permits exactly where the task permits it, or where the text
denies it. -/
theorem policyExact_iff (p : Policy) (skill : Bytes) (step : ℕ) (url : Option Bytes) :
    PolicyExact p skill step url ↔
      (∀ members, ValueText (.obj members) p.task → Permits members skill url) ∨
      ListsOthers p.task (ascii "allowed_skills") skill ∨ (∃ target, url = some target ∧ HostDenied p.task target) ∨
      (p.maxSteps ≠ 0 ∧ p.maxSteps < step) := by
  have hiff : agentPolicyCheck p skill step url = .ok none ↔ _ := agentPolicyCheck_iff
  unfold PolicyExact
  rw [hiff]
  constructor
  · intro h
    by_contra hnone
    simp only [not_or, not_exists, not_and] at hnone
    obtain ⟨hpermits, hskill, hhost, hbudget⟩ := hnone
    exact hpermits fun members hmembers => h members hmembers ⟨hskill, hhost, fun hb => hbudget hb.1 hb.2⟩
  · intro h members hmembers ⟨hskill, hhost, hbudget⟩
    rcases h with h | h | ⟨target, htarget, hdenied⟩ | h
    · exact h members hmembers
    · exact absurd h hskill
    · exact absurd hdenied (hhost target htarget)
    · exact absurd h hbudget

/-- A task whose skills are a string, in place of an array. -/
def openPolicy : Policy where
  task := ascii "\x7b\"allowed_skills\":\"fetch_url\"\x7d"
  maxSteps := 0

theorem openPolicy_text :
    ValueText (.obj [(ascii "allowed_skills", .str (ascii "fetch_url"))]) openPolicy.task := by
  have hkey : StringText (ascii "allowed_skills") (ascii "allowed_skills") := stringText_plain (by decide)
  have hvalue : StringText (ascii "fetch_url") (ascii "fetch_url") := stringText_plain (by decide)
  exact .obj (.one (.str hkey) (.str hvalue))

/-- The policy allows every skill where the list of skills is no list. -/
theorem policyExact_open : ¬ ∀ p skill step url, PolicyExact p skill step url := by
  intro h
  have hallowed : agentPolicyCheck openPolicy (ascii "post_result") 0 none = .ok none := by decide
  obtain ⟨hskill, -⟩ := h openPolicy (ascii "post_result") 0 none _ openPolicy_text hallowed
  obtain ⟨texts, htexts, -⟩ := hskill _ List.mem_cons_self
  cases htexts

end Permission

end MiniAgentOS.Agent
