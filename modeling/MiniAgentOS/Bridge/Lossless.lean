import MiniAgentOS.Bridge.Calls
import MiniAgentOS.Bridge.Lines

/-! When an update patch changes only what its hunks say: the edit of the lines with their ends, and the line
ends for which the text that is written is the text of the edit. -/
namespace MiniAgentOS.Bridge
open FileTree Raising

section Edit

/-- The hunks of a patch body, `pending` the lines of the one that is read: none for a line of no known kind. -/
def hunksFrom (pending : List PyStr) : List PyStr → Option (List (List PyStr))
  | [] => some (if pending = [] then [] else [pending])
  | line :: body =>
    if (str "@@").isPrefixOf line then
      (hunksFrom [] body).map fun hunks => if pending = [] then hunks else pending :: hunks
    else if line.head? = some space ∨ line.head? = some plus ∨ line.head? = some minus then
      hunksFrom (pending ++ [line]) body
    else none

/-- What a hunk makes of the lines from its match on: a context line stays as it is, and a new line ends in a
line feed. -/
def replaceChunk : List PyStr → List Line → List Line
  | [], _ => []
  | mark :: hunk, lines =>
    if mark.head? = some plus then ⟨mark.drop 1, str "\n"⟩ :: replaceChunk hunk lines
    else if mark.head? = some space then lines.take 1 ++ replaceChunk hunk (lines.drop 1)
    else replaceChunk hunk (lines.drop 1)

/-- The lines with the old lines of each hunk replaced where they first match. -/
def editLines : List (List PyStr) → List Line → Option (List Line)
  | [], lines => some lines
  | hunk :: hunks, lines =>
    match findSequence (lines.map Line.text) (oldChunk hunk) 0 with
    | .error _ => none
    | .ok i =>
      (editLines hunks (lines.drop (i + (oldChunk hunk).length))).map fun rest =>
        lines.take i ++ replaceChunk hunk (lines.drop i) ++ rest

/-- The end of a line that another line follows. -/
def Line.separator (line : Line) : PyStr := if line.ending = [] then str "\n" else line.ending

/-- The text of lines: the last has an end if the text is terminated. -/
def linesText (terminated : Bool) : List Line → PyStr
  | [] => []
  | [line] => line.text ++ if terminated then line.separator else []
  | line :: next :: lines => line.text ++ line.separator ++ linesText terminated (next :: lines)

/-- The last line of the text has an end. -/
def terminated (s : PyStr) : Bool :=
  match (endedLines s).getLast? with
  | some line => line.ending ≠ []
  | none => false

/-- The last line ends in what `read_text` reads as a line feed. -/
def endsInNewline (s : PyStr) : Bool := (str "\n").isSuffixOf (universalNewlines s)

end Edit

section Lines

variable {s : PyStr} {lines : List Line} {line : Line}

/-- Only the last line may have no end. -/
theorem endedLines_ending (s : PyStr) : ∀ line ∈ (endedLines s).dropLast, line.ending ≠ [] := by
  fun_induction endedLines s with
  | case1 => exact fun line h => (List.not_mem_nil h).elim
  | case2 rest ih =>
    cases hrest : endedLines rest with
    | nil => exact fun line h => (List.not_mem_nil h).elim
    | cons line lines =>
      rw [hrest] at ih
      rw [List.dropLast_cons_cons]
      exact List.forall_mem_cons.mpr ⟨List.cons_ne_nil _ _, ih⟩
  | case3 c rest _ hbreak ih =>
    cases hrest : endedLines rest with
    | nil => exact fun line h => (List.not_mem_nil h).elim
    | cons line lines =>
      rw [hrest] at ih
      rw [List.dropLast_cons_cons]
      exact List.forall_mem_cons.mpr ⟨List.cons_ne_nil _ _, ih⟩
  | case4 c rest _ hbreak hnil ih => exact fun line h => (List.not_mem_nil h).elim
  | case5 c rest _ hbreak line lines hlines ih =>
    rw [hlines] at ih
    cases lines with
    | nil => exact fun line h => (List.not_mem_nil h).elim
    | cons next lines =>
      rw [List.dropLast_cons_cons] at ih ⊢
      obtain ⟨hline, hlines⟩ := List.forall_mem_cons.mp ih
      exact List.forall_mem_cons.mpr ⟨hline, hlines⟩

theorem linesText_eq_flat (hfull : ∀ line ∈ lines.dropLast, line.ending ≠ []) (ended : Bool)
    (hlast : ∀ line ∈ lines.getLast?, ended = true ↔ line.ending ≠ []) :
    linesText ended lines = lines.flatMap Line.full := by
  induction lines with
  | nil => rfl
  | cons line lines ih =>
    cases lines with
    | nil =>
      have hend := hlast line rfl
      rw [linesText, List.flatMap_singleton, Line.full, Line.separator]
      by_cases hnil : line.ending = []
      · have hfalse : ended = false := by simpa [hnil] using hend
        rw [hfalse, hnil]
        rfl
      · rw [hend.mpr hnil, if_neg hnil]
        rfl
    | cons next lines =>
      rw [List.dropLast_cons_cons] at hfull
      obtain ⟨hline, hfull⟩ := List.forall_mem_cons.mp hfull
      rw [linesText, List.flatMap_cons, ih hfull hlast, Line.full, Line.separator, if_neg hline]

/-- The lines of a text make up the text. -/
theorem linesText_endedLines (s : PyStr) : linesText (terminated s) (endedLines s) = s := by
  rw [linesText_eq_flat (endedLines_ending s), endedLines_flat]
  intro line hline
  unfold terminated
  rw [hline]
  exact decide_eq_true_iff

/-- The ends of lines that there are. -/
def Line.Ended (line : Line) : Prop := line.ending = [] ∨ line.ending = [13, 10] ∨ ∃ c, line.ending = [c]

theorem endedLines_ended (s : PyStr) : ∀ line ∈ endedLines s, line.Ended := by
  fun_induction endedLines s with
  | case1 => exact fun line h => (List.not_mem_nil h).elim
  | case2 rest ih => exact List.forall_mem_cons.mpr ⟨.inr (.inl rfl), ih⟩
  | case3 c rest _ hbreak ih => exact List.forall_mem_cons.mpr ⟨.inr (.inr ⟨c, rfl⟩), ih⟩
  | case4 c rest _ hbreak hnil ih => exact List.forall_mem_cons.mpr ⟨.inl rfl, fun _ h => (List.not_mem_nil h).elim⟩
  | case5 c rest _ hbreak line lines hlines ih =>
    rw [hlines] at ih
    obtain ⟨hline, hlines⟩ := List.forall_mem_cons.mp ih
    exact List.forall_mem_cons.mpr ⟨hline, hlines⟩

def Line.read (line : Line) : Line :=
  if line.ending = [13] ∨ line.ending = [13, 10] then { line with ending := [10] } else line

theorem endedLines_break {c : ℕ} (hbreak : isLineBreak c = true) (hcr : c ≠ 13) (rest : PyStr) :
    endedLines (c :: rest) = ⟨[], [c]⟩ :: endedLines rest := by
  rw [endedLines, if_pos hbreak]
  exact fun _ h => absurd h hcr

/-- Reading the line ends as line feeds does not change the lines. -/
theorem endedLines_universalNewlines (s : PyStr) :
    endedLines (universalNewlines s) = (endedLines s).map Line.read := by
  fun_induction endedLines s with
  | case1 => rfl
  | case2 rest ih =>
    rw [universalNewlines, endedLines_break (by decide) (by decide), ih]
    rfl
  | case3 c rest hnot hbreak ih =>
    rw [universalNewlines, List.map_cons, ← ih]
    · by_cases hcr : c = 13
      · rw [if_pos hcr, hcr, endedLines_break (by decide) (by decide)]
        rfl
      · rw [if_neg hcr, endedLines_break hbreak hcr, Line.read, if_neg]
        rintro (h | h)
        · exact hcr (List.cons.inj h).1
        · exact absurd (List.cons.inj h).2 (List.cons_ne_nil _ _).symm
    · exact hnot
  | case4 c rest hnot hbreak hnil ih =>
    have hcr : c ≠ 13 := by
      rintro rfl
      exact hbreak (by decide)
    rw [hnil] at ih
    rw [universalNewlines, if_neg hcr, endedLines, if_neg hbreak, ih]
    · rfl
    · exact fun _ h => absurd h hcr
    · exact hnot
  | case5 c rest hnot hbreak line lines hlines ih =>
    have hcr : c ≠ 13 := by
      rintro rfl
      exact hbreak (by decide)
    rw [hlines] at ih
    rw [universalNewlines, if_neg hcr, endedLines, if_neg hbreak, ih]
    · simp only [List.map_cons, Line.read]
      split_ifs
      · rfl
      · rfl
    · exact fun _ h => absurd h hcr
    · exact hnot

theorem splitlines_universalNewlines (s : PyStr) : splitlines (universalNewlines s) = splitlines s := by
  unfold splitlines
  rw [endedLines_universalNewlines, List.map_map]
  apply List.map_congr_left
  intro line _
  change line.read.text = line.text
  unfold Line.read
  split_ifs
  · rfl
  · rfl

end Lines

section Splices

variable {hunk : List PyStr} {lines : List Line} {haystack needle : List PyStr} {i : ℕ} {splice : Splice}

/-- A line of one of the known kinds. -/
def Marked (line : PyStr) : Prop := line.head? = some space ∨ line.head? = some plus ∨ line.head? = some minus

theorem findSequence_shift (haystack needle : List PyStr) (start : ℕ) :
    findSequence haystack needle start = (findSequence (haystack.drop start) needle 0).map (start + ·) := by
  unfold findSequence
  by_cases hnil : needle = []
  · rw [if_pos hnil, if_pos hnil]
    rfl
  · rw [if_neg hnil, if_neg hnil]
    have hlen := List.length_pos_iff.mpr hnil
    have hcount : (haystack.drop start).length + 1 - needle.length - 0 =
        haystack.length + 1 - needle.length - start := by
      rw [List.length_drop]
      omega
    have hrange : List.range' start (haystack.length + 1 - needle.length - start) =
        (List.range' 0 (haystack.length + 1 - needle.length - start)).map (start + ·) := by
      rw [List.map_add_range']
      rfl
    dsimp only
    rw [hcount, hrange, List.find?_map]
    simp only [Function.comp_def, List.drop_drop]
    cases (List.range' 0 (haystack.length + 1 - needle.length - start)).find? fun i =>
        decide ((haystack.drop (start + i)).take needle.length = needle) with
    | none => rfl
    | some i => rfl

theorem findSequence_match (h : findSequence haystack needle 0 = .ok i) :
    (haystack.drop i).take needle.length = needle := by
  unfold findSequence at h
  by_cases hnil : needle = []
  · rw [hnil]
    rfl
  · rw [if_neg hnil] at h
    dsimp only at h
    cases hfind : (List.range' 0 (haystack.length + 1 - needle.length - 0)).find? fun i =>
        decide ((haystack.drop i).take needle.length = needle) with
    | none =>
      rw [hfind] at h
      cases h
    | some j =>
      rw [hfind] at h
      cases h
      have hfound := List.find?_some hfind
      exact of_decide_eq_true hfound

/-- The lines that a hunk leaves read as its new lines. -/
theorem replaceChunk_text (hmarks : ∀ mark ∈ hunk, Marked mark)
    (h : (lines.map Line.text).take (oldChunk hunk).length = oldChunk hunk) :
    (replaceChunk hunk lines).map Line.text = newChunk hunk := by
  induction hunk generalizing lines with
  | nil => rfl
  | cons mark hunk ih =>
    obtain ⟨hmark, hmarks⟩ := List.forall_mem_cons.mp hmarks
    unfold oldChunk newChunk at *
    rw [replaceChunk]
    rcases hmark with hmark | hmark | hmark
    · have hne : mark.head? ≠ some plus := by
        rw [hmark]
        decide
      rw [List.filter_cons_of_pos (by simp [hmark]), List.map_cons, List.length_cons] at h
      rw [List.filter_cons_of_pos (by simp [hmark]), List.map_cons, if_neg hne, if_pos hmark]
      cases lines with
      | nil => cases h
      | cons line lines =>
        rw [List.map_cons, List.take_succ_cons] at h
        obtain ⟨htext, hrest⟩ := List.cons.inj h
        rw [List.map_append, List.drop_one, List.tail_cons, ih hmarks hrest, ← htext]
        rfl
    · have hold : ¬ (mark.head? = some space ∨ mark.head? = some minus) := by
        rw [hmark]
        decide
      rw [List.filter_cons_of_neg (by simpa using hold)] at h
      rw [List.filter_cons_of_pos (by simp [hmark]), List.map_cons, if_pos hmark, List.map_cons, ih hmarks h]
    · have hplus : mark.head? ≠ some plus := by
        rw [hmark]
        decide
      have hspace : mark.head? ≠ some space := by
        rw [hmark]
        decide
      rw [List.filter_cons_of_pos (by simp [hmark]), List.map_cons, List.length_cons] at h
      rw [List.filter_cons_of_neg (by simp [hplus, hspace]), if_neg hplus, if_neg hspace]
      cases lines with
      | nil => cases h
      | cons line lines =>
        rw [List.map_cons, List.take_succ_cons] at h
        rw [List.drop_one, List.tail_cons, ih hmarks (List.cons.inj h).2]

/-- A hunk that matches is spliced in at its match. -/
theorem flushHunk_match (hne : splice.hunkLines ≠ []) (hmarks : ∀ mark ∈ splice.hunkLines, Marked mark)
    (hfind : findSequence ((lines.drop splice.scanIndex).map Line.text) (oldChunk splice.hunkLines) 0 = .ok i) :
    flushHunk (lines.map Line.text) splice = .ok { splice with
      newLines := splice.newLines ++ ((lines.drop splice.scanIndex).take i ++
        replaceChunk splice.hunkLines ((lines.drop splice.scanIndex).drop i)).map Line.text
      scanIndex := splice.scanIndex + (i + (oldChunk splice.hunkLines).length)
      sawHunk := true } := by
  have hmatch := findSequence_match hfind
  rw [← List.map_drop] at hmatch
  have hnew := replaceChunk_text hmarks hmatch
  have hgap : ((lines.map Line.text).take (splice.scanIndex + i)).drop splice.scanIndex =
      ((lines.drop splice.scanIndex).take i).map Line.text := by
    rw [List.drop_take, Nat.add_sub_cancel_left, List.map_take, List.map_drop]
  unfold flushHunk
  rw [if_neg hne, findSequence_shift, ← List.map_drop, hfind]
  change Except.ok _ = _
  simp only [hgap, ← hnew, List.map_append, List.append_assoc, Nat.add_assoc]

/-- The loop over the body of a patch makes the edit of the hunks that are still to be read. -/
theorem foldlM_updateLine_edit (lines : List Line) (body : List PyStr) : ∀ {splice : Splice}
    {hunks : List (List PyStr)} {out : List Line}, hunksFrom splice.hunkLines body = some hunks →
    (∀ mark ∈ splice.hunkLines, Marked mark) → editLines hunks (lines.drop splice.scanIndex) = some out →
    ∃ s last, body.foldlM (updateLine (lines.map Line.text)) splice = .ok s ∧
      flushHunk (lines.map Line.text) s = .ok last ∧
      last.newLines ++ (lines.map Line.text).drop last.scanIndex = splice.newLines ++ out.map Line.text ∧
      (last.sawHunk = true ↔ splice.sawHunk = true ∨ hunks ≠ []) := by
  have hflush : ∀ {splice : Splice} {hunks : List (List PyStr)} {out : List Line}, splice.hunkLines ≠ [] →
      (∀ mark ∈ splice.hunkLines, Marked mark) →
      editLines (splice.hunkLines :: hunks) (lines.drop splice.scanIndex) = some out →
      ∃ next rest, flushHunk (lines.map Line.text) splice = .ok next ∧ next.sawHunk = true ∧
        editLines hunks (lines.drop next.scanIndex) = some rest ∧
        next.newLines ++ rest.map Line.text = splice.newLines ++ out.map Line.text := by
    intro splice hunks out hne hmarks hedit
    rw [editLines] at hedit
    cases hfind : findSequence ((lines.drop splice.scanIndex).map Line.text) (oldChunk splice.hunkLines) 0 with
    | error e =>
      rw [hfind] at hedit
      cases hedit
    | ok i =>
      rw [hfind] at hedit
      obtain ⟨rest, hrest, rfl⟩ := Option.map_eq_some_iff.mp hedit
      refine ⟨_, rest, flushHunk_match hne hmarks hfind, rfl, ?_, ?_⟩
      · rwa [← List.drop_drop]
      · simp only [List.map_append, List.append_assoc]
  induction body with
  | nil =>
    intro splice hunks out hhunks hmarks hedit
    rw [hunksFrom] at hhunks
    cases Option.some.inj hhunks
    by_cases hnil : splice.hunkLines = []
    · rw [if_pos hnil] at hedit ⊢
      cases Option.some.inj hedit
      refine ⟨splice, splice, rfl, if_pos hnil, ?_, ?_⟩
      · rw [List.map_drop]
      · simp
    · rw [if_neg hnil] at hedit ⊢
      obtain ⟨next, rest, hnext, hsaw, hrest, hlines⟩ := hflush hnil hmarks hedit
      cases Option.some.inj hrest
      refine ⟨splice, next, rfl, hnext, ?_, ?_⟩
      · rw [← hlines, List.map_drop]
      · simp [hsaw]
  | cons line body ih =>
    intro splice hunks out hhunks hmarks hedit
    rw [hunksFrom] at hhunks
    rw [List.foldlM_cons, updateLine]
    by_cases hmark : (str "@@").isPrefixOf line = true
    · rw [if_pos hmark] at hhunks ⊢
      obtain ⟨others, hothers, rfl⟩ := Option.map_eq_some_iff.mp hhunks
      by_cases hnil : splice.hunkLines = []
      · rw [if_pos hnil] at hedit ⊢
        have hkeep : flushHunk (lines.map Line.text) splice = .ok splice := if_pos hnil
        rw [hkeep]
        exact @ih { splice with hunkLines := [] } others out hothers (fun _ h => (List.not_mem_nil h).elim) hedit
      · rw [if_neg hnil] at hedit ⊢
        obtain ⟨next, rest, hnext, hsaw, hrest, hlines⟩ := hflush hnil hmarks hedit
        rw [hnext]
        obtain ⟨s, last, hs, hlast, htext, hseen⟩ :=
          @ih { next with hunkLines := [] } others rest hothers (fun _ h => (List.not_mem_nil h).elim) hrest
        refine ⟨s, last, hs, hlast, htext.trans hlines, ?_⟩
        rw [hseen]
        simp [hsaw]
    · rw [if_neg hmark] at hhunks ⊢
      by_cases hkind : line.head? = some space ∨ line.head? = some plus ∨ line.head? = some minus
      · rw [if_pos hkind] at hhunks ⊢
        have hall : ∀ mark ∈ splice.hunkLines ++ [line], Marked mark := by
          intro mark hmem
          rcases List.mem_append.mp hmem with hmem | hmem
          · exact hmarks mark hmem
          · rwa [List.mem_singleton.mp hmem]
        exact @ih { splice with hunkLines := splice.hunkLines ++ [line] } hunks out hhunks hall hedit
      · rw [if_neg hkind] at hhunks
        cases hhunks

/-- Hunks that match are replaced in the lines. -/
theorem updateLines_edit {body : List PyStr} {hunks : List (List PyStr)} {out : List Line}
    (hhunks : hunksFrom [] body = some hunks) (hne : hunks ≠ []) (hedit : editLines hunks lines = some out) :
    updateLines (lines.map Line.text) body = .ok (out.map Line.text) := by
  have hstart : editLines hunks (lines.drop (0 : ℕ)) = some out := by rwa [List.drop_zero]
  obtain ⟨s, last, hs, hlast, htext, hseen⟩ := @foldlM_updateLine_edit lines body {} hunks out hhunks
    (fun _ h => (List.not_mem_nil h).elim) hstart
  unfold updateLines
  rw [hs]
  change (do
    let s ← flushHunk (lines.map Line.text) s
    if s.sawHunk then .ok (s.newLines ++ (lines.map Line.text).drop s.scanIndex)
    else .error (.value "update patch did not contain a hunk")) = _
  rw [hlast]
  change (if last.sawHunk = true then Except.ok (last.newLines ++ (lines.map Line.text).drop last.scanIndex)
    else _) = _
  rw [if_pos (hseen.mpr (.inr hne)), htext]
  rfl

end Splices

section Context

variable {lines out : List Line} {hunk : List PyStr} {hunks : List (List PyStr)}

theorem oldChunk_context (h : ∀ mark ∈ hunk, mark.head? = some space) : (oldChunk hunk).length = hunk.length := by
  unfold oldChunk
  rw [List.length_map, List.filter_eq_self.mpr]
  intro mark hmark
  rw [h mark hmark]
  rfl

theorem replaceChunk_context (h : ∀ mark ∈ hunk, mark.head? = some space) (lines : List Line) :
    replaceChunk hunk lines = lines.take hunk.length := by
  induction hunk generalizing lines with
  | nil => rfl
  | cons mark hunk ih =>
    obtain ⟨hmark, hrest⟩ := List.forall_mem_cons.mp h
    have hplus : mark.head? ≠ some plus := by
      rw [hmark]
      decide
    rw [replaceChunk, if_neg hplus, if_pos hmark, ih hrest, List.length_cons, Nat.add_comm, List.take_add]

/-- Hunks of context lines only leave the lines, and so the text, as they are. -/
theorem editLines_context (h : ∀ hunk ∈ hunks, ∀ mark ∈ hunk, mark.head? = some space)
    (hedit : editLines hunks lines = some out) : out = lines := by
  induction hunks generalizing lines out with
  | nil => exact (Option.some.inj hedit).symm
  | cons hunk hunks ih =>
    obtain ⟨hhunk, hhunks⟩ := List.forall_mem_cons.mp h
    rw [editLines] at hedit
    cases hfind : findSequence (lines.map Line.text) (oldChunk hunk) 0 with
    | error e =>
      rw [hfind] at hedit
      cases hedit
    | ok i =>
      rw [hfind] at hedit
      obtain ⟨rest, hrest, rfl⟩ := Option.map_eq_some_iff.mp hedit
      rw [ih hhunks hrest, replaceChunk_context hhunk, oldChunk_context hhunk, ← List.take_add,
        List.take_append_drop]

end Context

section Ends

variable {lines out : List Line} {line : Line} {hunk : List PyStr} {hunks : List (List PyStr)}

theorem newline_ended (text : PyStr) : Line.Ended ⟨text, str "\n"⟩ := by
  have hnewline : str "\n" = [10] := by decide
  exact .inr (.inr ⟨10, hnewline⟩)

theorem replaceChunk_ended (h : ∀ line ∈ lines, line.Ended) : ∀ line ∈ replaceChunk hunk lines, line.Ended := by
  induction hunk generalizing lines with
  | nil => exact fun line hline => (List.not_mem_nil hline).elim
  | cons mark hunk ih =>
    have hrest := @ih (lines.drop 1) fun line hline => h line (List.mem_of_mem_drop hline)
    rw [replaceChunk]
    split_ifs
    · exact List.forall_mem_cons.mpr ⟨newline_ended _, ih h⟩
    · exact List.forall_mem_append.mpr ⟨fun line hline => h line (List.mem_of_mem_take hline), hrest⟩
    · exact hrest

theorem editLines_ended (h : ∀ line ∈ lines, line.Ended) (hedit : editLines hunks lines = some out) :
    ∀ line ∈ out, line.Ended := by
  induction hunks generalizing lines out with
  | nil => exact Option.some.inj hedit ▸ h
  | cons hunk hunks ih =>
    rw [editLines] at hedit
    cases hfind : findSequence (lines.map Line.text) (oldChunk hunk) 0 with
    | error e =>
      rw [hfind] at hedit
      cases hedit
    | ok i =>
      rw [hfind] at hedit
      obtain ⟨rest, hrest, rfl⟩ := Option.map_eq_some_iff.mp hedit
      have hdrop : ∀ n, ∀ line ∈ lines.drop n, line.Ended := fun n line hline => h line (List.mem_of_mem_drop hline)
      refine List.forall_mem_append.mpr ⟨List.forall_mem_append.mpr ⟨?_, ?_⟩, ih (hdrop _) hrest⟩
      · exact fun line hline => h line (List.mem_of_mem_take hline)
      · exact replaceChunk_ended (hdrop i)

/-- Another end than a line feed begins with another character. -/
theorem Line.Ended.separator (h : line.Ended) :
    line.separator = str "\n" ∨ ∃ c rest, line.separator = c :: rest ∧ c ≠ 10 := by
  unfold Line.separator
  rcases h with h | h | ⟨c, h⟩
  · exact .inl (if_pos h)
  · rw [h]
    exact .inr ⟨13, [10], rfl, by decide⟩
  · rw [h, if_neg (List.cons_ne_nil _ _)]
    by_cases hc : c = 10
    · rw [hc]
      exact .inl (by decide)
    · exact .inr ⟨c, [], rfl, hc⟩

theorem newline_append_ne {c : ℕ} (hc : c ≠ 10) (rest more other : PyStr) : str "\n" ++ more ≠ c :: rest ++ other := by
  intro h
  exact hc (List.cons.inj h).1.symm

/-- Lines joined by line feeds are the text of the lines just when all that count end in line feeds. -/
theorem joinLines_eq_linesText_iff (hends : ∀ line ∈ lines, line.Ended) (trailing ended : Bool) :
    joinLines (lines.map Line.text) trailing = linesText ended lines ↔
      (∀ line ∈ lines.dropLast, line.separator = str "\n") ∧
        ∀ line ∈ lines.getLast?, ended = trailing ∧ (ended = true → line.separator = str "\n") := by
  induction lines with
  | nil => exact iff_of_true rfl ⟨fun _ h => (List.not_mem_nil h).elim, fun _ h => nomatch h⟩
  | cons line lines ih =>
    obtain ⟨hline, hrest⟩ := List.forall_mem_cons.mp hends
    cases lines with
    | nil =>
      rw [List.map_singleton, joinLines_singleton, linesText, List.append_right_inj]
      have hnewline : str "\n" ≠ [] := by decide
      have hlast : (∀ last ∈ [line].getLast?, ended = trailing ∧ (ended = true → last.separator = str "\n")) ↔
          ended = trailing ∧ (ended = true → line.separator = str "\n") :=
        ⟨fun h => h line rfl, fun h last hmem => Option.some.inj hmem ▸ h⟩
      have hfront : ∀ other ∈ [line].dropLast, other.separator = str "\n" := fun _ h => (List.not_mem_nil h).elim
      rw [hlast, and_iff_right hfront]
      cases ended with
      | false =>
        cases trailing with
        | false => exact iff_of_true rfl ⟨rfl, fun h => absurd h Bool.false_ne_true⟩
        | true => exact iff_of_false hnewline fun h => absurd h.1 Bool.false_ne_true
      | true =>
        cases trailing with
        | true => exact ⟨fun h => ⟨rfl, fun _ => h.symm⟩, fun h => (h.2 rfl).symm⟩
        | false =>
          apply iff_of_false
          · intro hnil
            have hsep : line.separator = [] := hnil.symm
            rcases hline.separator with h | ⟨c, rest, h, -⟩
            · exact hnewline (h.symm.trans hsep)
            · exact List.cons_ne_nil _ _ (h.symm.trans hsep)
          · exact fun h => absurd h.1 (by decide)
    | cons next lines =>
      rw [List.map_cons, List.map_cons, joinLines_cons_cons, linesText, List.append_assoc, List.append_assoc,
        List.append_right_inj, List.dropLast_cons_cons, List.forall_mem_cons, and_assoc]
      have hih := ih hrest
      rw [List.map_cons] at hih
      rcases hline.separator with hsep | ⟨c, rest, hsep, hc⟩
      · rw [hsep, List.append_right_inj, hih, and_iff_right rfl]
        rfl
      · rw [hsep]
        apply iff_of_false
        · exact newline_append_ne hc rest _ _
        · rintro ⟨h, -⟩
          exact hc (List.cons.inj h).1

end Ends

section Patches

variable {resolve : Resolve} {root p : FilePath} {h : Host} {raw : PyStr} {body : List PyStr} {chars : List Char}
  {out : List Line}

/-- The path leads to a text file that can be read and written, and the hunks match it with the lines `out` as
their edit. -/
structure UpdateMatches (resolve : Resolve) (root : FilePath) (h : Host) (raw : PyStr) (body : List PyStr)
    (p : FilePath) (chars : List Char) (out : List Line) : Prop where
  path : resolveIn resolve root h.tree raw = .ok p
  file : h.tree.file? p = some (.text chars)
  readable : h.denied .read p = false
  writable : h.denied .write p = false
  encodable : AllEncodable body
  edit : ∃ hunks, hunksFrom [] body = some hunks ∧ hunks ≠ [] ∧ editLines hunks (endedLines (decode chars)) = some out

/-- The patch leaves the text of the edit in the file. -/
def UpdatesExactly (resolve : Resolve) (root : FilePath) (h : Host) (raw : PyStr) (body : List PyStr)
    (p : FilePath) (chars : List Char) (out : List Line) : Prop :=
  ∃ h' new, exec (applyUpdatePatch resolve root raw body) h = (.ok (), h') ∧
    h'.tree.file? p = some (.text new) ∧ decode new = linesText (terminated (decode chars)) out

/-- Every line that is left in front of another ends in a line feed or had no end, and so does the last line if
the text is terminated, which is then by a line end that reads as a line feed. -/
def EndsKept (s : PyStr) (out : List Line) : Prop :=
  (∀ line ∈ out.dropLast, line.separator = str "\n") ∧
    ∀ line ∈ out.getLast?, terminated s = endsInNewline s ∧ (terminated s = true → line.separator = str "\n")

theorem readText_exec (hfile : h.tree.file? p = some (.text chars)) (hread : h.denied .read p = false) :
    exec (readText p) h = (.ok (universalNewlines (decode chars)), h.touch .request .read p) := by
  have hnode := Tree.file?_eq_some.mp hfile
  have hfollow : h.tree.follow maxSymlinks p = .ok p := by
    apply Tree.follow_of_node
    · rw [hnode]
      exact Option.some_ne_none _
    · intro absolute target hlink
      rw [hnode] at hlink
      cases hlink
  unfold readText
  rw [exec_bind_ok (locate_of_follow hfollow), exec_bind_ok (exec_get h), hnode]
  dsimp only
  rw [hread]
  rfl

theorem writeText_exec {content : Content} {s : PyStr} {new : List Char} (hfile : h.tree.file? p = some content)
    (hwrite : h.denied .write p = false) (hs : encode s = some new) :
    exec (writeText .request p s) h =
      (.ok (), (h.touch .request .write p).put p (some (.file (.text new)))) := by
  have hnode := Tree.file?_eq_some.mp hfile
  have hfollow : h.tree.follow maxSymlinks p = .ok p := by
    apply Tree.follow_of_node
    · rw [hnode]
      exact Option.some_ne_none _
    · intro absolute target hlink
      rw [hnode] at hlink
      cases hlink
  have hdir : h.tree.node p ≠ some .dir := by
    rw [hnode]
    exact fun hdir => nomatch hdir
  unfold writeText
  rw [exec_bind_ok (locate_of_follow hfollow), exec_bind_ok (exec_get h), if_neg hdir, hwrite,
    if_neg Bool.false_ne_true, hs]
  rfl

/-- A file that stands in the tree can be overwritten. -/
theorem file_put {content : Content} {new : List Char} (hfile : h.tree.file? p = some content) :
    (h.put p (some (.file (.text new)))).tree.file? p = some (.text new) := by
  have hnode := Tree.file?_eq_some.mp hfile
  have hne : p ≠ [] := by
    rintro rfl
    rw [h.tree.root] at hnode
    cases hnode
  obtain ⟨dir, name, rfl⟩ := (List.eq_nil_or_concat' p).resolve_left hne
  apply Tree.file?_set hne
  · rw [List.dropLast_concat]
    apply h.tree.parent dir name
    rw [hnode]
    exact Option.some_ne_none _
  · rw [hnode]
    exact fun hdir => nomatch hdir

/-- What an update patch that matches writes. -/
theorem UpdateMatches.exec (hm : UpdateMatches resolve root h raw body p chars out) : ∃ h' new,
    exec (applyUpdatePatch resolve root raw body) h = (.ok (), h') ∧ h'.tree.file? p = some (.text new) ∧
      decode new = joinLines (out.map Line.text) (endsInNewline (decode chars)) := by
  obtain ⟨hunks, hhunks, hne, hedit⟩ := hm.edit
  have hlines : updateLines (splitlines (universalNewlines (decode chars))) body = .ok (out.map Line.text) := by
    rw [splitlines_universalNewlines]
    exact updateLines_edit hhunks hne hedit
  have hupdate : updateText (universalNewlines (decode chars)) body =
      .ok (joinLines (out.map Line.text) (endsInNewline (decode chars))) := by
    unfold updateText
    rw [hlines]
    rfl
  have hencodable := updateText_encodable (encodable_universalNewlines (encodable_decode chars)) hm.encodable hupdate
  obtain ⟨new, hnew, hdecode⟩ := encode_eq_some hencodable
  have hresolve : Raising.exec (resolveWorkspacePath resolve root raw) h = (.ok p, h) := by
    unfold resolveWorkspacePath
    rw [exec_bind_ok (exec_get h), hm.path]
    rfl
  have hread := readText_exec hm.file hm.readable
  generalize hafter : h.touch .request .read p = after at hread
  have hfile : after.tree.file? p = some (.text chars) := hafter ▸ hm.file
  have hwritable : after.denied .write p = false := hafter ▸ hm.writable
  have hwrite := writeText_exec hfile hwritable hnew
  refine ⟨(after.touch .request .write p).put p (some (.file (.text new))), new, ?_, ?_, hdecode⟩
  · unfold applyUpdatePatch
    rw [exec_bind_ok hresolve, exec_bind_ok hread, hupdate]
    exact hwrite
  · have htouched : (after.touch .request .write p).tree.file? p = some (.text chars) := hfile
    exact file_put htouched

/-- An update patch changes only what its hunks say just when the line ends that stay are line feeds. -/
theorem updatesExactly_iff (hm : UpdateMatches resolve root h raw body p chars out) :
    UpdatesExactly resolve root h raw body p chars out ↔ EndsKept (decode chars) out := by
  obtain ⟨h', new, hexec, hfile, hnew⟩ := hm.exec
  obtain ⟨hunks, -, -, hedit⟩ := hm.edit
  have hends := editLines_ended (endedLines_ended (decode chars)) hedit
  have hiff := joinLines_eq_linesText_iff hends (endsInNewline (decode chars)) (terminated (decode chars))
  rw [← hnew] at hiff
  rw [EndsKept, ← hiff]
  constructor
  · rintro ⟨h'', new', hexec', hfile', htext⟩
    rw [hexec] at hexec'
    cases hexec'
    rw [hfile] at hfile'
    cases hfile'
    exact htext
  · exact fun htext => ⟨h', new, hexec, hfile, htext⟩

theorem fileHost_matches {content : List Char} {body : List PyStr} {hunks : List (List PyStr)}
    (hfile : (fileHost content).tree.file? [str "w", str "f"] = some (.text content)) (hbody : AllEncodable body)
    (hhunks : hunksFrom [] body = some hunks) (hne : hunks ≠ [])
    (hedit : editLines hunks (endedLines (decode content)) = some out) :
    UpdateMatches (fun _ p => .ok p) [str "w"] (fileHost content) (str "f") body [str "w", str "f"] content out where
  path := rfl
  file := hfile
  readable := rfl
  writable := rfl
  encodable := hbody
  edit := ⟨hunks, hhunks, hne, hedit⟩

/-- One line of two is replaced. -/
theorem updatesExactly_iff_second_line :
    UpdatesExactly (fun _ p => .ok p) [str "w"] (fileHost ['a', '\n', 'b', '\n']) (str "f")
        [str "@@", str "-b", str "+c"] [str "w", str "f"] ['a', '\n', 'b', '\n']
        [⟨str "a", str "\n"⟩, ⟨str "c", str "\n"⟩] ↔
      EndsKept (decode ['a', '\n', 'b', '\n']) [⟨str "a", str "\n"⟩, ⟨str "c", str "\n"⟩] := by
  have hedit : editLines [[str "-b", str "+c"]] (endedLines (decode ['a', '\n', 'b', '\n'])) =
      some [⟨str "a", str "\n"⟩, ⟨str "c", str "\n"⟩] := by decide
  exact updatesExactly_iff (fileHost_matches (by decide) (by decide) (by decide) (by decide) hedit)

/-- A hunk of one context line turns the CR LF of the file into a LF. -/
theorem context_drops_cr : ¬ ∀ resolve root h raw body p chars out,
    UpdateMatches resolve root h raw body p chars out → UpdatesExactly resolve root h raw body p chars out := by
  intro hall
  have hedit : editLines [[str " a"]] (endedLines (decode ['a', '\r', '\n'])) =
      some [⟨str "a", str "\r\n"⟩] := by decide
  have hm := @fileHost_matches _ ['a', '\r', '\n'] [str "@@", str " a"] [[str " a"]] (by decide) (by decide) (by decide)
    (by decide) hedit
  obtain ⟨h', new, hexec, hfile, htext⟩ := hall _ _ _ _ _ _ _ _ hm
  obtain ⟨h'', written, hexec', hfile', hwritten⟩ := hm.exec
  rw [hexec] at hexec'
  cases hexec'
  rw [hfile] at hfile'
  cases hfile'
  rw [htext] at hwritten
  exact absurd hwritten (by decide)

end Patches

end MiniAgentOS.Bridge
