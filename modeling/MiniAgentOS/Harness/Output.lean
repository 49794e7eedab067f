import MiniAgentOS.Lib.Framed
import MiniAgentOS.Bridge.Lossless
import MiniAgentOS.Bridge.Search

/-! What the harness reads from the serial line of the guest, chunk by chunk. -/
namespace MiniAgentOS.Harness
open Bridge

section Reader

/-- `TRACE_PREFIX`. -/
def tracePrefix : PyStr := str "TRACE "

/-- What stands behind the mark in a line. -/
def rawJson (line : PyStr) : Option PyStr :=
  match Framed.find tracePrefix line with
  | none => none
  | some marker =>
    let raw := strip (line.drop (marker + tracePrefix.length))
    if raw = [] then none else some raw

/-- `exception vector: ` at the start of a line, and more behind it. -/
def isException (line : PyStr) : Bool :=
  (str "exception vector: ").isPrefixOf line && (str "exception vector: ").length < line.length

/-- `_detect_guest_exception`. -/
def detectGuestException (uartText : PyStr) : Option PyStr :=
  ((Framed.lines 10 (universalNewlines uartText)).find? isException).map strip

/-- What the harness has of the output. `loads` is `json.loads`, none where it raises. -/
structure Output (Event : Type) where
  fullText : PyStr
  pendingText : PyStr
  guestExceptionLine : Option PyStr
  traceLines : List PyStr
  traceEvents : List Event

def Output.start {Event : Type} : Output Event := ⟨[], [], none, [], []⟩

variable {Event : Type} (loads : PyStr → Option Event)

/-- One complete line. -/
def Output.addLine (out : Output Event) (line : PyStr) : Output Event :=
  match rawJson line with
  | none => out
  | some raw => { out with
      traceLines := out.traceLines ++ [raw]
      traceEvents := out.traceEvents ++ (loads raw).toList }

/-- `process_output`. -/
def Output.processOutput (out : Output Event) (item : PyStr) : Output Event :=
  let fullText := out.fullText ++ item
  let next := Framed.split 10 (out.pendingText ++ item)
  next.1.foldl (Output.addLine loads) { out with
    fullText
    pendingText := next.2
    guestExceptionLine := out.guestExceptionLine.or (detectGuestException fullText) }

/-- The trace lines that are read once more from the whole text. -/
def finalTraceLines (uartText : PyStr) : List PyStr := (splitlines uartText).filterMap rawJson

end Reader

section Chunks

variable {Event : Type} {loads : PyStr → Option Event} {out : Output Event} {lines : List PyStr}

theorem foldl_addLine (lines : List PyStr) (out : Output Event) :
    lines.foldl (Output.addLine loads) out = { out with
      traceLines := out.traceLines ++ lines.filterMap rawJson
      traceEvents := out.traceEvents ++ (lines.filterMap rawJson).filterMap loads } := by
  induction lines generalizing out with
  | nil => simp
  | cons line lines ih =>
    rw [List.foldl_cons, ih, Output.addLine]
    cases hraw : rawJson line with
    | none => simp [hraw]
    | some raw => cases hload : loads raw <;> simp [hraw, hload]

theorem processOutput_eq (out : Output Event) (item : PyStr) : out.processOutput loads item =
    { fullText := out.fullText ++ item
      pendingText := (Framed.split 10 (out.pendingText ++ item)).2
      guestExceptionLine := out.guestExceptionLine.or (detectGuestException (out.fullText ++ item))
      traceLines := out.traceLines ++ (Framed.split 10 (out.pendingText ++ item)).1.filterMap rawJson
      traceEvents := out.traceEvents ++
        ((Framed.split 10 (out.pendingText ++ item)).1.filterMap rawJson).filterMap loads } :=
  foldl_addLine _ _

theorem universalNewlines_append (a b : PyStr) :
    ∃ rest, universalNewlines (a ++ b) = universalNewlines a ++ rest := by
  fun_induction universalNewlines a with
  | case1 => exact ⟨universalNewlines b, rfl⟩
  | case2 a ih =>
    obtain ⟨rest, hrest⟩ := ih
    exact ⟨rest, by rw [List.cons_append, List.cons_append, universalNewlines, hrest, List.cons_append]⟩
  | case3 c a hpair ih =>
    obtain ⟨rest, hrest⟩ := ih
    by_cases hsplit : c = 13 ∧ a = [] ∧ ∃ more, b = 10 :: more
    · obtain ⟨rfl, rfl, more, rfl⟩ := hsplit
      exact ⟨universalNewlines more, rfl⟩
    · have hother : ∀ more, c = 13 → a ++ b = 10 :: more → False := by
        intro more hc hmore
        cases a with
        | nil => exact hsplit ⟨hc, rfl, more, hmore⟩
        | cons d a =>
          obtain ⟨rfl, -⟩ := List.cons.inj hmore
          exact hpair a hc rfl
      exact ⟨rest, by rw [List.cons_append, universalNewlines.eq_3 _ _ hother, hrest, List.cons_append]⟩

theorem isException_append {line : PyStr} (h : isException line) (more : PyStr) : isException (line ++ more) := by
  rw [isException, Bool.and_eq_true, decide_eq_true_eq, List.isPrefixOf_iff_prefix] at h ⊢
  exact ⟨h.1.trans (List.prefix_append line more), by rw [List.length_append]; omega⟩

/-- Blanks at the end go, and what stands before them stays when more comes. -/
theorem rdropWhile_append_prefix (p : ℕ → Bool) (line more : PyStr) :
    line.rdropWhile p <+: (line ++ more).rdropWhile p := by
  rw [List.rdropWhile, List.rdropWhile, List.reverse_append, List.dropWhile_append]
  split_ifs
  · exact List.prefix_rfl
  · rw [List.reverse_append, List.reverse_reverse]
    exact (List.rdropWhile_prefix p line).trans (List.prefix_append line _)

theorem strip_exception {line : PyStr} (h : isException line) (more : PyStr) : strip line <+: strip (line ++ more) := by
  have hstart : ∀ {line : PyStr}, isException line → line.dropWhile Bridge.isSpace = line := by
    intro line h
    rw [isException, Bool.and_eq_true, List.isPrefixOf_iff_prefix] at h
    obtain ⟨rest, rfl⟩ := h.1
    rfl
  rw [strip, strip, hstart h, hstart (isException_append h more)]
  exact rdropWhile_append_prefix Bridge.isSpace line more

/-- An exception stays where it is, and its line may become longer. -/
theorem detectGuestException_append {a found : PyStr} (h : detectGuestException a = some found) (b : PyStr) :
    ∃ whole, detectGuestException (a ++ b) = some whole ∧ found <+: whole := by
  obtain ⟨rest, hrest⟩ := universalNewlines_append a b
  obtain ⟨more, others, hmore⟩ := Framed.lines_append 10 (universalNewlines a) rest
  obtain ⟨line, hline, rfl⟩ := Option.map_eq_some_iff.mp h
  rw [Framed.lines, List.find?_append] at hline
  rw [detectGuestException, hrest, hmore, List.find?_append]
  cases hframes : (Framed.split 10 (universalNewlines a)).1.find? isException with
  | some frame =>
    rw [hframes, Option.some_or] at hline
    obtain rfl := Option.some.inj hline
    exact ⟨strip frame, rfl, List.prefix_rfl⟩
  | none =>
    rw [hframes, Option.none_or, List.find?_singleton] at hline
    have hleft : isException (Framed.split 10 (universalNewlines a)).2 = true := by
      by_contra hnot
      rw [if_neg hnot] at hline
      cases hline
    rw [if_pos hleft] at hline
    obtain rfl := Option.some.inj hline
    rw [Option.none_or, List.find?_cons_of_pos (isException_append hleft more), Option.map_some]
    exact ⟨_, rfl, strip_exception hleft more⟩

/-- What the harness has is what it would have from the whole text at once, but for the line of an exception,
of which it may have a part. -/
structure Output.Reads (loads : PyStr → Option Event) (uartText : PyStr) (out : Output Event) : Prop where
  full : out.fullText = uartText
  pending : out.pendingText = (Framed.split 10 uartText).2
  lines : out.traceLines = (Framed.split 10 uartText).1.filterMap rawJson
  events : out.traceEvents = out.traceLines.filterMap loads
  detected : (detectGuestException uartText).isSome → out.guestExceptionLine.isSome
  shortened : ∀ line ∈ out.guestExceptionLine,
    ∃ whole, detectGuestException uartText = some whole ∧ line <+: whole

theorem Output.start_reads : Output.Reads loads [] (Output.start : Output Event) :=
  ⟨rfl, rfl, rfl, rfl, fun h => absurd h (by decide), by simp [Output.start]⟩

theorem Output.Reads.processOutput {uartText : PyStr} (h : out.Reads loads uartText) (item : PyStr) :
    (out.processOutput loads item).Reads loads (uartText ++ item) := by
  have hsplit := Framed.split_append 10 uartText item
  rw [← h.pending] at hsplit
  rw [processOutput_eq]
  constructor
  · rw [h.full]
  · rw [hsplit]
  · rw [h.lines, hsplit, List.filterMap_append]
  · rw [h.events, List.filterMap_append]
  · intro hfound
    rw [h.full, Option.isSome_or, Bool.or_eq_true]
    exact .inr hfound
  · intro line hline
    rw [h.full] at hline
    cases hguest : out.guestExceptionLine with
    | some before =>
      rw [hguest, Option.some_or] at hline
      obtain rfl := Option.some.inj hline
      obtain ⟨found, hfound, hpart⟩ := h.shortened before hguest
      obtain ⟨whole, hwhole, hlong⟩ := detectGuestException_append hfound item
      exact ⟨whole, hwhole, hpart.trans hlong⟩
    | none =>
      rw [hguest, Option.none_or] at hline
      exact ⟨line, hline, List.prefix_rfl⟩

/-- However the output comes in pieces, the lines and the events are those of the whole text. -/
theorem processOutput_chunks (loads : PyStr → Option Event) (chunks : List PyStr) :
    (chunks.foldl (Output.processOutput loads) Output.start).Reads loads chunks.flatten := by
  have hrun : ∀ (chunks : List PyStr) {uartText : PyStr} {out : Output Event}, out.Reads loads uartText →
      (chunks.foldl (Output.processOutput loads) out).Reads loads (uartText ++ chunks.flatten) := by
    intro chunks
    induction chunks with
    | nil =>
      intro uartText out h
      simpa using h
    | cons chunk chunks ih =>
      intro uartText out h
      rw [List.foldl_cons, List.flatten_cons, ← List.append_assoc]
      exact ih (h.processOutput chunk)
  exact hrun chunks Output.start_reads

/-- However the output comes in pieces, an exception line is found just when the whole text has one, and what is kept
is the beginning of the first one. -/
theorem guest_exception_seen (loads : PyStr → Option Event) (chunks : List PyStr) :
    (chunks.foldl (Output.processOutput loads) Output.start).guestExceptionLine.isSome =
        (detectGuestException chunks.flatten).isSome ∧
      ∀ line ∈ (chunks.foldl (Output.processOutput loads) Output.start).guestExceptionLine,
        ∃ whole, detectGuestException chunks.flatten = some whole ∧ line <+: whole := by
  have hreads := processOutput_chunks loads chunks
  refine ⟨Bool.eq_iff_iff.mpr ⟨fun hfound => ?_, hreads.detected⟩, hreads.shortened⟩
  obtain ⟨line, hline⟩ := Option.isSome_iff_exists.mp hfound
  obtain ⟨whole, hwhole, -⟩ := hreads.shortened line hline
  rw [hwhole, Option.isSome_some]

example : ([str "exception vector: s", str "ync\n"].foldl (Output.processOutput fun _ => (none : Option Unit))
    Output.start).guestExceptionLine = some (str "exception vector: s") := by decide

end Chunks

end MiniAgentOS.Harness
