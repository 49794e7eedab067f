import MiniAgentOS.Lib.Framed
import MiniAgentOS.Bridge.Lossless
import MiniAgentOS.Bridge.Search
import MiniAgentOS.Text.Ascii

/-! The relay of a response of the model: what `curl` prints of it, with the heads of interim responses in front, is
taken apart again. -/
namespace MiniAgentOS.Bridge

section Model

def crlf : Bytes := [13, 10]

/-- The empty line behind a head. -/
def headStop : Bytes := crlf ++ crlf

def httpMark : Bytes := ascii "HTTP/"

/-- `bytes.decode("iso-8859-1")`. -/
def latin1 (b : Bytes) : PyStr := b.map UInt8.toNat

/-- `s.split()`. -/
def words (s : PyStr) : List PyStr := (s.splitOnP isSpace).filter (· ≠ [])

def isDecimal (c : ℕ) : Bool := 48 ≤ c ∧ c ≤ 57

/-- `s.isdigit()` of a string of bytes: the raised digits are among them. -/
def isDigits (s : PyStr) : Bool := s ≠ [] ∧ s.all fun c => isDecimal c ∨ c ∈ [178, 179, 185]

/-- `int(s)`. -/
def pyInt (s : PyStr) : Except PyError ℕ :=
  if s.all isDecimal then .ok (s.foldl (fun v c => v * 10 + (c - 48)) 0)
  else .error (.value "invalid literal for int() with base 10")

/-- One line of `upstream_status_from_headers`. -/
def statusLine (status : ℕ) (line : PyStr) : Except PyError ℕ :=
  if (latin1 httpMark).isPrefixOf line then
    match words line with
    | _ :: part :: _ => if isDigits part then pyInt part else .ok status
    | _ => .ok status
  else .ok status

def upstreamStatusFromHeaders (headerBlob : PyStr) : Except PyError ℕ := (splitlines headerBlob).foldlM statusLine 502

/-- The loop of `relay_openai_responses` over the output of `curl`. -/
def relayFrom : ℕ → Bytes → Except PyError (ℕ × Bytes)
  | 0, _ => .error (.runtime (str "relay response did not begin with an HTTP status line"))
  | fuel + 1, cursor =>
    if httpMark.isPrefixOf cursor then
      match Framed.find headStop cursor with
      | none => .error (.runtime (str "relay response was missing HTTP headers"))
      | some headerEnd => do
        let status ← upstreamStatusFromHeaders (latin1 (cursor.take headerEnd))
        let cursor := cursor.drop (headerEnd + headStop.length)
        if 100 ≤ status ∧ status < 200 then relayFrom fuel cursor else .ok (status, cursor)
    else .error (.runtime (str "relay response did not begin with an HTTP status line"))

/-- What `relay_openai_responses` makes of the output: every round drops a head. -/
def relayOutput (rawOutput : Bytes) : Except PyError (ℕ × Bytes) := relayFrom (rawOutput.length + 1) rawOutput

end Model

section Heads

/-- A line as Python reads it. -/
def NoBreak (line : Bytes) : Prop := ∀ c ∈ latin1 line, isLineBreak c = false

instance (line : Bytes) : Decidable (NoBreak line) := inferInstanceAs (Decidable (∀ c ∈ latin1 line, _))

/-- The parts of a head are kept apart, and no field looks like a status line. -/
structure HeadSound (version code reason : Bytes) (fields : List Bytes) : Prop where
  version_mark : httpMark <+: version
  version_word : ∀ c ∈ latin1 version, isSpace c = false
  code_digits : (latin1 code).all isDecimal
  code_some : code ≠ []
  reason_line : NoBreak reason
  field_line : ∀ field ∈ fields, NoBreak field
  field_some : ∀ field ∈ fields, field ≠ []
  field_plain : ∀ field ∈ fields, ¬ httpMark <+: field

/-- The head of a response: its status line and its fields. -/
structure Head where
  version : Bytes
  code : Bytes
  reason : Bytes
  fields : List Bytes
  sound : HeadSound version code reason fields

namespace Head

def first (head : Head) : Bytes := head.version ++ 32 :: (head.code ++ 32 :: head.reason)

def text (head : Head) : Bytes := crlf.intercalate (head.first :: head.fields)

def bytes (head : Head) : Bytes := head.text ++ headStop

def status (head : Head) : ℕ := (latin1 head.code).foldl (fun v c => v * 10 + (c - 48)) 0

end Head

end Heads

section Lines

variable {line rest : Bytes} {lines : List Bytes} {s t : PyStr}

theorem latin1_append (a b : Bytes) : latin1 (a ++ b) = latin1 a ++ latin1 b := List.map_append

theorem isSpace_break {c : ℕ} (h : isSpace c = false) : isLineBreak c = false := by
  rw [← Bool.not_eq_true] at h ⊢
  simp only [isSpace, isLineBreak, decide_eq_true_eq, List.mem_cons, List.not_mem_nil, or_false, not_or] at h ⊢
  omega

theorem isDecimal_space {c : ℕ} (h : isDecimal c = true) : isSpace c = false := by
  rw [← Bool.not_eq_true]
  simp only [isDecimal, isSpace, decide_eq_true_eq, List.mem_cons, List.not_mem_nil, or_false, not_or] at h ⊢
  omega

theorem NoBreak.cr (h : NoBreak line) : 13 ∉ line := by
  intro hmem
  have hbreak := h 13 (List.mem_map.mpr ⟨13, hmem, rfl⟩)
  cases hbreak

theorem endedLines_plain {c : ℕ} (hc : isLineBreak c = false) (s : PyStr) : endedLines (c :: s) =
    match endedLines s with
    | [] => [⟨[c], []⟩]
    | line :: lines => { line with text := c :: line.text } :: lines := by
  have hcr : ∀ rest, c :: s = 13 :: 10 :: rest → False := by
    rintro rest heq
    rw [(List.cons.inj heq).1] at hc
    cases hc
  have hplain := endedLines.eq_3 c s (fun rest hcr' hrest => hcr rest (by rw [hcr', hrest]))
  rw [hc, if_neg Bool.false_ne_true] at hplain
  exact hplain.trans (by cases endedLines s <;> rfl)

theorem splitlines_line (h : ∀ c ∈ s, isLineBreak c = false) (t : PyStr) :
    splitlines (s ++ 13 :: 10 :: t) = s :: splitlines t := by
  unfold splitlines
  induction s with
  | nil => rfl
  | cons c s ih =>
    have hs := ih fun d hd => h d (List.mem_cons_of_mem c hd)
    rw [List.cons_append, endedLines_plain (h c List.mem_cons_self)]
    cases hlines : endedLines (s ++ 13 :: 10 :: t) with
    | nil =>
      rw [hlines] at hs
      cases hs
    | cons line lines =>
      rw [hlines, List.map_cons] at hs
      obtain ⟨hline, hrest⟩ := List.cons.inj hs
      rw [List.map_cons, hline, hrest]

theorem splitlines_last (h : ∀ c ∈ s, isLineBreak c = false) (hs : s ≠ []) : splitlines s = [s] := by
  unfold splitlines
  induction s with
  | nil => exact absurd rfl hs
  | cons c s ih =>
    rw [endedLines_plain (h c List.mem_cons_self)]
    by_cases hnil : s = []
    · rw [hnil]
      rfl
    · have hrest := ih (fun d hd => h d (List.mem_cons_of_mem c hd)) hnil
      cases hlines : endedLines s with
      | nil =>
        rw [hlines] at hrest
        cases hrest
      | cons line lines =>
        rw [hlines, List.map_cons] at hrest
        obtain ⟨hline, hnone⟩ := List.cons.inj hrest
        rw [List.map_cons, hline, hnone]

/-- The lines of a head are those that it was put together from. -/
theorem splitlines_text (hlines : ∀ line ∈ lines, NoBreak line ∧ line ≠ []) (hne : lines ≠ []) :
    splitlines (latin1 (crlf.intercalate lines)) = lines.map latin1 := by
  induction lines with
  | nil => exact absurd rfl hne
  | cons line lines ih =>
    obtain ⟨hline, hsome⟩ := hlines line List.mem_cons_self
    cases lines with
    | nil =>
      rw [List.intercalate_singleton]
      exact splitlines_last hline fun hnil => hsome (List.map_eq_nil_iff.mp hnil)
    | cons next lines =>
      have hrest := ih (fun other hother => hlines other (List.mem_cons_of_mem line hother)) (List.cons_ne_nil _ _)
      rw [List.intercalate_cons_cons, latin1_append, latin1_append, List.append_assoc]
      change splitlines (latin1 line ++ 13 :: 10 :: latin1 (crlf.intercalate (next :: lines))) = _
      rw [splitlines_line hline, hrest]
      rfl

theorem find_skip (h : 13 ∉ line) (rest : Bytes) :
    Framed.find headStop (line ++ rest) = (Framed.find headStop rest).map (· + line.length) := by
  induction line with
  | nil => simp
  | cons c line ih =>
    rw [List.mem_cons, not_or] at h
    have hprefix : ¬ headStop.isPrefixOf (c :: (line ++ rest)) = true := by
      intro hp
      obtain ⟨more, hmore⟩ := List.isPrefixOf_iff_prefix.mp hp
      exact h.1 (List.cons.inj hmore).1
    rw [List.cons_append, Framed.find, if_neg hprefix, ih h.2, Option.map_map]
    rfl

theorem intercalate_first (sep line : Bytes) (lines : List Bytes) :
    ∃ more, sep.intercalate (line :: lines) = line ++ more := by
  cases lines with
  | nil => exact ⟨[], by rw [List.intercalate_singleton, List.append_nil]⟩
  | cons next lines => exact ⟨sep ++ sep.intercalate (next :: lines), by rw [List.intercalate_cons_cons, List.append_assoc]⟩

/-- No head ends in front of a line with text. -/
theorem find_crlf {c : UInt8} (hc : c ≠ 13) (rest : Bytes) :
    Framed.find headStop (crlf ++ c :: rest) = (Framed.find headStop (c :: rest)).map (· + 2) := by
  have hfirst : ¬ headStop.isPrefixOf (13 :: 10 :: c :: rest) = true := by
    intro hp
    obtain ⟨more, hmore⟩ := List.isPrefixOf_iff_prefix.mp hp
    exact hc (List.cons.inj (List.cons.inj (List.cons.inj hmore).2).2).1.symm
  have hsecond : ¬ headStop.isPrefixOf (10 :: c :: rest) = true := by
    intro hp
    obtain ⟨more, hmore⟩ := List.isPrefixOf_iff_prefix.mp hp
    cases (List.cons.inj hmore).1
  change Framed.find headStop (13 :: 10 :: c :: rest) = _
  rw [Framed.find, if_neg hfirst, Framed.find, if_neg hsecond, Option.map_map]
  rfl

/-- The first empty line is the one behind the head. -/
theorem find_text (hlines : ∀ line ∈ lines, NoBreak line ∧ line ≠ []) (hne : lines ≠ []) (rest : Bytes) :
    Framed.find headStop (crlf.intercalate lines ++ (headStop ++ rest)) = some (crlf.intercalate lines).length := by
  induction lines with
  | nil => exact absurd rfl hne
  | cons line lines ih =>
    obtain ⟨hline, -⟩ := hlines line List.mem_cons_self
    cases lines with
    | nil =>
      rw [List.intercalate_singleton, find_skip hline.cr, Framed.find_self, Option.map_some, Nat.zero_add]
    | cons next lines =>
      have hfound := ih (fun other hother => hlines other (List.mem_cons_of_mem line hother)) (List.cons_ne_nil _ _)
      obtain ⟨hnext, hsome⟩ := hlines next (List.mem_cons_of_mem line List.mem_cons_self)
      obtain ⟨c, tail, rfl⟩ := List.exists_cons_of_ne_nil hsome
      obtain ⟨more, hmore⟩ := intercalate_first crlf (c :: tail) lines
      have hc : c ≠ 13 := fun heq => hnext.cr (heq ▸ List.mem_cons_self)
      rw [List.intercalate_cons_cons, List.append_assoc, List.append_assoc, find_skip hline.cr]
      rw [hmore, List.cons_append, List.cons_append] at hfound ⊢
      rw [find_crlf hc, hfound]
      simp only [Option.map_some, List.length_append, List.length_cons, Option.some.injEq]
      have hcrlf : crlf.length = 2 := rfl
      omega

end Lines

section RoundTrip

variable {head : Head}

theorem words_first {word : PyStr} (hword : ∀ c ∈ word, isSpace c = false) (hne : word ≠ []) (s : PyStr) :
    words (word ++ 32 :: s) = word :: words s := by
  unfold words
  rw [List.splitOnP_append_cons_of_forall_mem hword 32 rfl, List.filter_cons_of_pos (by simpa using hne)]

theorem latin1_first (head : Head) :
    latin1 head.first = latin1 head.version ++ 32 :: (latin1 head.code ++ 32 :: latin1 head.reason) := by
  simp [Head.first, latin1]

theorem code_word (head : Head) : ∀ c ∈ latin1 head.code, isSpace c = false :=
  fun c hc => isDecimal_space (List.all_eq_true.mp head.sound.code_digits c hc)

theorem code_ne (head : Head) : latin1 head.code ≠ [] := fun hnil => head.sound.code_some (List.map_eq_nil_iff.mp hnil)

theorem isDigits_code (head : Head) : isDigits (latin1 head.code) = true := by
  apply decide_eq_true
  refine ⟨code_ne head, List.all_eq_true.mpr ?_⟩
  exact fun c hc => decide_eq_true (.inl (List.all_eq_true.mp head.sound.code_digits c hc))

theorem version_ne (head : Head) : latin1 head.version ≠ [] := by
  intro hnil
  obtain ⟨more, hmore⟩ := head.sound.version_mark
  have hlen := congrArg List.length (hmore.trans (List.map_eq_nil_iff.mp hnil))
  simp [httpMark, ascii] at hlen

/-- The status of a head is read off its first line, and no field changes it. -/
theorem statusLine_first (head : Head) (status : ℕ) : statusLine status (latin1 head.first) = .ok head.status := by
  have hmark : (latin1 httpMark).isPrefixOf (latin1 head.first) = true := by
    apply List.isPrefixOf_iff_prefix.mpr
    rw [latin1_first]
    exact (head.sound.version_mark.map UInt8.toNat).trans (List.prefix_append _ _)
  have hwords : words (latin1 head.first) = latin1 head.version :: latin1 head.code :: words (latin1 head.reason) := by
    rw [latin1_first, words_first head.sound.version_word (version_ne head), words_first (code_word head) (code_ne head)]
  rw [statusLine, if_pos hmark, hwords]
  dsimp only
  rw [if_pos (isDigits_code head), pyInt, if_pos head.sound.code_digits]
  rfl

theorem statusLine_field {field : Bytes} (hplain : ¬ httpMark <+: field) (status : ℕ) :
    statusLine status (latin1 field) = .ok status := by
  have hmark : ¬ (latin1 httpMark).isPrefixOf (latin1 field) = true := by
    intro hp
    have hprefix := List.isPrefixOf_iff_prefix.mp hp
    exact hplain ((List.prefix_map_iff_of_injective fun _ _ => UInt8.toNat_inj.mp).mp hprefix)
  rw [statusLine, if_neg hmark]

theorem first_noBreak (head : Head) : NoBreak head.first := by
  intro c hc
  rw [latin1_first] at hc
  simp only [List.mem_append, List.mem_cons] at hc
  rcases hc with hversion | rfl | hcode | rfl | hreason
  · exact isSpace_break (head.sound.version_word c hversion)
  · rfl
  · exact isSpace_break (code_word head c hcode)
  · rfl
  · exact head.sound.reason_line c hreason

theorem head_lines (head : Head) : ∀ line ∈ head.first :: head.fields, NoBreak line ∧ line ≠ [] := by
  intro line hline
  rcases List.mem_cons.mp hline with rfl | hfield
  · exact ⟨first_noBreak head, by simp [Head.first]⟩
  · exact ⟨head.sound.field_line line hfield, head.sound.field_some line hfield⟩

theorem upstreamStatus_text (head : Head) : upstreamStatusFromHeaders (latin1 head.text) = .ok head.status := by
  have hfields : ∀ fields : List Bytes, (∀ field ∈ fields, ¬ httpMark <+: field) →
      (fields.map latin1).foldlM statusLine head.status = .ok head.status := by
    intro fields hplain
    induction fields with
    | nil => rfl
    | cons field fields ih =>
      rw [List.map_cons, List.foldlM_cons, statusLine_field (hplain field List.mem_cons_self)]
      exact ih fun other hother => hplain other (List.mem_cons_of_mem field hother)
  rw [upstreamStatusFromHeaders, Head.text, splitlines_text (head_lines head) (List.cons_ne_nil _ _), List.map_cons,
    List.foldlM_cons, statusLine_first]
  exact hfields head.fields head.sound.field_plain

theorem relayFrom_head (fuel : ℕ) (head : Head) (rest : Bytes) : relayFrom (fuel + 1) (head.bytes ++ rest) =
    if 100 ≤ head.status ∧ head.status < 200 then relayFrom fuel rest else .ok (head.status, rest) := by
  have hmark : httpMark.isPrefixOf (head.bytes ++ rest) = true := by
    apply List.isPrefixOf_iff_prefix.mpr
    obtain ⟨more, hmore⟩ := intercalate_first crlf head.first head.fields
    rw [Head.bytes, Head.text, hmore, Head.first]
    simp only [List.append_assoc]
    exact head.sound.version_mark.trans (List.prefix_append _ _)
  have hfind : Framed.find headStop (head.bytes ++ rest) = some head.text.length := by
    rw [Head.bytes, List.append_assoc]
    exact find_text (head_lines head) (List.cons_ne_nil _ _) rest
  have htake : (head.bytes ++ rest).take head.text.length = head.text := by
    rw [Head.bytes, List.append_assoc, List.take_left]
  have hdrop : (head.bytes ++ rest).drop (head.text.length + headStop.length) = rest := by
    rw [← List.length_append]
    exact List.drop_left
  rw [relayFrom, if_pos hmark, hfind]
  dsimp only
  rw [htake, upstreamStatus_text, hdrop]
  rfl

theorem relayFrom_heads {interim : List Head} (hinterim : ∀ head ∈ interim, 100 ≤ head.status ∧ head.status < 200)
    {fuel : ℕ} (hfuel : interim.length ≤ fuel) (rest : Bytes) :
    relayFrom fuel (interim.flatMap Head.bytes ++ rest) = relayFrom (fuel - interim.length) rest := by
  induction interim generalizing fuel with
  | nil => rfl
  | cons head interim ih =>
    obtain ⟨fuel, rfl⟩ := Nat.exists_eq_add_one_of_ne_zero (Nat.ne_of_gt (Nat.lt_of_lt_of_le (Nat.succ_pos _) hfuel))
    rw [List.length_cons] at hfuel ⊢
    rw [List.flatMap_cons, List.append_assoc, relayFrom_head, if_pos (hinterim head List.mem_cons_self),
      ih (fun other hother => hinterim other (List.mem_cons_of_mem head hother)) (by omega)]
    congr 1
    omega

theorem heads_length (heads : List Head) : heads.length ≤ (heads.flatMap Head.bytes).length := by
  induction heads with
  | nil => rfl
  | cons head heads ih =>
    have hpos : 4 ≤ head.bytes.length := by
      rw [Head.bytes, List.length_append]
      exact Nat.le_add_left 4 _
    rw [List.flatMap_cons, List.length_append, List.length_cons]
    omega

theorem continueHead_sound : HeadSound (ascii "HTTP/1.1") (ascii "100") (ascii "Continue") [] := by
  constructor <;> decide

def continueHead : Head := ⟨_, _, _, _, continueHead_sound⟩

theorem limitedHead_sound :
    HeadSound (ascii "HTTP/1.1") (ascii "429") (ascii "Too Many Requests") [ascii "Retry-After: 2"] := by
  constructor <;> decide

def limitedHead : Head := ⟨_, _, _, _, limitedHead_sound⟩

end RoundTrip

end MiniAgentOS.Bridge
