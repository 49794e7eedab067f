import MiniAgentOS.Http.Header
import MiniAgentOS.Text.Json

/-! HTTP/1.1 requests as a strict parser reads them: one request line, field lines, and a body whose length
is given by a field. -/
namespace MiniAgentOS.Http

section Parser

/-- The bytes of a method and of the name of a field. -/
def isTokenByte (b : UInt8) : Bool :=
  isDigit b || (97 ≤ asciiLower b && asciiLower b ≤ 122) || (ascii "!#$%&'*+-.^_\x60|~").contains b

/-- The bytes of a request target. -/
def isTargetByte (b : UInt8) : Bool := 33 ≤ b && b ≤ 126

/-- The bytes of the value of a field. -/
def isFieldByte (b : UInt8) : Bool := isBlank b || (33 ≤ b && b != 127)

structure Field where
  name : Bytes
  value : Bytes
  deriving DecidableEq, Repr

structure RequestForm where
  method : Bytes
  target : Bytes
  fields : List Field
  body : Bytes
  deriving DecidableEq, Repr

/-- The first line and what follows its `CRLF`. -/
def cutLine : Bytes → Option (Bytes × Bytes)
  | [] => none
  | [_] => none
  | b :: c :: buf =>
    if b = cr ∧ c = lf then some ([], buf) else (cutLine (c :: buf)).map fun r => (b :: r.1, r.2)

/-- The text in front of the first `stop`, and what follows it. -/
def cutAt (stop : UInt8) (buf : Bytes) : Option (Bytes × Bytes) :=
  if stop ∈ buf then some (buf.takeWhile (· != stop), (buf.dropWhile (· != stop)).tail) else none

/-- Without the blanks at its ends. -/
def trimBlanks (value : Bytes) : Bytes := (value.dropWhile isBlank).rdropWhile isBlank

def readField (line : Bytes) : Option Field := do
  let (name, value) ← cutAt colon line
  if name ≠ [] ∧ name.all isTokenByte ∧ value.all isFieldByte then some ⟨name, trimBlanks value⟩ else none

/-- The method and the target of a request line. -/
def readRequestLine (line : Bytes) : Option (Bytes × Bytes) := do
  let (method, rest) ← cutAt space line
  let (target, version) ← cutAt space rest
  if method ≠ [] ∧ method.all isTokenByte ∧ target ≠ [] ∧ target.all isTargetByte ∧
      version = ascii "HTTP/1.1" then
    some (method, target)
  else none

/-- The fields up to the empty line, and what follows it; `fuel` bounds the number of lines. -/
def readFields : ℕ → Bytes → Option (List Field × Bytes)
  | 0, _ => none
  | fuel + 1, buf => do
    let (line, buf) ← cutLine buf
    if line = [] then some ([], buf)
    else
      let field ← readField line
      let (fields, buf) ← readFields fuel buf
      some (field :: fields, buf)

def Field.named (name : Bytes) (f : Field) : Bool := f.name.map asciiLower == name

/-- The length of the body that the fields give. Two lengths, or a transfer coding, are refused. -/
def bodyLength (fields : List Field) : Option ℕ :=
  if fields.any (Field.named (ascii "transfer-encoding")) then none
  else
    match fields.filter (Field.named (ascii "content-length")) with
    | [] => some 0
    | [f] =>
      if f.value ≠ [] ∧ f.value.all isDigit then some (decimalValue 0 f.value) else none
    | _ => none

/-- The request that `buf` is, if it is exactly one. -/
def readRequest (buf : Bytes) : Option RequestForm := do
  let (line, rest) ← cutLine buf
  let (method, target) ← readRequestLine line
  let (fields, body) ← readFields rest.length rest
  let length ← bodyLength fields
  if (fields.filter (Field.named (ascii "host"))).length = 1 ∧ body.length = length then
    some ⟨method, target, fields, body⟩
  else none

example : readRequest (ascii "GET / HTTP/1.1\r\nHost: a\r\nContent-Length: 2\r\n\r\nok") =
    some ⟨ascii "GET", ascii "/",
      [⟨ascii "Host", ascii "a"⟩, ⟨ascii "Content-Length", ascii "2"⟩], ascii "ok"⟩ := by
  decide +kernel

/-- The grammar of a field line: a name, a colon, and a value between blanks. -/
structure FieldLine (line : Bytes) (f : Field) : Prop where
  name : f.name ≠ [] ∧ ∀ b ∈ f.name, isTokenByte b
  value : ∀ b ∈ f.value, isFieldByte b
  head : ∀ b ∈ f.value.head?, isBlank b = false
  last : ∀ b ∈ f.value.getLast?, isBlank b = false
  text : ∃ before after, (∀ b ∈ before, isBlank b) ∧ (∀ b ∈ after, isBlank b) ∧
    line = f.name ++ colon :: (before ++ f.value ++ after)

end Parser

section Lines

variable {line buf rest name value before after : Bytes} {f : Field} {stop : UInt8}

/-- A line without a `CRLF` in it is cut where it ends. -/
theorem cutLine_eq (h : ¬ [cr, lf] <:+: line) : cutLine (line ++ cr :: lf :: rest) = some (line, rest) := by
  induction line with
  | nil => simp [cutLine]
  | cons b line ih =>
    have hrest := ih fun hin => h (hin.trans (List.suffix_cons b line).isInfix)
    cases line with
    | nil => simp [cutLine, cr, lf]
    | cons c line =>
      have hnot : ¬(b = cr ∧ c = lf) := by
        rintro ⟨rfl, rfl⟩
        exact h ⟨[], line, rfl⟩
      rw [List.cons_append, List.cons_append, cutLine, if_neg hnot, ← List.cons_append, hrest]
      rfl

theorem cutAt_eq (h : stop ∉ name) : cutAt stop (name ++ stop :: rest) = some (name, rest) := by
  have hne : ∀ b ∈ name, (b != stop) = true := by
    intro b hb
    simp only [bne_iff_ne, ne_eq]
    rintro rfl
    exact h hb
  have htake : (name ++ stop :: rest).takeWhile (· != stop) = name := by
    rw [List.takeWhile_append_of_pos hne, List.takeWhile_cons_of_neg (by simp), List.append_nil]
  have hdrop : (name ++ stop :: rest).dropWhile (· != stop) = stop :: rest := by
    rw [List.dropWhile_append_of_pos hne, List.dropWhile_cons_of_neg (by simp)]
  rw [cutAt, if_pos (by simp), htake, hdrop, List.tail_cons]

theorem cutAt_text (h : cutAt stop buf = some (name, rest)) : buf = name ++ stop :: rest := by
  unfold cutAt at h
  split_ifs at h with hmem
  obtain ⟨rfl, rfl⟩ := Prod.mk.inj (Option.some.inj h)
  have hdrop : buf.dropWhile (· != stop) ≠ [] := by
    intro hnil
    rw [List.dropWhile_eq_nil_iff] at hnil
    simpa using hnil stop hmem
  obtain ⟨b, tail, hb⟩ := List.exists_cons_of_ne_nil hdrop
  have hstop : b = stop := by
    have hhead := List.head_dropWhile_not (p := (· != stop)) hdrop
    simp only [hb, List.head_cons] at hhead
    simpa using hhead
  conv_lhs => rw [← List.takeWhile_append_dropWhile (p := (· != stop)) (l := buf)]
  rw [hb, hstop, List.tail_cons]

theorem trim_eq (hbefore : ∀ b ∈ before, isBlank b) (hafter : ∀ b ∈ after, isBlank b)
    (hhead : ∀ b ∈ value.head?, isBlank b = false) (hlast : ∀ b ∈ value.getLast?, isBlank b = false) :
    trimBlanks (before ++ value ++ after) = value := by
  unfold trimBlanks
  rw [List.append_assoc, List.dropWhile_append_of_pos hbefore]
  cases value with
  | nil =>
    rw [List.nil_append, List.dropWhile_eq_nil_iff.mpr hafter]
    rfl
  | cons b value =>
    rw [List.cons_append, List.dropWhile_cons_of_neg (by simp [hhead b rfl]), ← List.cons_append, List.rdropWhile,
      List.reverse_append, List.dropWhile_append_of_pos fun c hc => hafter c (List.mem_reverse.mp hc)]
    have hlast' : ((b :: value).reverse.dropWhile isBlank) = (b :: value).reverse := by
      cases hrev : (b :: value).reverse with
      | nil => rfl
      | cons c tail =>
        have hc : (b :: value).getLast? = some c := by
          rw [← List.head?_reverse, hrev]
          rfl
        rw [List.dropWhile_cons_of_neg (by simp [hlast c hc])]
    rw [hlast', List.reverse_reverse]

/-- What a value is between the blanks that are trimmed. -/
theorem trim_text (text : Bytes) : ∃ before after, (∀ b ∈ before, isBlank b) ∧ (∀ b ∈ after, isBlank b) ∧
    text = before ++ trimBlanks text ++ after := by
  refine ⟨text.takeWhile isBlank, (text.dropWhile isBlank).rtakeWhile isBlank,
    fun b hb => List.mem_takeWhile_imp hb, ?_, ?_⟩
  · exact fun b hb => List.mem_rtakeWhile_imp hb
  · rw [trimBlanks, List.append_assoc, List.rdropWhile_append_rtakeWhile, List.takeWhile_append_dropWhile]

theorem trim_head (text : Bytes) : ∀ b ∈ (trimBlanks text).head?, isBlank b = false := by
  intro b hb
  obtain ⟨after, hafter⟩ := List.rdropWhile_prefix isBlank (text.dropWhile isBlank)
  have hdrop : (text.dropWhile isBlank).head? = some b := by
    rw [← hafter, List.head?_append]
    unfold trimBlanks at hb
    rw [Option.mem_def.mp hb, Option.some_or]
  have hnot := List.head?_dropWhile_not isBlank text
  rw [hdrop] at hnot
  simpa using hnot

theorem trim_last (text : Bytes) : ∀ b ∈ (trimBlanks text).getLast?, isBlank b = false := by
  intro b hb
  have hne : (text.dropWhile isBlank).rdropWhile isBlank ≠ [] := by
    intro hnil
    rw [trimBlanks, hnil] at hb
    cases hb
  have hlast := List.rdropWhile_last_not isBlank _ hne
  rw [trimBlanks, List.getLast?_eq_some_getLast hne, Option.mem_some_iff] at hb
  rw [hb] at hlast
  simpa using hlast

theorem blank_isFieldByte {b : UInt8} (h : isBlank b = true) : isFieldByte b = true := by
  rw [isFieldByte, h, Bool.true_or]

theorem colon_not_token : isTokenByte colon = false := by decide

/-- A field is read just where the line is one, and what is read are its parts. -/
theorem readField_iff : readField line = some f ↔ FieldLine line f := by
  constructor
  · intro h
    unfold readField at h
    obtain ⟨⟨name, value⟩, hcut, h⟩ := Option.bind_eq_some_iff.mp h
    dsimp only at h
    split_ifs at h with hlegal
    obtain ⟨hne, hname, hvalue⟩ := hlegal
    rw [List.all_eq_true] at hname hvalue
    obtain rfl := Option.some.inj h
    obtain ⟨before, after, hbefore, hafter, htext⟩ := trim_text value
    have hmem : ∀ b ∈ trimBlanks value, b ∈ value := by
      intro b hb
      rw [htext]
      simp [hb]
    exact ⟨⟨hne, hname⟩, fun b hb => hvalue b (hmem b hb), trim_head value, trim_last value, before, after, hbefore,
      hafter, by rw [cutAt_text hcut, ← htext]⟩
  · rintro ⟨⟨hne, hname⟩, hvalue, hhead, hlast, before, after, hbefore, hafter, rfl⟩
    have hcolon : colon ∉ f.name := by
      intro hmem
      have htoken := hname colon hmem
      rw [colon_not_token] at htoken
      cases htoken
    have hall : (before ++ f.value ++ after).all isFieldByte = true := by
      rw [List.all_eq_true]
      intro b hb
      rcases List.mem_append.mp hb with hb | hb
      · rcases List.mem_append.mp hb with hb | hb
        · exact blank_isFieldByte (hbefore b hb)
        · exact hvalue b hb
      · exact blank_isFieldByte (hafter b hb)
    rw [readField, cutAt_eq hcolon, Option.bind_eq_bind, Option.bind_some]
    dsimp only
    rw [if_pos ⟨hne, List.all_eq_true.mpr hname, hall⟩, trim_eq hbefore hafter hhead hlast]

theorem FieldLine.ne_nil (h : FieldLine line f) : line ≠ [] := by
  obtain ⟨before, after, -, -, rfl⟩ := h.text
  simp

end Lines

section Request

variable {lines : List Bytes} {fields : List Field} {body method target : Bytes} {fuel : ℕ}

/-- Lines with their ends. -/
def linesText (lines : List Bytes) : Bytes := lines.flatMap fun line => line ++ [cr, lf]

/-- The fields of a block of lines, up to the first line that is none. -/
theorem readFields_eq (hlines : ∀ line ∈ lines, ¬ [cr, lf] <:+: line ∧ line ≠ []) (hfuel : lines.length < fuel) :
    readFields fuel (linesText lines ++ cr :: lf :: body) = (lines.mapM readField).map fun fields => (fields, body) := by
  induction lines generalizing fuel with
  | nil =>
    obtain ⟨fuel, rfl⟩ : ∃ n, fuel = n + 1 := ⟨fuel - 1, by simp at hfuel; omega⟩
    simp [readFields, linesText, cutLine]
  | cons line lines ih =>
    obtain ⟨fuel, rfl⟩ : ∃ n, fuel = n + 1 := ⟨fuel - 1, by simp at hfuel; omega⟩
    rw [List.length_cons] at hfuel
    obtain ⟨hclean, hne⟩ := hlines line List.mem_cons_self
    have hcut : cutLine (linesText (line :: lines) ++ cr :: lf :: body) =
        some (line, linesText lines ++ cr :: lf :: body) := by
      rw [linesText, List.flatMap_cons, List.append_assoc, List.append_assoc]
      exact cutLine_eq hclean
    rw [readFields, hcut]
    simp only [Option.bind_eq_bind, Option.bind_some, if_neg hne]
    rw [ih (fun l hl => hlines l (List.mem_cons_of_mem _ hl)) (by omega), List.mapM_cons]
    cases readField line with
    | none => rfl
    | some f => cases lines.mapM readField <;> rfl

theorem readRequestLine_eq (hmethod : method ≠ [] ∧ method.all isTokenByte) (hspace : space ∉ target) :
    readRequestLine (method ++ space :: (target ++ space :: ascii "HTTP/1.1")) =
      if target ≠ [] ∧ target.all isTargetByte then some (method, target) else none := by
  have hfirst : space ∉ method := by
    intro hmem
    have htoken := List.all_eq_true.mp hmethod.2 space hmem
    exact absurd htoken (by decide)
  rw [readRequestLine, cutAt_eq hfirst]
  simp only [Option.bind_eq_bind, Option.bind_some]
  rw [cutAt_eq hspace]
  simp [hmethod]

theorem no_crlf {line : Bytes} (h : lf ∉ line) : ¬ [cr, lf] <:+: line := by
  intro hin
  exact h (hin.subset (by simp))

/-- The text of a request. -/
def requestText (method target : Bytes) (lines : List Bytes) (body : Bytes) : Bytes :=
  method ++ space :: (target ++ space :: ascii "HTTP/1.1") ++ cr :: lf :: (linesText lines ++ cr :: lf :: body)

/-- What is read of the text of a request comes from its parts one by one. -/
theorem readRequest_text (hmethod : method ≠ [] ∧ method.all isTokenByte) (hspace : space ∉ target)
    (hend : lf ∉ target)
    (hlines : ∀ line ∈ lines, ¬ [cr, lf] <:+: line ∧ line ≠ []) :
    readRequest (requestText method target lines body) = some ⟨method, target, fields, body⟩ ↔
      (target ≠ [] ∧ target.all isTargetByte) ∧ lines.mapM readField = some fields ∧
      bodyLength fields = some body.length ∧ (fields.filter (Field.named (ascii "host"))).length = 1 := by
  have hline : lf ∉ method ++ space :: (target ++ space :: ascii "HTTP/1.1") := by
    have hfirst : lf ∉ method := by
      intro hmem
      have htoken := List.all_eq_true.mp hmethod.2 lf hmem
      exact absurd htoken (by decide)
    simp only [List.mem_append, List.mem_cons, not_or]
    exact ⟨hfirst, by decide, hend, by decide, by decide⟩
  have hfuel : lines.length < (linesText lines ++ cr :: lf :: body).length := by
    have hle : lines.length ≤ (linesText lines).length := by
      rw [linesText, List.length_flatMap]
      calc lines.length = (lines.map fun _ => 1).sum := by simp
        _ ≤ _ := List.sum_le_sum fun line _ => by simp
    rw [List.length_append, List.length_cons]
    omega
  rw [readRequest, requestText, cutLine_eq (no_crlf hline)]
  simp only [Option.bind_eq_bind, Option.bind_some]
  rw [readRequestLine_eq hmethod hspace, readFields_eq hlines hfuel]
  by_cases htarget : target ≠ [] ∧ target.all isTargetByte
  · rw [if_pos htarget]
    cases hread : lines.mapM readField with
    | none => simp
    | some found =>
      simp only [Option.map_some, Option.bind_some]
      cases hlength : bodyLength found with
      | none =>
        constructor
        · intro h
          cases h
        · rintro ⟨-, hsome, hbody, -⟩
          rw [Option.some.inj hsome, hbody] at hlength
          cases hlength
      | some length =>
        simp only [Option.bind_some]
        constructor
        · intro h
          split_ifs at h with hone
          have hfound : found = fields := by simpa using h
          rw [← hfound]
          exact ⟨htarget, rfl, by rw [hlength, hone.2], hone.1⟩
        · rintro ⟨-, hsome, hbody, hhost⟩
          obtain rfl := Option.some.inj hsome
          rw [hlength] at hbody
          rw [if_pos ⟨hhost, (Option.some.inj hbody).symm⟩]
  · rw [if_neg htarget]
    constructor
    · intro h
      cases h
    · exact fun h => absurd h.1 htarget

theorem mapM_readField {found : List Field} :
    lines.mapM readField = some found ↔ List.Forall₂ FieldLine lines found := by
  induction lines generalizing found with
  | nil => simp [eq_comm]
  | cons line lines ih =>
    rw [List.mapM_cons]
    cases hread : readField line with
    | none =>
      constructor
      · intro h
        cases h
      · rintro (_ | ⟨hline, -⟩)
        rw [readField_iff.mpr hline] at hread
        cases hread
    | some f =>
      cases hrest : lines.mapM readField with
      | none =>
        constructor
        · intro h
          cases h
        · rintro (_ | ⟨-, hlines⟩)
          rw [ih.mpr hlines] at hrest
          cases hrest
      | some rest =>
        constructor
        · intro h
          obtain rfl := Option.some.inj h
          exact .cons (readField_iff.mp hread) (ih.mp hrest)
        · rintro (_ | ⟨hline, hlines⟩)
          rw [readField_iff.mpr hline] at hread
          rw [ih.mpr hlines] at hrest
          obtain rfl := Option.some.inj hread
          obtain rfl := Option.some.inj hrest
          rfl

end Request

end MiniAgentOS.Http
