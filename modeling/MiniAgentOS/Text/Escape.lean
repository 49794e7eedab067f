import MiniAgentOS.Text.Json
import MiniAgentOS.Text.Utf8

/-! The writers of bounded buffers, and `json_escape_append`: the bytes of a text as the inside of a JSON
string. Bytes that begin no character are written as the replacement character. -/
namespace MiniAgentOS
open Checked

set_option maxRecDepth 4000

section Encoder

def comma : UInt8 := 44
def openBrace : UInt8 := 123
def closeBrace : UInt8 := 125

/-- `append_bytes` and `copy_bytes`: as much of the bytes as the buffer has room for. -/
def appendBytes (capacity : ℕ) (out bytes : Bytes) : Bytes := out ++ bytes.take (capacity - out.length)

/-- A digit of the table of `json_escape_append`. -/
def hexChar (n : UInt8) : UInt8 := if n ≤ 9 then 48 + n else 87 + n

/-- The escapes of single bytes. -/
def escapeByte (b : UInt8) : Option Bytes :=
  if b = quote ∨ b = backslash then some [backslash, b]
  else if b = lf then some [backslash, 110]
  else if b = cr then some [backslash, 114]
  else if b = tab then some [backslash, 116]
  else if b ≤ 0x1f ∨ b = 0x7f then
    some [backslash, 117, 48, 48, hexChar ((b >>> 4) &&& 0x0f), hexChar (b &&& 0x0f)]
  else none

/-- U+FFFD. -/
def replacement : Bytes := utf8Bytes 0xfffd

/-- `json_escape_append` into a buffer with room for `capacity`, behind the bytes that are written
already; `skip` bytes of the source were written with the character that they belong to. -/
def escapeLoop (capacity : ℕ) : ℕ → Bytes → Bytes → Bytes
  | _, out, [] => out
  | skip + 1, out, _ :: src => escapeLoop capacity skip out src
  | 0, out, b :: src =>
    if capacity ≤ out.length then out
    else
      match escapeByte b with
      | some piece =>
        if capacity < out.length + piece.length then out
        else escapeLoop capacity 0 (out ++ piece) src
      | none =>
        match utf8SeqLen (b :: src) with
        | 0 =>
          let piece := if out.length + replacement.length ≤ capacity then replacement else []
          escapeLoop capacity 0 (out ++ piece) src
        | more + 1 =>
          if capacity < out.length + (more + 1) then out
          else escapeLoop capacity more (out ++ (b :: src).take (more + 1)) src

def jsonEscapeAppend (capacity : ℕ) (out src : Bytes) : Bytes := escapeLoop capacity 0 out src

end Encoder

section Characters

/-- The characters of a text one after the other, where a byte that begins none is one of its own:
`char` is what a character comes to, `bad` what such a byte comes to. -/
def eachChar (char : Bytes → Bytes) (bad : Bytes) : ℕ → Bytes → Bytes
  | _, [] => []
  | skip + 1, _ :: src => eachChar char bad skip src
  | 0, b :: src =>
    match utf8SeqLen (b :: src) with
    | 0 => bad ++ eachChar char bad 0 src
    | more + 1 => char ((b :: src).take (more + 1)) ++ eachChar char bad more src

/-- A character as it is written. -/
def escapeChar (char : Bytes) : Bytes :=
  match char with
  | b :: _ => (escapeByte b).getD char
  | [] => []

/-- The text as the inside of a JSON string. -/
def jsonEscape (src : Bytes) : Bytes := eachChar escapeChar replacement 0 src

/-- The text with the replacement character for each byte that begins no character. -/
def utf8Repair (src : Bytes) : Bytes := eachChar id replacement 0 src

variable {char : Bytes → Bytes} {bad c rest src : Bytes} {b : UInt8}

theorem eachChar_skip (char : Bytes → Bytes) (bad : Bytes) (skip : ℕ) (src : Bytes) :
    eachChar char bad skip src = eachChar char bad 0 (src.drop skip) := by
  induction skip generalizing src with
  | zero => rfl
  | succ skip ih =>
    cases src with
    | nil => rfl
    | cons b src => exact ih src

theorem eachChar_char (h : Utf8Char c) :
    eachChar char bad 0 (c ++ rest) = char c ++ eachChar char bad 0 rest := by
  obtain ⟨first, more, rfl, -⟩ := h.shape
  have hlen := utf8SeqLen_char h rest
  rw [List.cons_append] at hlen ⊢
  rw [eachChar, hlen, List.length_cons]
  dsimp only
  rw [eachChar_skip, List.drop_left, ← List.cons_append, ← List.length_cons, List.take_left]

theorem eachChar_bad (h : utf8SeqLen (b :: rest) = 0) :
    eachChar char bad 0 (b :: rest) = bad ++ eachChar char bad 0 rest := by
  rw [eachChar, h]

/-- The induction over the characters of a text. -/
theorem each_char {P : Bytes → Prop} (nil : P [])
    (char : ∀ {c rest}, Utf8Char c → P rest → P (c ++ rest))
    (bad : ∀ {b rest}, utf8SeqLen (b :: rest) = 0 → P rest → P (b :: rest)) (src : Bytes) : P src := by
  obtain ⟨n, hn⟩ : ∃ n, src.length = n := ⟨_, rfl⟩
  induction n using Nat.strong_induction_on generalizing src with
  | _ n ih =>
    cases src with
    | nil => exact nil
    | cons b src =>
      by_cases hbad : utf8SeqLen (b :: src) = 0
      · exact bad hbad (ih src.length (by rw [← hn]; exact Nat.lt_succ_self _) src rfl)
      · obtain ⟨c, rest, heq, hchar⟩ := utf8Char_of_seqLen hbad
        have hpos := List.length_pos_iff.mpr hchar.ne_nil
        have hlen : rest.length < n := by
          rw [← hn, heq, List.length_append]
          omega
        rw [heq]
        exact char hchar (ih rest.length hlen rest rfl)

@[simp] theorem jsonEscape_nil : jsonEscape [] = [] := rfl

@[simp] theorem utf8Repair_nil : utf8Repair [] = [] := rfl

theorem jsonEscape_char (h : Utf8Char c) (rest : Bytes) :
    jsonEscape (c ++ rest) = escapeChar c ++ jsonEscape rest := eachChar_char h

theorem utf8Repair_char (h : Utf8Char c) (rest : Bytes) :
    utf8Repair (c ++ rest) = c ++ utf8Repair rest := eachChar_char h

theorem jsonEscape_bad (h : utf8SeqLen (b :: rest) = 0) :
    jsonEscape (b :: rest) = replacement ++ jsonEscape rest := eachChar_bad h

theorem utf8Repair_bad (h : utf8SeqLen (b :: rest) = 0) :
    utf8Repair (b :: rest) = replacement ++ utf8Repair rest := eachChar_bad h

theorem replacement_char : Utf8Char replacement := by
  have hbytes : replacement = [0xef, 0xbf, 0xbd] := by decide
  rw [hbytes]
  exact .three (.inr ⟨by decide, by decide⟩) (by decide) (by decide)

/-- What is repaired is well formed. -/
theorem utf8Repair_utf8 (src : Bytes) : Utf8 (utf8Repair src) := by
  induction src using each_char with
  | nil => exact .nil
  | char hchar ih =>
    rw [utf8Repair_char hchar]
    exact .cons hchar ih
  | bad hbad ih =>
    rw [utf8Repair_bad hbad]
    exact .cons replacement_char ih

/-- A well-formed text needs no repair. -/
theorem utf8Repair_of_utf8 (h : Utf8 src) : utf8Repair src = src := by
  induction h with
  | nil => rfl
  | cons hchar _ ih => rw [utf8Repair_char hchar, ih]

end Characters

section Written

/-- A character, and how it may be written. -/
inductive EscapedAs : Bytes → Bytes → Prop where
  | letter {e b : UInt8} (h : (e, b) ∈ [(quote, quote), (backslash, backslash), (110, lf), (114, cr),
      (116, tab)]) : EscapedAs [backslash, e] [b]
  | control {b : UInt8} (h : b ≤ 0x1f ∨ b = 0x7f) : EscapedAs
      [backslash, 117, 48, 48, hexChar ((b >>> 4) &&& 0x0f), hexChar (b &&& 0x0f)] [b]
  | plain {c : Bytes} (h : Utf8Char c) (hplain : ∀ b ∈ c, b ≠ quote ∧ b ≠ backslash ∧ 0x20 ≤ b) :
      EscapedAs c c

/-- The inside of a JSON string, and the text that it is written for. -/
inductive EscapedText : Bytes → Bytes → Prop where
  | nil : EscapedText [] []
  | cons {e d text decoded : Bytes} : EscapedAs e d → EscapedText text decoded →
      EscapedText (e ++ text) (d ++ decoded)

variable {c src text decoded : Bytes} {b : UInt8}

theorem escapeByte_escaped {piece : Bytes} (h : escapeByte b = some piece) : EscapedAs piece [b] := by
  unfold escapeByte at h
  split_ifs at h with hself hlf hcr htab hcontrol
  · cases h
    apply EscapedAs.letter
    rcases hself with rfl | rfl <;> simp
  · cases h
    exact .letter (by simp [hlf])
  · cases h
    exact .letter (by simp [hcr])
  · cases h
    exact .letter (by simp [htab])
  · cases h
    exact .control hcontrol

theorem escapeByte_none : ∀ b, escapeByte b = none → b ≠ quote ∧ b ≠ backslash ∧ 0x20 ≤ b :=
  forall_byte (by decide)

/-- The bytes of a character of several bytes. -/
theorem Utf8Char.high (h : Utf8Char c) : (∃ b, c = [b] ∧ b ≤ 0x7f) ∨ ∀ b ∈ c, 0x80 ≤ b := by
  have hcont : ∀ {b}, isUtf8Continuation b → 0x80 ≤ b :=
    fun h => UInt8.le_iff_toNat_le.mpr ((isUtf8Continuation_iff _).mp h).1
  have hmono : ∀ {low b : UInt8}, low ≤ b → 0x80 ≤ low → 0x80 ≤ b := fun h hlow => UInt8.le_trans hlow h
  cases h with
  | one h => exact .inl ⟨_, rfl, h⟩
  | two ha _ hb => simp [hcont hb, hmono ha (by decide)]
  | e0 hb _ hc => simp [hcont hc, hmono hb (by decide)]
  | three ha hb hc =>
    have hfirst := ha.elim (fun h => hmono h.1 (by decide)) fun h => hmono h.1 (by decide)
    simp [hcont hb, hcont hc, hfirst]
  | ed hb _ hc => simp [hcont hc, hb]
  | f0 hb _ hc hd => simp [hcont hc, hcont hd, hmono hb (by decide)]
  | four ha _ hb hc hd => simp [hcont hb, hcont hc, hcont hd, hmono ha (by decide)]
  | f4 hb _ hc hd => simp [hcont hc, hcont hd, hb]

theorem utf8Bytes_ascii : ∀ b : UInt8, b ≤ 0x7f → utf8Bytes b.toNat = [b] := forall_byte (by decide)

theorem low_or_high : ∀ b : UInt8, b ≤ 0x7f ∨ 0x80 ≤ b := forall_byte (by decide)

theorem plain_of_high : ∀ b : UInt8, 0x80 ≤ b → b ≠ quote ∧ b ≠ backslash ∧ 0x20 ≤ b :=
  forall_byte (by decide)

theorem escapeByte_high : ∀ b : UInt8, 0x80 ≤ b → escapeByte b = none := forall_byte (by decide)

theorem escapeChar_escaped (h : Utf8Char c) : EscapedAs (escapeChar c) c := by
  rcases h.high with ⟨b, rfl, hlow⟩ | hhigh
  · unfold escapeChar
    dsimp only
    cases hpiece : escapeByte b with
    | some piece => exact escapeByte_escaped hpiece
    | none =>
      apply EscapedAs.plain h
      intro a ha
      rw [List.mem_singleton.mp ha]
      exact escapeByte_none b hpiece
  · have hsame : escapeChar c = c := by
      obtain ⟨first, more, rfl, -⟩ := h.shape
      unfold escapeChar
      dsimp only
      rw [escapeByte_high first (hhigh first List.mem_cons_self), Option.getD_none]
    rw [hsame]
    exact .plain h fun b hb => plain_of_high b (hhigh b hb)

theorem replacement_escaped : EscapedAs replacement replacement := by
  apply EscapedAs.plain replacement_char
  decide

/-- What is written for a text stands for the text, repaired. -/
theorem jsonEscape_escaped (src : Bytes) : EscapedText (jsonEscape src) (utf8Repair src) := by
  induction src using each_char with
  | nil => exact .nil
  | char hchar ih =>
    rw [jsonEscape_char hchar, utf8Repair_char hchar]
    exact .cons (escapeChar_escaped hchar) ih
  | bad hbad ih =>
    rw [jsonEscape_bad hbad, utf8Repair_bad hbad]
    exact .cons replacement_escaped ih

theorem utf8_ascii (h : ∀ b ∈ text, b ≤ 0x7f) : Utf8 text := by
  induction text with
  | nil => exact .nil
  | cons b text ih =>
    have hrest := ih fun a ha => h a (List.mem_cons_of_mem _ ha)
    exact .cons (.one (h b List.mem_cons_self)) hrest

theorem hexChars_ascii : ∀ b : UInt8, hexChar ((b >>> 4) &&& 0x0f) ≤ 0x7f ∧ hexChar (b &&& 0x0f) ≤ 0x7f :=
  forall_byte (by decide)

theorem EscapedAs.utf8 {e d : Bytes} (h : EscapedAs e d) : Utf8 e := by
  cases h with
  | plain h => simpa using Utf8.cons h .nil
  | @letter e b h =>
    apply utf8_ascii
    simp only [List.mem_cons, Prod.mk.injEq, List.not_mem_nil, or_false] at h
    rcases h with ⟨rfl, -⟩ | ⟨rfl, -⟩ | ⟨rfl, -⟩ | ⟨rfl, -⟩ | ⟨rfl, -⟩ <;> decide
  | @control b h =>
    apply utf8_ascii
    obtain ⟨hhigh, hlow⟩ := hexChars_ascii b
    simp only [List.mem_cons, List.not_mem_nil, or_false, forall_eq_or_imp, forall_eq]
    exact ⟨by decide, by decide, by decide, by decide, hhigh, hlow⟩

/-- What is written is well-formed UTF-8. -/
theorem EscapedText.utf8 (h : EscapedText text decoded) : Utf8 text := by
  induction h with
  | nil => exact .nil
  | cons hunit _ ih => exact hunit.utf8.append ih

end Written

section Room

variable {src out : Bytes} {capacity : ℕ}

theorem appendBytes_eq {bytes : Bytes} (h : out.length + bytes.length ≤ capacity) :
    appendBytes capacity out bytes = out ++ bytes := by
  rw [appendBytes, List.take_of_length_le (by omega)]

theorem escapeChar_length_le {c : Bytes} (h : Utf8Char c) : (escapeChar c).length ≤ 6 * c.length := by
  have hpos := List.length_pos_iff.mpr h.ne_nil
  have hunit := escapeChar_escaped h
  generalize escapeChar c = e at hunit
  cases hunit with
  | letter => simp
  | control => simp
  | plain => omega

/-- A byte of the text takes at most six bytes. -/
theorem jsonEscape_length_le (src : Bytes) : (jsonEscape src).length ≤ 6 * src.length := by
  induction src using each_char with
  | nil => exact Nat.zero_le _
  | char hchar ih =>
    rw [jsonEscape_char hchar, List.length_append, List.length_append]
    have hunit := escapeChar_length_le hchar
    omega
  | bad hbad ih =>
    rw [jsonEscape_bad hbad, List.length_append, List.length_cons]
    have hthree : replacement.length = 3 := by decide
    omega

theorem escapeLoop_skip (capacity skip : ℕ) (out src : Bytes) :
    escapeLoop capacity skip out src = escapeLoop capacity 0 out (src.drop skip) := by
  induction skip generalizing src with
  | zero => rfl
  | succ skip ih =>
    cases src with
    | nil => rfl
    | cons b src => exact ih src

/-- Only a character of one byte has an escape. -/
theorem escapeByte_single {first : UInt8} {more piece : Bytes} (h : Utf8Char (first :: more))
    (hpiece : escapeByte first = some piece) : more = [] := by
  rcases h.high with ⟨b, heq, -⟩ | hhigh
  · exact (List.cons.inj heq).2
  · rw [escapeByte_high first (hhigh first List.mem_cons_self)] at hpiece
    cases hpiece

theorem EscapedAs.pos {e d : Bytes} (h : EscapedAs e d) : 0 < e.length := by
  cases h with
  | letter => simp
  | control => simp
  | plain h => exact List.length_pos_iff.mpr h.ne_nil

/-- In a buffer that has room for it, the whole text is written. -/
theorem jsonEscapeAppend_eq (h : out.length + (jsonEscape src).length ≤ capacity) :
    jsonEscapeAppend capacity out src = out ++ jsonEscape src := by
  unfold jsonEscapeAppend
  induction src using each_char generalizing out with
  | nil => exact (List.append_nil out).symm
  | @char c rest hchar ih =>
    rw [jsonEscape_char hchar, List.length_append] at h
    rw [jsonEscape_char hchar, ← List.append_assoc]
    have hpos := (escapeChar_escaped hchar).pos
    have hroom : ¬ capacity ≤ out.length := by omega
    obtain ⟨first, more, rfl, -⟩ := hchar.shape
    have hlen := utf8SeqLen_char hchar rest
    have hnext := @ih (out ++ escapeChar (first :: more)) (by rw [List.length_append]; omega)
    rw [List.cons_append] at hlen ⊢
    rw [escapeLoop, if_neg hroom]
    cases hpiece : escapeByte first with
    | some piece =>
      have hmore := escapeByte_single hchar hpiece
      subst hmore
      have hchar' : escapeChar [first] = piece := by
        unfold escapeChar
        dsimp only
        rw [hpiece, Option.getD_some]
      rw [hchar'] at h hnext ⊢
      dsimp only
      rw [if_neg (by omega)]
      exact hnext
    | none =>
      have hchar' : escapeChar (first :: more) = first :: more := by
        unfold escapeChar
        dsimp only
        rw [hpiece, Option.getD_none]
      rw [hchar', List.length_cons] at h
      rw [hchar'] at hnext ⊢
      rw [hlen, List.length_cons]
      dsimp only
      rw [if_neg (by omega), escapeLoop_skip, List.drop_left, ← List.cons_append,
        ← List.length_cons, List.take_left]
      exact hnext
  | @bad b rest hbad ih =>
    rw [jsonEscape_bad hbad, List.length_append] at h
    rw [jsonEscape_bad hbad, ← List.append_assoc]
    have hpos := replacement_escaped.pos
    have hroom : ¬ capacity ≤ out.length := by omega
    have hnone : escapeByte b = none := by
      apply escapeByte_high
      rcases low_or_high b with hlow | hhigh
      · have hone := utf8SeqLen_char (.one hlow) rest
        rw [List.singleton_append, hbad] at hone
        cases hone
      · exact hhigh
    rw [escapeLoop, if_neg hroom, hnone, hbad]
    dsimp only
    rw [if_pos (by omega)]
    exact ih (by rw [List.length_append]; omega)

end Room

section Plain

/-- Texts of bytes that are escaped as they are. -/
def PlainText (text : Bytes) : Prop := ∀ b ∈ text, b ≤ 0x7f ∧ escapeByte b = none

/-- The characters that are written as they are. -/
def PlainChar (c : Char) : Bool := 32 ≤ c.toNat ∧ c.toNat ≤ 126 ∧ c ≠ '"' ∧ c ≠ '\\'

variable {lead text p : Bytes} {room : ℕ}

theorem plain_byte : ∀ b : UInt8, 32 ≤ b.toNat → b.toNat ≤ 126 → b.toNat ≠ 34 → b.toNat ≠ 92 →
    b ≤ 0x7f ∧ escapeByte b = none := forall_byte (by decide)

theorem ascii_eq {s : String} {l : List Char} (h : s = String.ofList l) :
    ascii s = l.map fun c => UInt8.ofNat c.toNat := by
  rw [ascii, h, String.toList_ofList]

theorem ascii_length {s : String} {l : List Char} (h : s = String.ofList l) : (ascii s).length = l.length := by
  rw [ascii_eq h, List.length_map]

/-- A text of plain characters. -/
theorem plain_ascii {s : String} {l : List Char} (h : s = String.ofList l) (hl : l.all PlainChar = true) :
    PlainText (ascii s) := by
  rw [ascii_eq h]
  intro b hb
  obtain ⟨c, hc, rfl⟩ := List.mem_map.mp hb
  have hplain := List.all_eq_true.mp hl c hc
  simp only [PlainChar, decide_eq_true_eq] at hplain
  obtain ⟨hlow, hhigh, hquote, hslash⟩ := hplain
  have hnat : (UInt8.ofNat c.toNat).toNat = c.toNat := by
    rw [UInt8.toNat_ofNat', Nat.mod_eq_of_lt (by omega)]
  have hne : ∀ d : Char, c ≠ d → c.toNat ≠ d.toNat := fun d hcd hd => hcd (Char.toNat_inj.mp hd)
  apply plain_byte
  · rw [hnat]
    exact hlow
  · rw [hnat]
    exact hhigh
  · rw [hnat]
    exact hne '"' hquote
  · rw [hnat]
    exact hne '\\' hslash

theorem PlainText.append (hlead : PlainText lead) (htext : PlainText text) : PlainText (lead ++ text) := by
  intro b hb
  rcases List.mem_append.mp hb with h | h
  · exact hlead b h
  · exact htext b h

theorem PlainText.of_sub (h : PlainText text) (hsub : lead ⊆ text) : PlainText lead := fun b hb => h b (hsub hb)

theorem PlainText.escape_append (hlead : PlainText lead) (text : Bytes) :
    jsonEscape (lead ++ text) = lead ++ jsonEscape text := by
  induction lead with
  | nil => rfl
  | cons b lead ih =>
    obtain ⟨hlow, hnone⟩ := hlead b List.mem_cons_self
    have hself : escapeChar [b] = [b] := by
      unfold escapeChar
      dsimp only
      rw [hnone, Option.getD_none]
    have hchar := jsonEscape_char (.one hlow) (lead ++ text)
    rw [hself, ih fun a ha => hlead a (List.mem_cons_of_mem _ ha)] at hchar
    exact hchar

theorem PlainText.escape (h : PlainText text) : jsonEscape text = text := by
  have happend := h.escape_append []
  rwa [List.append_nil, jsonEscape_nil, List.append_nil] at happend

theorem PlainText.utf8 (h : PlainText text) : Utf8 text := utf8_ascii fun b hb => (h b hb).1

/-- The start of a text that begins plainly: what is behind the plain bytes takes six bytes each. -/
theorem PlainText.escape_length_le (hlead : PlainText lead) (hp : p <+: lead ++ text)
    (hroom : p.length ≤ room) (hlen : lead.length ≤ room) :
    (jsonEscape p).length ≤ lead.length + 6 * (room - lead.length) := by
  have hfront : PlainText (p.take lead.length) := by
    apply hlead.of_sub
    obtain ⟨rest, hrest⟩ := hp
    have htake : (p ++ rest).take lead.length = lead := by rw [hrest, List.take_left]
    rw [List.take_append] at htake
    have hsub := List.subset_append_left (p.take lead.length) (rest.take (lead.length - p.length))
    rwa [htake] at hsub
  have hescape := hfront.escape_append (p.drop lead.length)
  rw [List.take_append_drop] at hescape
  have hsix := jsonEscape_length_le (p.drop lead.length)
  rw [List.length_drop] at hsix
  rw [hescape, List.length_append, List.length_take]
  omega

end Plain

section Writers

/-- A writer that appends the text to every buffer that has room for it. -/
def Writes (capacity : ℕ) (write : Bytes → Bytes) (text : Bytes) : Prop :=
  ∀ out : Bytes, out.length + text.length ≤ capacity → write out = out ++ text

variable {capacity : ℕ} {write : Bytes → Bytes} {text : Bytes}

theorem Writes.start (capacity : ℕ) : Writes capacity (fun out => out) [] := by
  intro out _
  exact (List.append_nil out).symm

theorem Writes.append {next : Bytes → Bytes} {more : Bytes} (h : Writes capacity write text)
    (hnext : Writes capacity next more) : Writes capacity (fun out => next (write out)) (text ++ more) := by
  intro out hroom
  rw [List.length_append] at hroom
  dsimp only
  rw [h out (by omega), hnext (out ++ text) (by rw [List.length_append]; omega), List.append_assoc]

theorem Writes.bytes (h : Writes capacity write text) (bytes : Bytes) :
    Writes capacity (fun out => appendBytes capacity (write out) bytes) (text ++ bytes) :=
  @Writes.append _ _ _ _ _ h fun _ hroom => appendBytes_eq hroom

theorem Writes.escape (h : Writes capacity write text) (src : Bytes) :
    Writes capacity (fun out => jsonEscapeAppend capacity (write out) src) (text ++ jsonEscape src) :=
  @Writes.append _ _ _ _ _ h fun _ hroom => jsonEscapeAppend_eq hroom

theorem Writes.of_eq {other : Bytes} (h : Writes capacity write text) (heq : text = other) :
    Writes capacity write other := heq ▸ h

end Writers

end MiniAgentOS
