import MiniAgentOS.Text.JsonText

/-! The whole grammar of JSON texts: every kind of number, and strings with surrogates that have no partner. -/
namespace MiniAgentOS

section Grammar

/-- JSON values. A number is the text that it is written as. -/
inductive JsonValue where
  | null
  | bool (b : Bool)
  | number (text : Bytes)
  | str (text : Bytes)
  | arr (items : List JsonValue)
  | obj (members : List (Bytes × JsonValue))

def Digits (text : Bytes) : Prop := text ≠ [] ∧ ∀ b ∈ text, isDigit b

/-- A number: a sign, digits without a leading zero, a fraction and an exponent. -/
structure NumberText (text : Bytes) : Prop where
  parts : ∃ sign whole fraction exponent, text = sign ++ whole ++ fraction ++ exponent ∧
    (sign = [] ∨ sign = [45]) ∧ Digits whole ∧ (whole = [48] ∨ whole.head? ≠ some 48) ∧
    (fraction = [] ∨ ∃ digits, fraction = 46 :: digits ∧ Digits digits) ∧
    (exponent = [] ∨ ∃ letter mark digits, exponent = letter :: (mark ++ digits) ∧ (letter = 101 ∨ letter = 69) ∧
      (mark = [] ∨ mark = [43] ∨ mark = [45]) ∧ Digits digits)

/-- A surrogate that is not the first half of a pair. -/
structure LoneSurrogate (d0 d1 d2 d3 : UInt8) (rest : Bytes) : Prop where
  hex : ∀ d ∈ [d0, d1, d2, d3], isHex d
  surrogate : 0xd800 ≤ hexWord4 d0 d1 d2 d3 ∧ hexWord4 d0 d1 d2 d3 < 0xe000
  lone : ∀ e0 e1 e2 e3, [backslash, 117, e0, e1, e2, e3] <+: rest → (∀ e ∈ [e0, e1, e2, e3], isHex e) →
    0xdc00 ≤ hexWord4 e0 e1 e2 e3 → hexWord4 e0 e1 e2 e3 < 0xe000 → 0xdc00 ≤ hexWord4 d0 d1 d2 d3

/-- The inside of a string, and what it stands for. -/
inductive StringText : Bytes → Bytes → Prop where
  | nil : StringText [] []
  | char {e d text decoded : Bytes} : JsonChar e d → StringText text decoded → StringText (e ++ text) (d ++ decoded)
  | lone {d0 d1 d2 d3 : UInt8} {text decoded : Bytes} : LoneSurrogate d0 d1 d2 d3 text → StringText text decoded →
      StringText ([backslash, 117, d0, d1, d2, d3] ++ text) (utf8Bytes (hexWord4 d0 d1 d2 d3) ++ decoded)

mutual

/-- A value, and a text for it. Blanks may stand around each value, and around each key. -/
inductive ValueText : JsonValue → Bytes → Prop where
  | null : ValueText .null (ascii "null")
  | true : ValueText (.bool true) (ascii "true")
  | false : ValueText (.bool false) (ascii "false")
  | number {text : Bytes} : NumberText text → ValueText (.number text) text
  | str {decoded text : Bytes} : StringText text decoded → ValueText (.str decoded) (quote :: text ++ [quote])
  | arr {items : List JsonValue} {text : Bytes} : ItemTexts items text → ValueText (.arr items) (91 :: text ++ [93])
  | obj {members : List (Bytes × JsonValue)} {text : Bytes} : MemberTexts members text →
      ValueText (.obj members) (openBrace :: text ++ [closeBrace])
  | before {v : JsonValue} {b : UInt8} {text : Bytes} : isSpace b → ValueText v text → ValueText v (b :: text)
  | after {v : JsonValue} {b : UInt8} {text : Bytes} : isSpace b → ValueText v text → ValueText v (text ++ [b])

inductive ItemTexts : List JsonValue → Bytes → Prop where
  | none {blanks : Bytes} : (∀ b ∈ blanks, isSpace b) → ItemTexts [] blanks
  | one {v : JsonValue} {text : Bytes} : ValueText v text → ItemTexts [v] text
  | more {v w : JsonValue} {items : List JsonValue} {text rest : Bytes} : ValueText v text →
      ItemTexts (w :: items) rest → ItemTexts (v :: w :: items) (text ++ comma :: rest)

inductive MemberTexts : List (Bytes × JsonValue) → Bytes → Prop where
  | none {blanks : Bytes} : (∀ b ∈ blanks, isSpace b) → MemberTexts [] blanks
  | one {key : Bytes} {v : JsonValue} {name text : Bytes} : ValueText (.str key) name → ValueText v text →
      MemberTexts [(key, v)] (name ++ colon :: text)
  | more {key : Bytes} {v : JsonValue} {m : Bytes × JsonValue} {members : List (Bytes × JsonValue)}
      {name text rest : Bytes} : ValueText (.str key) name → ValueText v text →
      MemberTexts (m :: members) rest →
      MemberTexts ((key, v) :: m :: members) (name ++ colon :: (text ++ comma :: rest))

end

/-- A plain string is a text of itself. -/
theorem stringText_plain {text : Bytes} (h : ∀ b ∈ text, b ≤ 0x7f ∧ b ≠ quote ∧ b ≠ backslash ∧ 0x20 ≤ b) :
    StringText text text := by
  induction text with
  | nil => exact .nil
  | cons b text ih =>
    obtain ⟨hlow, hplain⟩ := h b List.mem_cons_self
    have hchar : JsonChar [b] [b] := by
      apply JsonChar.plain (.one hlow)
      intro c hc
      rw [List.mem_singleton.mp hc]
      exact hplain
    exact .char hchar (ih fun c hc => h c (List.mem_cons_of_mem b hc))

end Grammar

end MiniAgentOS
