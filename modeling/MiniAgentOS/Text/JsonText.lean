import MiniAgentOS.Text.Escape

/-! The grammar of JSON texts, with what each string is decoded to, and the compact text of a value. -/
namespace MiniAgentOS

set_option maxRecDepth 4000

section Grammar

/-- JSON values. The numbers are the natural ones. -/
inductive Json where
  | null
  | bool (b : Bool)
  | num (n : ℕ)
  | str (text : Bytes)
  | arr (items : List Json)
  | obj (members : List (Bytes × Json))

/-- The escapes of one letter. -/
def jsonLetters : List (UInt8 × UInt8) :=
  [(quote, quote), (backslash, backslash), (47, 47), (98, 8), (102, 12), (110, lf), (114, cr), (116, tab)]

/-- The number that four hexadecimal digits make. -/
def hexWord4 (d0 d1 d2 d3 : UInt8) : ℕ :=
  hexDigit d0 * 4096 + hexDigit d1 * 256 + hexDigit d2 * 16 + hexDigit d3

/-- What may stand in a string, and the character that it stands for. -/
inductive JsonChar : Bytes → Bytes → Prop where
  | plain {c : Bytes} (h : Utf8Char c) (hplain : ∀ b ∈ c, b ≠ quote ∧ b ≠ backslash ∧ 0x20 ≤ b) :
      JsonChar c c
  | letter {e b : UInt8} (h : (e, b) ∈ jsonLetters) : JsonChar [backslash, e] [b]
  | unicode {d0 d1 d2 d3 : UInt8} (hhex : ∀ d ∈ [d0, d1, d2, d3], isHex d)
      (hscalar : hexWord4 d0 d1 d2 d3 < 0xd800 ∨ 0xe000 ≤ hexWord4 d0 d1 d2 d3) :
      JsonChar [backslash, 117, d0, d1, d2, d3] (utf8Bytes (hexWord4 d0 d1 d2 d3))
  | surrogates {d0 d1 d2 d3 e0 e1 e2 e3 : UInt8}
      (hhex : ∀ d ∈ [d0, d1, d2, d3, e0, e1, e2, e3], isHex d)
      (hhigh : 0xd800 ≤ hexWord4 d0 d1 d2 d3 ∧ hexWord4 d0 d1 d2 d3 < 0xdc00)
      (hlow : 0xdc00 ≤ hexWord4 e0 e1 e2 e3 ∧ hexWord4 e0 e1 e2 e3 < 0xe000) :
      JsonChar [backslash, 117, d0, d1, d2, d3, backslash, 117, e0, e1, e2, e3]
        (utf8Bytes (0x10000 + (hexWord4 d0 d1 d2 d3 - 0xd800) * 1024 + (hexWord4 e0 e1 e2 e3 - 0xdc00)))

inductive JsonChars : Bytes → Bytes → Prop where
  | nil : JsonChars [] []
  | cons {e d text decoded : Bytes} : JsonChar e d → JsonChars text decoded →
      JsonChars (e ++ text) (d ++ decoded)

/-- The digits of a number: no zero stands before others. -/
structure JsonDigits (n : ℕ) (digits : Bytes) : Prop where
  digit : ∀ b ∈ digits, isDigit b
  lead : digits = [48] ∨ ∃ d more, digits = d :: more ∧ d ≠ 48
  value : digits.foldl (fun v b => v * 10 + (b.toNat - 48)) 0 = n

mutual

/-- A value, and a text for it. Blanks may stand around each value, and around each key. -/
inductive JsonText : Json → Bytes → Prop where
  | null : JsonText .null (ascii "null")
  | true : JsonText (.bool true) (ascii "true")
  | false : JsonText (.bool false) (ascii "false")
  | num {n : ℕ} {digits : Bytes} : JsonDigits n digits → JsonText (.num n) digits
  | str {decoded text : Bytes} : JsonChars text decoded → JsonText (.str decoded) (quote :: text ++ [quote])
  | arr {items : List Json} {text : Bytes} : JsonItems items text → JsonText (.arr items) (91 :: text ++ [93])
  | obj {members : List (Bytes × Json)} {text : Bytes} : JsonMembers members text →
      JsonText (.obj members) (openBrace :: text ++ [closeBrace])
  | before {v : Json} {b : UInt8} {text : Bytes} : isSpace b → JsonText v text → JsonText v (b :: text)
  | after {v : Json} {b : UInt8} {text : Bytes} : isSpace b → JsonText v text → JsonText v (text ++ [b])

inductive JsonItems : List Json → Bytes → Prop where
  | none {blanks : Bytes} : (∀ b ∈ blanks, isSpace b) → JsonItems [] blanks
  | one {v : Json} {text : Bytes} : JsonText v text → JsonItems [v] text
  | more {v w : Json} {items : List Json} {text rest : Bytes} : JsonText v text →
      JsonItems (w :: items) rest → JsonItems (v :: w :: items) (text ++ comma :: rest)

inductive JsonMembers : List (Bytes × Json) → Bytes → Prop where
  | none {blanks : Bytes} : (∀ b ∈ blanks, isSpace b) → JsonMembers [] blanks
  | one {key : Bytes} {v : Json} {name text : Bytes} : JsonText (.str key) name → JsonText v text →
      JsonMembers [(key, v)] (name ++ colon :: text)
  | more {key : Bytes} {v : Json} {m : Bytes × Json} {members : List (Bytes × Json)}
      {name text rest : Bytes} : JsonText (.str key) name → JsonText v text →
      JsonMembers (m :: members) rest →
      JsonMembers ((key, v) :: m :: members) (name ++ colon :: (text ++ comma :: rest))

end

end Grammar

section Numbers

/-- The digits of a number, the last one first. -/
def decDigits : ℕ → ℕ → Bytes
  | 0, _ => []
  | fuel + 1, value => if value = 0 then [] else UInt8.ofNat (48 + value % 10) :: decDigits fuel (value / 10)

/-- `u64_to_dec_local` in a buffer with room. -/
def u64ToDec (value : ℕ) : Bytes := if value = 0 then [48] else (decDigits 20 value).reverse

theorem digit_value : ∀ d < 10, isDigit (UInt8.ofNat (48 + d)) = true ∧ (UInt8.ofNat (48 + d)).toNat - 48 = d ∧
    (UInt8.ofNat (48 + d) = 48 → d = 0) := by decide

theorem decDigits_digit (fuel value : ℕ) : ∀ b ∈ decDigits fuel value, isDigit b := by
  induction fuel generalizing value with
  | zero => simp [decDigits]
  | succ fuel ih =>
    rw [decDigits]
    split_ifs with hzero
    · simp
    · intro b hb
      rcases List.mem_cons.mp hb with rfl | hrest
      · exact (digit_value _ (Nat.mod_lt _ (by decide))).1
      · exact ih _ b hrest

theorem decDigits_value {fuel value : ℕ} (h : value < 10 ^ fuel) :
    (decDigits fuel value).foldr (fun b v => v * 10 + (b.toNat - 48)) 0 = value := by
  induction fuel generalizing value with
  | zero =>
    have hzero : value = 0 := by omega
    rw [hzero]
    rfl
  | succ fuel ih =>
    rw [decDigits]
    split_ifs with hzero
    · exact hzero.symm
    · have hdigit := (digit_value _ (Nat.mod_lt value (show 0 < 10 by decide))).2.1
      rw [List.foldr_cons, ih (by omega), hdigit]
      omega

theorem decDigits_last {fuel value : ℕ} (h : value < 10 ^ fuel) (hpos : value ≠ 0) :
    ∃ front d, decDigits fuel value = front ++ [d] ∧ d ≠ 48 := by
  induction fuel generalizing value with
  | zero => omega
  | succ fuel ih =>
    rw [decDigits, if_neg hpos]
    by_cases hlast : value / 10 = 0
    · refine ⟨[], UInt8.ofNat (48 + value % 10), ?_, fun hd => ?_⟩
      · rw [hlast]
        cases fuel <;> rfl
      · have hmod := (digit_value _ (Nat.mod_lt value (show 0 < 10 by decide))).2.2 hd
        omega
    · obtain ⟨front, d, heq, hd⟩ := @ih (value / 10) (by omega) hlast
      exact ⟨_ :: front, d, by rw [heq, List.cons_append], hd⟩

theorem u64ToDec_digits {value : ℕ} (h : value < 10 ^ 20) : JsonDigits value (u64ToDec value) := by
  unfold u64ToDec
  split_ifs with hzero
  · refine ⟨fun b hb => ?_, .inl rfl, ?_⟩
    · rw [List.mem_singleton.mp hb]
      rfl
    · rw [hzero]
      rfl
  · refine ⟨fun b hb => decDigits_digit 20 value b (List.mem_reverse.mp hb), .inr ?_, ?_⟩
    · obtain ⟨front, d, heq, hd⟩ := decDigits_last h hzero
      exact ⟨d, front.reverse, by rw [heq, List.reverse_append]; rfl, hd⟩
    · rw [List.foldl_reverse]
      exact decDigits_value h

theorem decDigits_length_le (fuel : ℕ) {k value : ℕ} (h : value < 10 ^ k) : (decDigits fuel value).length ≤ k := by
  induction k generalizing fuel value with
  | zero =>
    have hzero : value = 0 := by omega
    rw [hzero]
    cases fuel <;> exact le_rfl
  | succ k ih =>
    cases fuel with
    | zero => exact Nat.zero_le _
    | succ fuel =>
      rw [decDigits]
      split_ifs with hzero
      · exact Nat.zero_le _
      · exact Nat.succ_le_succ (ih fuel (by omega))

theorem u64ToDec_length_le {k value : ℕ} (hk : 0 < k) (h : value < 10 ^ k) : (u64ToDec value).length ≤ k := by
  unfold u64ToDec
  split_ifs with hzero
  · exact hk
  · rw [List.length_reverse]
    exact decDigits_length_le 20 h

end Numbers

section Compact

mutual

/-- The text of a value without blanks, with the strings as `json_escape_append` writes them. -/
def Json.compact : Json → Bytes
  | .null => ascii "null"
  | .bool true => ascii "true"
  | .bool false => ascii "false"
  | .num n => u64ToDec n
  | .str text => quote :: jsonEscape text ++ [quote]
  | .arr items => 91 :: compactItems items ++ [93]
  | .obj members => openBrace :: compactMembers members ++ [closeBrace]

def compactItems : List Json → Bytes
  | [] => []
  | [v] => v.compact
  | v :: w :: items => v.compact ++ comma :: compactItems (w :: items)

def compactMember : Bytes × Json → Bytes
  | (key, v) => quote :: jsonEscape key ++ [quote] ++ colon :: v.compact

def compactMembers : List (Bytes × Json) → Bytes
  | [] => []
  | [m] => compactMember m
  | m :: n :: members => compactMember m ++ comma :: compactMembers (n :: members)

end

mutual

/-- The strings are texts, and the numbers are those of machines. -/
def Json.Valid : Json → Prop
  | .num n => n < 10 ^ 20
  | .str text => Utf8 text
  | .arr items => ItemsValid items
  | .obj members => MembersValid members
  | _ => True

def ItemsValid : List Json → Prop
  | [] => True
  | v :: items => v.Valid ∧ ItemsValid items

def MemberValid : Bytes × Json → Prop
  | (key, v) => Utf8 key ∧ v.Valid

def MembersValid : List (Bytes × Json) → Prop
  | [] => True
  | m :: members => MemberValid m ∧ MembersValid members

end

variable {text decoded src : Bytes}

theorem hexWord4_control : ∀ b : UInt8, hexWord4 48 48 (hexChar ((b >>> 4) &&& 0x0f)) (hexChar (b &&& 0x0f)) = b.toNat ∧
    isHex (hexChar ((b >>> 4) &&& 0x0f)) = true ∧ isHex (hexChar (b &&& 0x0f)) = true :=
  forall_byte (by decide)

theorem EscapedAs.jsonChar {e d : Bytes} (h : EscapedAs e d) : JsonChar e d := by
  cases h with
  | plain h hplain => exact .plain h hplain
  | @letter e b h =>
    apply JsonChar.letter
    simp only [jsonLetters, List.mem_cons, List.not_mem_nil, or_false] at h ⊢
    tauto
  | @control b h =>
    obtain ⟨hword, hhigh, hlow⟩ := hexWord4_control b
    have hascii : ∀ b : UInt8, b ≤ 0x1f ∨ b = 0x7f → b ≤ 0x7f := forall_byte (by decide)
    have hbyte := utf8Bytes_ascii b (hascii b h)
    rw [← hbyte, ← hword]
    apply JsonChar.unicode
    · simp only [List.mem_cons, List.not_mem_nil, or_false, forall_eq_or_imp, forall_eq]
      exact ⟨by decide, by decide, hhigh, hlow⟩
    · have hlt := b.toNat_lt
      rw [hword]
      omega

theorem EscapedText.jsonChars (h : EscapedText text decoded) : JsonChars text decoded := by
  induction h with
  | nil => exact .nil
  | cons hunit _ ih => exact .cons hunit.jsonChar ih

theorem jsonEscape_utf8 (h : Utf8 src) : JsonText (.str src) (quote :: jsonEscape src ++ [quote]) := by
  have hchars := (jsonEscape_escaped src).jsonChars
  rw [utf8Repair_of_utf8 h] at hchars
  exact .str hchars

/-- A text that is repaired first is written in the same way. -/
theorem jsonEscape_repair (src : Bytes) : jsonEscape (utf8Repair src) = jsonEscape src := by
  induction src using each_char with
  | nil => rfl
  | char hchar ih => rw [utf8Repair_char hchar, jsonEscape_char hchar, jsonEscape_char hchar, ih]
  | bad hbad ih =>
    have hself : escapeChar replacement = replacement := by decide
    rw [utf8Repair_bad hbad, jsonEscape_bad hbad, jsonEscape_char replacement_char, hself, ih]

mutual

/-- The compact text of a value is a text for it. -/
theorem Json.compact_text : ∀ v : Json, v.Valid → JsonText v v.compact
  | .null, _ => .null
  | .bool true, _ => .true
  | .bool false, _ => .false
  | .num _, h => .num (u64ToDec_digits h)
  | .str _, h => jsonEscape_utf8 h
  | .arr items, h => .arr (compactItems_text items h)
  | .obj members, h => .obj (compactMembers_text members h)

theorem compactItems_text : ∀ items : List Json, ItemsValid items → JsonItems items (compactItems items)
  | [], _ => .none (by simp [compactItems])
  | [v], h => .one (v.compact_text h.1)
  | v :: w :: items, h => .more (v.compact_text h.1) (compactItems_text (w :: items) h.2)

theorem compactMember_text : ∀ m : Bytes × Json, MemberValid m → ∃ name text, compactMember m =
    name ++ colon :: text ∧ JsonText (.str m.1) name ∧ JsonText m.2 text
  | (_, v), h => ⟨_, _, rfl, jsonEscape_utf8 h.1, v.compact_text h.2⟩

theorem compactMembers_text : ∀ members : List (Bytes × Json), MembersValid members →
    JsonMembers members (compactMembers members)
  | [], _ => .none (by simp [compactMembers])
  | [m], h => by
    obtain ⟨name, text, heq, hname, htext⟩ := compactMember_text m h.1
    rw [compactMembers, heq]
    exact .one hname htext
  | m :: n :: members, h => by
    obtain ⟨name, text, heq, hname, htext⟩ := compactMember_text m h.1
    have hrest := compactMembers_text (n :: members) h.2
    rw [compactMembers, heq, List.append_assoc]
    exact .more hname htext hrest

end

end Compact

end MiniAgentOS
