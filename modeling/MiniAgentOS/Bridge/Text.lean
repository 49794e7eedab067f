import Mathlib

/-! Strings of the host bridge, their lines, and what is stored of them in a file. -/
namespace MiniAgentOS.Bridge

/-- A Python string: code points, lone surrogates among them. -/
abbrev PyStr := List ℕ

def str (text : String) : PyStr := text.toList.map Char.toNat

section Encoding

def decode (chars : List Char) : PyStr := chars.map Char.toNat

/-- UTF-8 has no encoding of a surrogate. -/
def Encodable (s : PyStr) : Prop := ∀ c ∈ s, Nat.isValidChar c

instance (s : PyStr) : Decidable (Encodable s) :=
  have : DecidablePred Nat.isValidChar := fun _ => inferInstanceAs (Decidable (_ ∨ _))
  List.decidableBAll _ s

/-- The characters of `s.encode("utf-8")`. -/
def encode (s : PyStr) : Option (List Char) := if Encodable s then some (s.map Char.ofNat) else none

/-- The length of the encoding in bytes. -/
def utf8Length (chars : List Char) : ℕ := (chars.map Char.utf8Size).sum

theorem toNat_ofNat {c : ℕ} (h : Nat.isValidChar c) : (Char.ofNat c).toNat = c := by
  unfold Char.ofNat
  rw [dif_pos h]
  exact Char.toNat_ofNatAux h

theorem encodable_decode (chars : List Char) : Encodable (decode chars) := by
  intro c hc
  obtain ⟨char, -, rfl⟩ := List.mem_map.mp hc
  exact char.valid

@[simp] theorem encode_decode (chars : List Char) : encode (decode chars) = some chars := by
  unfold encode
  have hid : ∀ char ∈ chars, (Char.ofNat ∘ Char.toNat) char = char := fun char _ => Char.ofNat_toNat char
  rw [if_pos (encodable_decode chars), decode, List.map_map, List.map_congr_left hid, List.map_id']

theorem decode_of_encode {s : PyStr} {chars : List Char} (h : encode s = some chars) : decode chars = s := by
  unfold encode at h
  by_cases hs : Encodable s
  · rw [if_pos hs] at h
    have hid : ∀ c ∈ s, (Char.toNat ∘ Char.ofNat) c = c := fun c hc => toNat_ofNat (hs c hc)
    rw [← Option.some.inj h, decode, List.map_map, List.map_congr_left hid, List.map_id']
  · rw [if_neg hs] at h
    cases h

theorem encode_eq_some {s : PyStr} (h : Encodable s) : ∃ chars, encode s = some chars ∧ decode chars = s := by
  have hsome : encode s = some _ := if_pos h
  exact ⟨_, hsome, decode_of_encode hsome⟩

end Encoding

section Lines

def isLineBreak (c : ℕ) : Bool :=
  c ∈ [0x0a, 0x0b, 0x0c, 0x0d, 0x1c, 0x1d, 0x1e, 0x85, 0x2028, 0x2029]

/-- A line and what ends it. -/
structure Line where
  text : PyStr
  ending : PyStr
  deriving DecidableEq, Repr

/-- The lines of `splitlines(keepends=True)`. -/
def endedLines : PyStr → List Line
  | [] => []
  | 13 :: 10 :: rest => ⟨[], [13, 10]⟩ :: endedLines rest
  | c :: rest =>
    if isLineBreak c then ⟨[], [c]⟩ :: endedLines rest
    else
      match endedLines rest with
      | [] => [⟨[c], []⟩]
      | line :: lines => { line with text := c :: line.text } :: lines

def splitlines (s : PyStr) : List PyStr := (endedLines s).map Line.text

/-- How `read_text` reads line ends: each of CR LF, CR and LF as LF. -/
def universalNewlines : PyStr → PyStr
  | [] => []
  | 13 :: 10 :: rest => 10 :: universalNewlines rest
  | c :: rest => (if c = 13 then 10 else c) :: universalNewlines rest

end Lines

end MiniAgentOS.Bridge
