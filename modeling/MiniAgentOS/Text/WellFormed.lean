import MiniAgentOS.Lib.Checked
import MiniAgentOS.Text.Cut

/-! Well-formed UTF-8 is what encodes scalar values, and the loop of `utf8_safe_prefix_len` finds the longest prefix of
that kind. -/
namespace MiniAgentOS
open Checked

section Scalars

variable {text char : Bytes} {a b c d : UInt8}

/-- A text that encodes scalar values: no overlong form, no surrogate, nothing above U+10FFFF. -/
def WellFormed (text : Bytes) : Prop := ∃ chars : List Char, text = chars.flatMap String.utf8EncodeChar

/-- The bytes of a scalar value. -/
def Encodes (char : Bytes) : Prop := ∃ value : Char, char = String.utf8EncodeChar value

theorem ofNat_eq_byte {n : ℕ} (h : n = b.toNat) : UInt8.ofNat n = b := by
  rw [h, UInt8.ofNat_toNat]

/-- The scalar value with a code point. -/
theorem encodes_codepoint (cp : ℕ) (hcp : cp.isValidChar)
    (h : ∀ value : Char, value.val.toNat = cp → String.utf8EncodeChar value = char) : Encodes char :=
  ⟨Char.ofNatAux cp hcp, (h _ rfl).symm⟩

theorem encodes_one (ha : a.toNat ≤ 0x7f) : Encodes [a] := by
  apply encodes_codepoint a.toNat (.inl (by omega))
  intro value hvalue
  unfold String.utf8EncodeChar
  dsimp only
  rw [hvalue, if_pos ha, UInt8.ofNat_toNat]

theorem encodes_two (ha : 0xc2 ≤ a.toNat) (ha' : a.toNat ≤ 0xdf) (hb : isUtf8Continuation b) : Encodes [a, b] := by
  rw [isUtf8Continuation_iff] at hb
  apply encodes_codepoint ((a.toNat - 0xc0) * 64 + (b.toNat - 0x80)) (.inl (by omega))
  intro value hvalue
  have hfirst : value.val.toNat / 64 % 0x20 + 0xc0 = a.toNat := by omega
  have hsecond : value.val.toNat % 0x40 + 0x80 = b.toNat := by omega
  unfold String.utf8EncodeChar
  dsimp only
  rw [if_neg (by omega), if_pos (by omega), ofNat_eq_byte hfirst, ofNat_eq_byte hsecond]

theorem encodes_three (ha : 0xe0 ≤ a.toNat) (ha' : a.toNat ≤ 0xef) (hb : isUtf8Continuation b)
    (hc : isUtf8Continuation c) (hlong : a.toNat = 0xe0 → 0xa0 ≤ b.toNat) (hvalue : a.toNat = 0xed → b.toNat ≤ 0x9f) :
    Encodes [a, b, c] := by
  rw [isUtf8Continuation_iff] at hb hc
  have hvalid : ((a.toNat - 0xe0) * 4096 + (b.toNat - 0x80) * 64 + (c.toNat - 0x80)).isValidChar := by
    by_cases hlow : a.toNat ≤ 0xed
    · exact .inl (by omega)
    · exact .inr ⟨by omega, by omega⟩
  apply encodes_codepoint _ hvalid
  intro value heq
  have hfirst : value.val.toNat / 4096 % 0x10 + 0xe0 = a.toNat := by omega
  have hsecond : value.val.toNat / 64 % 0x40 + 0x80 = b.toNat := by omega
  have hthird : value.val.toNat % 0x40 + 0x80 = c.toNat := by omega
  unfold String.utf8EncodeChar
  dsimp only
  rw [if_neg (by omega), if_neg (by omega), if_pos (by omega), ofNat_eq_byte hfirst, ofNat_eq_byte hsecond,
    ofNat_eq_byte hthird]

theorem encodes_four (ha : 0xf0 ≤ a.toNat) (ha' : a.toNat ≤ 0xf4) (hb : isUtf8Continuation b)
    (hc : isUtf8Continuation c) (hd : isUtf8Continuation d) (hlong : a.toNat = 0xf0 → 0x90 ≤ b.toNat)
    (hlast : a.toNat = 0xf4 → b.toNat ≤ 0x8f) : Encodes [a, b, c, d] := by
  rw [isUtf8Continuation_iff] at hb hc hd
  apply encodes_codepoint ((a.toNat - 0xf0) * 262144 + (b.toNat - 0x80) * 4096 + (c.toNat - 0x80) * 64 +
    (d.toNat - 0x80)) (.inr ⟨by omega, by omega⟩)
  intro value heq
  have hfirst : value.val.toNat / 262144 % 0x08 + 0xf0 = a.toNat := by omega
  have hsecond : value.val.toNat / 4096 % 0x40 + 0x80 = b.toNat := by omega
  have hthird : value.val.toNat / 64 % 0x40 + 0x80 = c.toNat := by omega
  have hfourth : value.val.toNat % 0x40 + 0x80 = d.toNat := by omega
  unfold String.utf8EncodeChar
  dsimp only
  rw [if_neg (by omega), if_neg (by omega), if_neg (by omega), ofNat_eq_byte hfirst, ofNat_eq_byte hsecond,
    ofNat_eq_byte hthird, ofNat_eq_byte hfourth]

/-- A byte between two others that are continuation bytes is one. -/
theorem continuation_between (hlow : 0x80 ≤ b.toNat) (hhigh : b.toNat ≤ 0xbf) : isUtf8Continuation b :=
  (isUtf8Continuation_iff b).mpr ⟨hlow, hhigh⟩

/-- A character of the grammar encodes a scalar value. -/
theorem Utf8Char.encodes (h : Utf8Char char) : Encodes char := by
  cases h with
  | one ha => exact encodes_one ha
  | two ha ha' hb => exact encodes_two ha ha' hb
  | e0 hb hb' hc =>
    have hlow : 0xa0 ≤ UInt8.toNat _ := hb
    have hcont := continuation_between (le_trans (by decide) hlow) hb'
    exact encodes_three (by decide) (by decide) hcont hc (fun _ => hlow) (fun h => by cases h)
  | @three a b c ha hb hc =>
    have hrange : (0xe1 ≤ a.toNat ∧ a.toNat ≤ 0xec) ∨ (0xee ≤ a.toNat ∧ a.toNat ≤ 0xef) := ha
    exact encodes_three (by omega) (by omega) hb hc (by omega) (by omega)
  | ed hb hb' hc =>
    have hhigh : UInt8.toNat _ ≤ 0x9f := hb'
    have hcont := continuation_between hb (le_trans hhigh (by decide))
    exact encodes_three (by decide) (by decide) hcont hc (fun h => by cases h) (fun _ => hhigh)
  | f0 hb hb' hc hd =>
    have hlow : 0x90 ≤ UInt8.toNat _ := hb
    have hcont := continuation_between (le_trans (by decide) hlow) hb'
    exact encodes_four (by decide) (by decide) hcont hc hd (fun _ => hlow) (fun h => by cases h)
  | @four a b c d ha ha' hb hc hd =>
    have hlow : 0xf1 ≤ a.toNat := ha
    have hhigh : a.toNat ≤ 0xf3 := ha'
    exact encodes_four (by omega) (by omega) hb hc hd (by omega) (by omega)
  | f4 hb hb' hc hd =>
    have hhigh : UInt8.toNat _ ≤ 0x8f := hb'
    have hcont := continuation_between hb (le_trans hhigh (by decide))
    exact encodes_four (by decide) (by decide) hcont hc hd (fun h => by cases h) (fun _ => hhigh)

theorem toNat_ofNat_lt {n : ℕ} (h : n < 256) : (UInt8.ofNat n).toNat = n := by
  rw [UInt8.toNat_ofNat', Nat.mod_eq_of_lt h]

theorem le_ofNat {n : ℕ} (hn : n < 256) (h : b.toNat ≤ n) : b ≤ UInt8.ofNat n := by
  rw [UInt8.le_iff_toNat_le, toNat_ofNat_lt hn]
  exact h

theorem ofNat_le {n : ℕ} (hn : n < 256) (h : n ≤ b.toNat) : UInt8.ofNat n ≤ b := by
  rw [UInt8.le_iff_toNat_le, toNat_ofNat_lt hn]
  exact h

/-- The bytes of a scalar value are a character of the grammar. -/
theorem utf8EncodeChar_char (value : Char) : Utf8Char (String.utf8EncodeChar value) := by
  have hvalid : value.val.toNat < 0xd800 ∨ (0xdfff < value.val.toNat ∧ value.val.toNat < 0x110000) := value.valid
  unfold String.utf8EncodeChar
  dsimp only
  generalize value.val.toNat = v at hvalid ⊢
  have hcont : ∀ n : ℕ, isUtf8Continuation (UInt8.ofNat (n % 0x40 + 0x80)) := by
    intro n
    rw [isUtf8Continuation_iff, toNat_ofNat_lt (by omega)]
    omega
  split_ifs with hone htwo hthree
  · exact .one (ofNat_le (by omega) hone)
  · have hlow : 0xc2 ≤ v / 64 % 0x20 + 0xc0 := by omega
    have hhigh : v / 64 % 0x20 + 0xc0 ≤ 0xdf := by omega
    exact .two (le_ofNat (by omega) hlow) (ofNat_le (by omega) hhigh) (hcont _)
  · by_cases hfirst : v / 4096 % 0x10 + 0xe0 = 0xe0
    · have hlow : 0xa0 ≤ v / 64 % 0x40 + 0x80 := by omega
      have hhigh : v / 64 % 0x40 + 0x80 ≤ 0xbf := by omega
      rw [hfirst]
      exact .e0 (le_ofNat (by omega) hlow) (ofNat_le (by omega) hhigh) (hcont _)
    by_cases hsurrogate : v / 4096 % 0x10 + 0xe0 = 0xed
    · have hlow : 0x80 ≤ v / 64 % 0x40 + 0x80 := by omega
      have hhigh : v / 64 % 0x40 + 0x80 ≤ 0x9f := by omega
      rw [hsurrogate]
      exact .ed (le_ofNat (by omega) hlow) (ofNat_le (by omega) hhigh) (hcont _)
    · refine .three ?_ (hcont _) (hcont _)
      have hlow : 0xe1 ≤ v / 4096 % 0x10 + 0xe0 := by omega
      have hhigh : v / 4096 % 0x10 + 0xe0 ≤ 0xef := by omega
      by_cases hbelow : v / 4096 % 0x10 + 0xe0 ≤ 0xec
      · exact .inl ⟨le_ofNat (by omega) hlow, ofNat_le (by omega) hbelow⟩
      · have habove : 0xee ≤ v / 4096 % 0x10 + 0xe0 := by omega
        exact .inr ⟨le_ofNat (by omega) habove, ofNat_le (by omega) hhigh⟩
  · by_cases hfirst : v / 262144 % 0x08 + 0xf0 = 0xf0
    · have hlow : 0x90 ≤ v / 4096 % 0x40 + 0x80 := by omega
      have hhigh : v / 4096 % 0x40 + 0x80 ≤ 0xbf := by omega
      rw [hfirst]
      exact .f0 (le_ofNat (by omega) hlow) (ofNat_le (by omega) hhigh) (hcont _) (hcont _)
    by_cases hlast : v / 262144 % 0x08 + 0xf0 = 0xf4
    · have hlow : 0x80 ≤ v / 4096 % 0x40 + 0x80 := by omega
      have hhigh : v / 4096 % 0x40 + 0x80 ≤ 0x8f := by omega
      rw [hlast]
      exact .f4 (le_ofNat (by omega) hlow) (ofNat_le (by omega) hhigh) (hcont _) (hcont _)
    · have hlow : 0xf1 ≤ v / 262144 % 0x08 + 0xf0 := by omega
      have hhigh : v / 262144 % 0x08 + 0xf0 ≤ 0xf3 := by omega
      exact .four (le_ofNat (by omega) hlow) (ofNat_le (by omega) hhigh) (hcont _) (hcont _) (hcont _)

/-- The grammar of RFC 3629 gives what encodes scalar values. -/
theorem utf8_iff_wellFormed : Utf8 text ↔ WellFormed text := by
  constructor
  · intro h
    induction h with
    | nil => exact ⟨[], rfl⟩
    | cons hchar _ ih =>
      obtain ⟨value, rfl⟩ := hchar.encodes
      obtain ⟨chars, rfl⟩ := ih
      exact ⟨value :: chars, rfl⟩
  · rintro ⟨chars, rfl⟩
    induction chars with
    | nil => exact .nil
    | cons value chars ih => exact .cons (utf8EncodeChar_char value) ih

end Scalars

section Loop

variable {src : Bytes} {idx limit k n : ℕ}

/-- `utf8_safe_prefix_len`, with the index and the last good end in each round. -/
def utf8SafePrefixLoop (src : Bytes) (maxLen : ℕ) : Checked ℕ :=
  let limit := if maxLen > src.length then src.length else maxLen
  loop (fun (idx, lastGood) =>
    if idx < limit then
      let seqLen := utf8SeqLen (src.drop idx)
      if seqLen = 0 ∨ idx + seqLen > limit then pure (.done lastGood)
      else pure (.next (idx + seqLen, idx + seqLen))
    else pure (.done lastGood)) (limit + 1) (0, 0)

/-- A longer well-formed prefix goes on with a character. -/
theorem Utf8.seqLen_of_longer (h : Utf8 (src.take k)) (hidx : Utf8 (src.take idx)) (hlt : idx < k)
    (hk : k ≤ src.length) : utf8SeqLen (src.drop idx) ≠ 0 ∧ idx + utf8SeqLen (src.drop idx) ≤ k := by
  have hsplit : src.take k = src.take idx ++ (src.drop idx).take (k - idx) := by
    rw [← List.take_add, Nat.add_sub_cancel' hlt.le]
  rw [hsplit] at h
  have hmore := h.of_append hidx
  generalize hpiece : (src.drop idx).take (k - idx) = piece at hmore
  have hlength : piece.length = k - idx := by
    rw [← hpiece, List.length_take, List.length_drop]
    omega
  cases hmore with
  | nil =>
    rw [List.length_nil] at hlength
    omega
  | @cons char rest hchar _ =>
    have hdrop : src.drop idx = char ++ (rest ++ (src.drop idx).drop (k - idx)) := by
      rw [← List.append_assoc, ← hpiece, List.take_append_drop]
    have hseq := utf8SeqLen_char hchar (rest ++ (src.drop idx).drop (k - idx))
    rw [← hdrop] at hseq
    have hpos := List.length_pos_iff.mpr hchar.ne_nil
    rw [List.length_append] at hlength
    omega

/-- What is found at an index is a character that goes on with a well-formed prefix. -/
theorem Utf8.take_seqLen (h : Utf8 (src.take idx)) (hseq : utf8SeqLen (src.drop idx) ≠ 0) :
    Utf8 (src.take (idx + utf8SeqLen (src.drop idx))) := by
  obtain ⟨char, rest, hdrop, hchar⟩ := utf8Char_of_seqLen hseq
  rw [List.take_add, hdrop, utf8SeqLen_char hchar, List.take_left]
  have hlast : Utf8 (char ++ []) := .cons hchar .nil
  rw [List.append_nil] at hlast
  exact h.append hlast

/-- The lengths of the well-formed prefixes within a limit. -/
def safeLengths (src : Bytes) (maxLen : ℕ) : Set ℕ := {k | k ≤ min maxLen src.length ∧ WellFormed (src.take k)}

theorem mem_safeLengths {maxLen : ℕ} : k ∈ safeLengths src maxLen ↔ k ≤ min maxLen src.length ∧ Utf8 (src.take k) := by
  rw [utf8_iff_wellFormed]
  rfl

theorem utf8SafePrefixLoop_greatest (src : Bytes) (maxLen : ℕ) :
    Returns (utf8SafePrefixLoop src maxLen) (IsGreatest (safeLengths src maxLen)) := by
  have hlimit : (if maxLen > src.length then src.length else maxLen) = min maxLen src.length := by
    split_ifs <;> omega
  unfold utf8SafePrefixLoop
  rw [hlimit]
  dsimp only
  have hdone : ∀ idx, idx ∈ safeLengths src maxLen →
      (∀ k ≤ min maxLen src.length, Utf8 (src.take k) → k ≤ idx) →
      Returns (pure (.done idx) : Checked (Round (ℕ × ℕ) ℕ)) (RoundPost (fun s => s.2 = s.1 ∧ s.1 ∈ safeLengths src maxLen)
        (fun s => min maxLen src.length - s.1) (IsGreatest (safeLengths src maxLen)) (idx, idx)) := by
    intro idx hidx hmax
    apply returns_pure.mpr
    refine ⟨hidx, fun k hk => ?_⟩
    rw [mem_safeLengths] at hk
    exact hmax k hk.1 hk.2
  refine returns_loop (fun s => s.2 = s.1 ∧ s.1 ∈ safeLengths src maxLen) (fun s => min maxLen src.length - s.1) ?_
    ⟨rfl, mem_safeLengths.mpr ⟨Nat.zero_le _, .nil⟩⟩ (Nat.lt_succ_self _)
  intro ⟨idx, lastGood⟩ ⟨hsame, hidx⟩
  dsimp only at hsame hidx ⊢
  subst hsame
  have hprefix := mem_safeLengths.mp hidx
  apply Returns.ite
  · intro hlt
    apply Returns.ite
    · intro hstop
      apply hdone _ hidx
      intro k hk hgood
      by_contra hlong
      obtain ⟨hne, hle⟩ := hgood.seqLen_of_longer hprefix.2 (by omega) (by omega)
      omega
    · intro hgo
      push Not at hgo
      have hnext := hprefix.2.take_seqLen hgo.1
      apply returns_pure.mpr
      refine ⟨⟨rfl, mem_safeLengths.mpr ⟨hgo.2, hnext⟩⟩, ?_⟩
      dsimp only
      omega
  · intro hend
    apply hdone _ hidx
    intro k hk _
    omega

/-- The scanner passes the longest well-formed prefix too. -/
theorem utf8SafePrefixLen_greatest (src : Bytes) (maxLen : ℕ) :
    IsGreatest (safeLengths src maxLen) (utf8SafePrefixLen src maxLen) := by
  obtain ⟨hle, hgood⟩ := utf8Scan_spec (min maxLen src.length) (min maxLen src.length) src
  refine ⟨mem_safeLengths.mpr ⟨hle, hgood⟩, fun k hk => ?_⟩
  obtain ⟨hk, hutf8⟩ := mem_safeLengths.mp hk
  have hlength : (src.take k).length = k := by
    rw [List.length_take]
    omega
  have hfront := utf8Scan_front hutf8 (src.drop k) (hlength.trans_le hk) (hlength.trans_le hk)
  rw [List.take_append_drop, hlength] at hfront
  exact hfront

/-- The loop ends, and with the length of the longest well-formed prefix within the limit. -/
theorem utf8_safe_prefix_exact (src : Bytes) (maxLen : ℕ) : Returns (utf8SafePrefixLoop src maxLen) fun k =>
    k = utf8SafePrefixLen src maxLen ∧ IsGreatest (safeLengths src maxLen) k :=
  (utf8SafePrefixLoop_greatest src maxLen).mono fun _ hk => ⟨hk.unique (utf8SafePrefixLen_greatest src maxLen), hk⟩

end Loop

end MiniAgentOS
