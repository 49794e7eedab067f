import MiniAgentOS.Text.Ascii

/-! UTF-8: its characters, the scanner that finds how much of a text is well formed, and the cuts of a
text that do not split a character. -/
namespace MiniAgentOS

section Characters

/-- `is_utf8_continuation`. -/
def isUtf8Continuation (b : UInt8) : Bool := b &&& 0xc0 == 0x80

theorem isUtf8Continuation_iff (b : UInt8) :
    isUtf8Continuation b ↔ 0x80 ≤ b.toNat ∧ b.toNat ≤ 0xbf := by
  have hall : ∀ n : Fin 256, isUtf8Continuation (UInt8.ofNat n) ↔ 0x80 ≤ n.val ∧ n.val ≤ 0xbf := by
    decide +kernel
  have hb := hall ⟨b.toNat, b.toNat_lt⟩
  rwa [UInt8.ofNat_toNat] at hb

/-- The well-formed byte sequences of one character, by their first byte. -/
inductive Utf8Char : Bytes → Prop where
  | one {a : UInt8} : a ≤ 0x7f → Utf8Char [a]
  | two {a b : UInt8} : 0xc2 ≤ a → a ≤ 0xdf → isUtf8Continuation b → Utf8Char [a, b]
  | e0 {b c : UInt8} : 0xa0 ≤ b → b ≤ 0xbf → isUtf8Continuation c → Utf8Char [0xe0, b, c]
  | three {a b c : UInt8} : (0xe1 ≤ a ∧ a ≤ 0xec) ∨ (0xee ≤ a ∧ a ≤ 0xef) → isUtf8Continuation b →
      isUtf8Continuation c → Utf8Char [a, b, c]
  | ed {b c : UInt8} : 0x80 ≤ b → b ≤ 0x9f → isUtf8Continuation c → Utf8Char [0xed, b, c]
  | f0 {b c d : UInt8} : 0x90 ≤ b → b ≤ 0xbf → isUtf8Continuation c → isUtf8Continuation d →
      Utf8Char [0xf0, b, c, d]
  | four {a b c d : UInt8} : 0xf1 ≤ a → a ≤ 0xf3 → isUtf8Continuation b → isUtf8Continuation c →
      isUtf8Continuation d → Utf8Char [a, b, c, d]
  | f4 {b c d : UInt8} : 0x80 ≤ b → b ≤ 0x8f → isUtf8Continuation c → isUtf8Continuation d →
      Utf8Char [0xf4, b, c, d]

/-- Texts that are sequences of characters. -/
inductive Utf8 : Bytes → Prop where
  | nil : Utf8 []
  | cons {char rest : Bytes} : Utf8Char char → Utf8 rest → Utf8 (char ++ rest)

theorem Utf8.append {text rest : Bytes} (h : Utf8 text) (hrest : Utf8 rest) : Utf8 (text ++ rest) := by
  induction h with
  | nil => exact hrest
  | cons hchar _ ih =>
    rw [List.append_assoc]
    exact .cons hchar ih

theorem Utf8.flatten {parts : List Bytes} (h : ∀ part ∈ parts, Utf8 part) : Utf8 parts.flatten := by
  induction parts with
  | nil => exact .nil
  | cons part parts ih =>
    have hpart := h part List.mem_cons_self
    exact hpart.append (ih fun other hother => h other (List.mem_cons_of_mem _ hother))

end Characters

section Scanner

/-- `utf8_seq_len_at` on the bytes from the index on. -/
def utf8SeqLen : Bytes → ℕ
  | [] => 0
  | b0 :: rest =>
    if b0 ≤ 0x7f then 1
    else if 0xc2 ≤ b0 ∧ b0 ≤ 0xdf then
      match rest with
      | b1 :: _ => if isUtf8Continuation b1 then 2 else 0
      | _ => 0
    else if b0 = 0xe0 then
      match rest with
      | b1 :: b2 :: _ => if (0xa0 ≤ b1 ∧ b1 ≤ 0xbf) ∧ isUtf8Continuation b2 then 3 else 0
      | _ => 0
    else if (0xe1 ≤ b0 ∧ b0 ≤ 0xec) ∨ (0xee ≤ b0 ∧ b0 ≤ 0xef) then
      match rest with
      | b1 :: b2 :: _ => if isUtf8Continuation b1 ∧ isUtf8Continuation b2 then 3 else 0
      | _ => 0
    else if b0 = 0xed then
      match rest with
      | b1 :: b2 :: _ => if (0x80 ≤ b1 ∧ b1 ≤ 0x9f) ∧ isUtf8Continuation b2 then 3 else 0
      | _ => 0
    else if b0 = 0xf0 then
      match rest with
      | b1 :: b2 :: b3 :: _ =>
        if (0x90 ≤ b1 ∧ b1 ≤ 0xbf) ∧ isUtf8Continuation b2 ∧ isUtf8Continuation b3 then 4 else 0
      | _ => 0
    else if 0xf1 ≤ b0 ∧ b0 ≤ 0xf3 then
      match rest with
      | b1 :: b2 :: b3 :: _ =>
        if isUtf8Continuation b1 ∧ isUtf8Continuation b2 ∧ isUtf8Continuation b3 then 4 else 0
      | _ => 0
    else if b0 = 0xf4 then
      match rest with
      | b1 :: b2 :: b3 :: _ =>
        if (0x80 ≤ b1 ∧ b1 ≤ 0x8f) ∧ isUtf8Continuation b2 ∧ isUtf8Continuation b3 then 4 else 0
      | _ => 0
    else 0

/-- The loop of `utf8_safe_prefix_len` on the bytes from the index on. -/
def utf8Scan : ℕ → ℕ → Bytes → ℕ
  | 0, _, _ => 0
  | fuel + 1, limit, rest =>
    let n := utf8SeqLen rest
    if n = 0 ∨ limit < n then 0 else n + utf8Scan fuel (limit - n) (rest.drop n)

def utf8SafePrefixLen (src : Bytes) (maxLen : ℕ) : ℕ :=
  utf8Scan (min maxLen src.length) (min maxLen src.length) src

/-- What `copy_utf8_prefix` copies into a buffer with `room` bytes. -/
def copyUtf8Prefix (room : ℕ) (src : Bytes) : Bytes := src.take (utf8SafePrefixLen src room)

theorem not_le_of_above {a k l : UInt8} (h : l ≤ a) (hk : k < l) : ¬ a ≤ k := by
  intro hle
  have hlt := UInt8.lt_of_lt_of_le hk (UInt8.le_trans h hle)
  exact UInt8.lt_irrefl k hlt

theorem ne_of_above {a k l : UInt8} (h : l ≤ a) (hk : k < l) : ¬ a = k := by
  intro heq
  exact not_le_of_above h hk (heq ▸ UInt8.le_refl a)

/-- A character at the front is found. -/
theorem utf8SeqLen_char {char : Bytes} (h : Utf8Char char) (rest : Bytes) :
    utf8SeqLen (char ++ rest) = char.length := by
  cases h with
  | one ha => exact if_pos ha
  | two ha ha' hb =>
    have hone := not_le_of_above ha (k := 0x7f) (by decide)
    exact (if_neg hone).trans ((if_pos ⟨ha, ha'⟩).trans (if_pos hb))
  | e0 hb hb' hc => exact if_pos ⟨⟨hb, hb'⟩, hc⟩
  | @three a b c ha hb hc =>
    have hlow : 0xe1 ≤ a := ha.elim And.left fun h => UInt8.le_trans (by decide) h.1
    have hone := not_le_of_above hlow (k := 0x7f) (by decide)
    have htwo : ¬ (0xc2 ≤ a ∧ a ≤ 0xdf) := fun h => not_le_of_above hlow (by decide) h.2
    have he0 := ne_of_above hlow (k := 0xe0) (by decide)
    exact (if_neg hone).trans ((if_neg htwo).trans ((if_neg he0).trans ((if_pos ha).trans (if_pos ⟨hb, hc⟩))))
  | ed hb hb' hc => exact if_pos ⟨⟨hb, hb'⟩, hc⟩
  | f0 hb hb' hc hd => exact if_pos ⟨⟨hb, hb'⟩, hc, hd⟩
  | @four a b c d ha ha' hb hc hd =>
    have hone := not_le_of_above ha (k := 0x7f) (by decide)
    have htwo : ¬ (0xc2 ≤ a ∧ a ≤ 0xdf) := fun h => not_le_of_above ha (by decide) h.2
    have he0 := ne_of_above ha (k := 0xe0) (by decide)
    have hthree : ¬ ((0xe1 ≤ a ∧ a ≤ 0xec) ∨ (0xee ≤ a ∧ a ≤ 0xef)) := fun h => h.elim
      (fun h => not_le_of_above ha (by decide) h.2) (fun h => not_le_of_above ha (by decide) h.2)
    have hed := ne_of_above ha (k := 0xed) (by decide)
    have hf0 := ne_of_above ha (k := 0xf0) (by decide)
    exact (if_neg hone).trans ((if_neg htwo).trans ((if_neg he0).trans ((if_neg hthree).trans ((if_neg hed).trans
      ((if_neg hf0).trans ((if_pos ⟨ha, ha'⟩).trans (if_pos ⟨hb, hc, hd⟩)))))))
  | f4 hb hb' hc hd => exact if_pos ⟨⟨hb, hb'⟩, hc, hd⟩

/-- What is found is a character at the front. -/
theorem utf8Char_of_seqLen {src : Bytes} (h : utf8SeqLen src ≠ 0) :
    ∃ char rest, src = char ++ rest ∧ Utf8Char char := by
  unfold utf8SeqLen at h
  split at h
  · cases h rfl
  · split_ifs at h with h1 h2 h3 h4 h5 h6 h7 h8
    · exact ⟨_, _, rfl, .one h1⟩
    · split at h
      · have hc := (ite_ne_right_iff.mp h).1
        exact ⟨[_, _], _, rfl, .two h2.1 h2.2 hc⟩
      · cases h rfl
    · split at h
      · have hc := (ite_ne_right_iff.mp h).1
        exact ⟨[_, _, _], _, rfl, h3 ▸ .e0 hc.1.1 hc.1.2 hc.2⟩
      · cases h rfl
    · split at h
      · have hc := (ite_ne_right_iff.mp h).1
        exact ⟨[_, _, _], _, rfl, .three h4 hc.1 hc.2⟩
      · cases h rfl
    · split at h
      · have hc := (ite_ne_right_iff.mp h).1
        exact ⟨[_, _, _], _, rfl, h5 ▸ .ed hc.1.1 hc.1.2 hc.2⟩
      · cases h rfl
    · split at h
      · have hc := (ite_ne_right_iff.mp h).1
        exact ⟨[_, _, _, _], _, rfl, h6 ▸ .f0 hc.1.1 hc.1.2 hc.2.1 hc.2.2⟩
      · cases h rfl
    · split at h
      · have hc := (ite_ne_right_iff.mp h).1
        exact ⟨[_, _, _, _], _, rfl, .four h7.1 h7.2 hc.1 hc.2.1 hc.2.2⟩
      · cases h rfl
    · split at h
      · have hc := (ite_ne_right_iff.mp h).1
        exact ⟨[_, _, _, _], _, rfl, h8 ▸ .f4 hc.1.1 hc.1.2 hc.2.1 hc.2.2⟩
      · cases h rfl
    · cases h rfl

theorem Utf8Char.ne_nil {char : Bytes} (h : Utf8Char char) : char ≠ [] := by
  cases h <;> exact List.cons_ne_nil _ _

/-- Only a character of one byte ends with a low byte. -/
theorem Utf8Char.length_of_last {char : Bytes} {b : UInt8} (h : Utf8Char char) (hlast : char.getLast? = some b)
    (hlow : b ≤ 0x7f) : char.length = 1 := by
  have hcont : isUtf8Continuation b = false := by
    rw [Bool.eq_false_iff, Ne, isUtf8Continuation_iff]
    have hle : b.toNat ≤ 127 := hlow
    omega
  cases h with
  | one => rfl
  | two _ _ hb | e0 _ _ hb | three _ _ hb | ed _ _ hb | f0 _ _ _ hb | four _ _ _ _ hb | f4 _ _ _ hb =>
    rw [← Option.some.inj hlast] at hcont
    exact absurd hb (by simpa using hcont)

/-- What the scanner passes is well formed and within the limit. -/
theorem utf8Scan_spec (fuel limit : ℕ) (src : Bytes) :
    utf8Scan fuel limit src ≤ limit ∧ Utf8 (src.take (utf8Scan fuel limit src)) := by
  induction fuel generalizing limit src with
  | zero => exact ⟨Nat.zero_le _, by simpa [utf8Scan] using Utf8.nil⟩
  | succ fuel ih =>
    unfold utf8Scan
    dsimp only
    split_ifs with hstop
    · exact ⟨Nat.zero_le _, by simpa using Utf8.nil⟩
    · push Not at hstop
      obtain ⟨char, rest, rfl, hchar⟩ := utf8Char_of_seqLen hstop.1
      rw [utf8SeqLen_char hchar] at hstop ⊢
      rw [List.drop_left, List.take_append, List.take_of_length_le (by omega),
        Nat.add_sub_cancel_left]
      obtain ⟨hle, hvalid⟩ := ih (limit - char.length) rest
      exact ⟨by omega, .cons hchar hvalid⟩

/-- A well-formed text within the limit is passed as a whole. -/
theorem utf8Scan_full {src : Bytes} (h : Utf8 src) {fuel limit : ℕ} (hfuel : src.length ≤ fuel)
    (hlimit : src.length ≤ limit) : utf8Scan fuel limit src = src.length := by
  induction h generalizing fuel limit with
  | nil =>
    cases fuel with
    | zero => rfl
    | succ fuel => rfl
  | cons hchar _ ih =>
    rename_i char rest _
    rw [List.length_append] at hfuel hlimit ⊢
    have hpos := List.length_pos_iff.mpr hchar.ne_nil
    obtain ⟨fuel, rfl⟩ : ∃ more, fuel = more + 1 := ⟨fuel - 1, by omega⟩
    unfold utf8Scan
    dsimp only
    rw [utf8SeqLen_char hchar, if_neg (by omega), List.drop_left, ih (by omega) (by omega)]

/-- A well-formed text in front of others is passed. -/
theorem utf8Scan_front {src : Bytes} (h : Utf8 src) (rest : Bytes) {fuel limit : ℕ} (hfuel : src.length ≤ fuel)
    (hlimit : src.length ≤ limit) : src.length ≤ utf8Scan fuel limit (src ++ rest) := by
  induction h generalizing fuel limit with
  | nil => exact Nat.zero_le _
  | cons hchar _ ih =>
    rename_i char more _
    rw [List.length_append] at hfuel hlimit ⊢
    have hpos := List.length_pos_iff.mpr hchar.ne_nil
    obtain ⟨fuel, rfl⟩ : ∃ more, fuel = more + 1 := ⟨fuel - 1, by omega⟩
    have hmore := @ih fuel (limit - char.length) (by omega) (by omega)
    unfold utf8Scan
    dsimp only
    rw [List.append_assoc, utf8SeqLen_char hchar, if_neg (by omega), List.drop_left]
    omega

theorem copyUtf8Prefix_utf8 (room : ℕ) (src : Bytes) : Utf8 (copyUtf8Prefix room src) :=
  (utf8Scan_spec _ _ src).2

theorem copyUtf8Prefix_length_le (room : ℕ) (src : Bytes) : (copyUtf8Prefix room src).length ≤ room := by
  have hle := (utf8Scan_spec (min room src.length) (min room src.length) src).1
  unfold copyUtf8Prefix utf8SafePrefixLen
  rw [List.length_take]
  omega

/-- A text is copied as a whole exactly when it is well formed and fits. -/
theorem copyUtf8Prefix_eq_iff (room : ℕ) (src : Bytes) :
    copyUtf8Prefix room src = src ↔ Utf8 src ∧ src.length ≤ room := by
  constructor
  · intro h
    have hvalid := copyUtf8Prefix_utf8 room src
    have hle := copyUtf8Prefix_length_le room src
    rw [h] at hvalid hle
    exact ⟨hvalid, hle⟩
  · rintro ⟨hvalid, hle⟩
    unfold copyUtf8Prefix utf8SafePrefixLen
    rw [Nat.min_eq_right hle, utf8Scan_full hvalid le_rfl le_rfl, List.take_length]

/-- A text that fits is copied, whatever is behind it. -/
theorem copyUtf8Prefix_append {text : Bytes} (h : Utf8 text) {room : ℕ} (hroom : text.length ≤ room)
    (rest : Bytes) : ∃ more, copyUtf8Prefix room (text ++ rest) = text ++ more ∧ more <+: rest := by
  have hlen : (text ++ rest).length = text.length + rest.length := List.length_append
  have hfront : text.length ≤ utf8SafePrefixLen (text ++ rest) room :=
    utf8Scan_front h rest (by omega) (by omega)
  refine ⟨rest.take (utf8SafePrefixLen (text ++ rest) room - text.length), ?_, List.take_prefix _ _⟩
  unfold copyUtf8Prefix
  rw [List.take_append, List.take_of_length_le hfront]

/-- A line end behind a text is a character of its own. -/
theorem Utf8.of_concat {front : Bytes} {b : UInt8} (h : Utf8 (front ++ [b])) (hlow : b ≤ 0x7f) : Utf8 front := by
  generalize htext : front ++ [b] = text at h
  induction h generalizing front with
  | nil => exact absurd htext (by simp)
  | cons hchar hrest ih =>
    rename_i char rest
    rcases List.eq_nil_or_concat rest with rfl | ⟨front', c, rfl⟩
    · rw [List.append_nil] at htext
      have hlast : char.getLast? = some b := by rw [← htext, List.getLast?_append, List.getLast?_singleton]; rfl
      have hone := hchar.length_of_last hlast hlow
      rw [← htext, List.length_append, List.length_singleton] at hone
      rw [List.eq_nil_of_length_eq_zero (show front.length = 0 by omega)]
      exact .nil
    · rw [List.concat_eq_append, ← List.append_assoc] at htext
      obtain ⟨hfront, hb⟩ := List.append_inj' htext rfl
      rw [hfront]
      exact .cons hchar (ih (by rw [List.concat_eq_append, (List.cons.inj hb).1]))

instance (src : Bytes) : Decidable (Utf8 src) :=
  decidable_of_iff (copyUtf8Prefix src.length src = src) (by simp [copyUtf8Prefix_eq_iff])

end Scanner

section Suffix

/-- What `utf8_safe_suffix_start_local` leaves of a text: its last `keep` bytes without those that go
on a character that began before them. -/
def utf8SafeSuffix (keep : ℕ) (buf : Bytes) : Bytes :=
  if buf.length ≤ keep then buf else (buf.drop (buf.length - keep)).dropWhile isUtf8Continuation

/-- Only the first byte of a character is no continuation byte. -/
theorem Utf8Char.shape {char : Bytes} (h : Utf8Char char) : ∃ first more, char = first :: more ∧
    isUtf8Continuation first = false ∧ (∀ b ∈ more, isUtf8Continuation b) ∧ more.length ≤ 3 := by
  cases h <;> refine ⟨_, _, rfl, ?_⟩ <;>
    simp_all [← Bool.not_eq_true, isUtf8Continuation_iff, UInt8.le_iff_toNat_le] <;> omega

theorem Utf8.dropWhile {text : Bytes} (h : Utf8 text) :
    text.dropWhile isUtf8Continuation = text := by
  cases h with
  | nil => rfl
  | cons hchar _ =>
    obtain ⟨first, more, rfl, hfirst, -⟩ := hchar.shape
    simp [hfirst]

/-- From any place of a text on, at most three bytes are left out to get to a character. -/
theorem Utf8.drop_boundary {text : Bytes} (h : Utf8 text) (k : ℕ) :
    Utf8 ((text.drop k).dropWhile isUtf8Continuation) ∧
      text.length ≤ ((text.drop k).dropWhile isUtf8Continuation).length + k + 3 := by
  induction h generalizing k with
  | nil => simp [Utf8.nil]
  | cons hchar hrest ih =>
    rename_i char rest
    by_cases hzero : k = 0
    · rw [hzero, List.drop_zero, (Utf8.cons hchar hrest).dropWhile]
      exact ⟨.cons hchar hrest, by omega⟩
    rw [List.drop_append, List.length_append]
    obtain ⟨first, more, rfl, -, hmore, hlen⟩ := hchar.shape
    obtain ⟨k, rfl⟩ : ∃ j, k = j + 1 := ⟨k - 1, by omega⟩
    rw [List.drop_succ_cons, List.length_cons]
    by_cases hinside : k < more.length
    · have hcont : ∀ b ∈ more.drop k, isUtf8Continuation b :=
        fun b hb => hmore b (List.mem_of_mem_drop hb)
      rw [List.dropWhile_append_of_pos hcont, show k + 1 - (more.length + 1) = 0 by omega,
        List.drop_zero, hrest.dropWhile]
      exact ⟨hrest, by omega⟩
    · rw [List.drop_of_length_le (by omega), List.nil_append]
      obtain ⟨hvalid, hle⟩ := ih (k + 1 - (more.length + 1))
      exact ⟨hvalid, by omega⟩

theorem utf8SafeSuffix_isSuffix (keep : ℕ) (buf : Bytes) : utf8SafeSuffix keep buf <:+ buf := by
  unfold utf8SafeSuffix
  split_ifs
  · exact List.suffix_rfl
  · exact (List.dropWhile_suffix _).trans (List.drop_suffix _ _)

theorem utf8SafeSuffix_length_le (keep : ℕ) (buf : Bytes) :
    (utf8SafeSuffix keep buf).length ≤ keep := by
  unfold utf8SafeSuffix
  split_ifs with hshort
  · exact hshort
  · have hle : ((buf.drop (buf.length - keep)).dropWhile isUtf8Continuation).length ≤
        (buf.drop (buf.length - keep)).length := (List.dropWhile_suffix _).length_le
    rw [List.length_drop] at hle
    omega

/-- The suffix of a well-formed text is one, and uses all but three bytes of its room. -/
theorem utf8SafeSuffix_spec (keep : ℕ) {buf : Bytes} (h : Utf8 buf) :
    Utf8 (utf8SafeSuffix keep buf) ∧ min buf.length keep ≤ (utf8SafeSuffix keep buf).length + 3 := by
  unfold utf8SafeSuffix
  split_ifs with hshort
  · exact ⟨h, by omega⟩
  · obtain ⟨hvalid, hlen⟩ := h.drop_boundary (buf.length - keep)
    exact ⟨hvalid, by omega⟩

end Suffix

end MiniAgentOS
