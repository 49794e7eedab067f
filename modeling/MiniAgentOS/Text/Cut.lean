import MiniAgentOS.Text.Escape

/-! Where a text can be cut: between its characters, and how much of a text a bounded copy takes. -/
namespace MiniAgentOS

section Boundary

variable {text rest src : Bytes} {b : UInt8} {room : ℕ}

/-- A text is cut between two characters where no continuation byte follows. -/
theorem Utf8.split (h : Utf8 (text ++ rest)) (hrest : ∀ b, rest.head? = some b → isUtf8Continuation b = false) :
    Utf8 text ∧ Utf8 rest := by
  generalize hwhole : text ++ rest = whole at h
  induction h generalizing text with
  | nil =>
    obtain ⟨rfl, rfl⟩ := List.append_eq_nil_iff.mp hwhole
    exact ⟨.nil, .nil⟩
  | cons hchar hmore ih =>
    rename_i char more
    rcases List.append_eq_append_iff.mp hwhole with ⟨inner, hchar', hrest'⟩ | ⟨inner, rfl, hmore'⟩
    · obtain ⟨first, tail, hshape, -, htail, -⟩ := hchar.shape
      cases text with
      | nil =>
        refine ⟨.nil, ?_⟩
        rw [List.nil_append] at hwhole
        rw [hwhole]
        exact .cons hchar hmore
      | cons c text =>
        cases inner with
        | nil =>
          rw [List.append_nil] at hchar'
          rw [hrest', ← hchar']
          refine ⟨?_, hmore⟩
          have hone := Utf8.cons hchar .nil
          rwa [List.append_nil] at hone
        | cons x inner =>
          have hx : x ∈ tail := by
            rw [hshape] at hchar'
            rw [(List.cons.inj hchar').2]
            simp
          have hcont := hrest x (by rw [hrest']; rfl)
          rw [htail x hx] at hcont
          cases hcont
    · obtain ⟨htext, hrest'⟩ := ih hmore'.symm
      exact ⟨.cons hchar htext, hrest'⟩

theorem low_not_continuation (h : b ≤ 0x7f) : isUtf8Continuation b = false := by
  rw [Bool.eq_false_iff, Ne, isUtf8Continuation_iff]
  have hle : b.toNat ≤ 127 := h
  omega

/-- What is behind a text in a text is one. -/
theorem Utf8.of_append (h : Utf8 (text ++ rest)) (htext : Utf8 text) : Utf8 rest := by
  induction htext with
  | nil => exact h
  | cons hchar _ ih =>
    rename_i char more _
    apply ih
    rw [List.append_assoc] at h
    generalize hwhole : char ++ (more ++ rest) = whole at h
    cases h with
    | nil => exact absurd (List.append_eq_nil_iff.mp hwhole).1 hchar.ne_nil
    | cons hfirst hback =>
      rename_i first back
      have hlength : char.length = first.length := by
        rw [← utf8SeqLen_char hchar (more ++ rest), hwhole, utf8SeqLen_char hfirst]
      rw [(List.append_inj hwhole hlength).2]
      exact hback

/-- A text is cut behind a character of one byte. -/
theorem Utf8.split_low (h : Utf8 (text ++ b :: rest)) (hb : b ≤ 0x7f) : Utf8 (text ++ [b]) ∧ Utf8 rest := by
  have hhead : ∀ c, (b :: rest).head? = some c → isUtf8Continuation c = false := by
    intro c hc
    rw [← Option.some.inj hc]
    exact low_not_continuation hb
  have hone : Utf8 [b] := .cons (.one hb) .nil
  obtain ⟨htext, hback⟩ := h.split hhead
  exact ⟨htext.append hone, Utf8.of_append hback hone⟩

/-- A bounded copy takes the longest start that is a text and fits. -/
theorem prefix_copyUtf8Prefix (htext : Utf8 text) (hroom : text.length ≤ room) (hfront : text <+: src) :
    text <+: copyUtf8Prefix room src := by
  obtain ⟨rest, rfl⟩ := hfront
  obtain ⟨more, hcopy, -⟩ := copyUtf8Prefix_append htext hroom rest
  rw [hcopy]
  exact List.prefix_append _ _

theorem copyUtf8Prefix_isPrefix (room : ℕ) (src : Bytes) : copyUtf8Prefix room src <+: src := List.take_prefix _ _

/-- Behind a text that fits, as much is copied as fits behind it. -/
theorem copyUtf8Prefix_behind (htext : Utf8 text) (hroom : text.length ≤ room) (rest : Bytes) :
    copyUtf8Prefix room (text ++ rest) = text ++ copyUtf8Prefix (room - text.length) rest := by
  obtain ⟨more, hcopy, hmore⟩ := copyUtf8Prefix_append htext hroom rest
  have hvalid := copyUtf8Prefix_utf8 room (text ++ rest)
  have hlength := copyUtf8Prefix_length_le room (text ++ rest)
  rw [hcopy, List.length_append] at hlength
  rw [hcopy] at hvalid
  have hshort : more <+: copyUtf8Prefix (room - text.length) rest :=
    prefix_copyUtf8Prefix (hvalid.of_append htext) (by omega) hmore
  have hlong : text ++ copyUtf8Prefix (room - text.length) rest <+: copyUtf8Prefix room (text ++ rest) := by
    apply prefix_copyUtf8Prefix (htext.append (copyUtf8Prefix_utf8 _ _))
    · have hle := copyUtf8Prefix_length_le (room - text.length) rest
      rw [List.length_append]
      omega
    · exact (List.prefix_append_right_inj text).mpr (copyUtf8Prefix_isPrefix _ _)
  rw [hcopy] at hlong ⊢
  exact ((List.prefix_append_right_inj text).mpr hshort).eq_of_length_le hlong.length_le

/-- Of bytes below 128 as many are copied as fit. -/
theorem copyUtf8Prefix_low (h : ∀ b ∈ src, b ≤ 0x7f) (room : ℕ) : copyUtf8Prefix room src = src.take room := by
  have hcopy : copyUtf8Prefix room src <+: src.take room := by
    apply List.prefix_of_prefix_length_le (copyUtf8Prefix_isPrefix room src) (List.take_prefix room src)
    rw [List.length_take, le_min_iff]
    exact ⟨copyUtf8Prefix_length_le room src, (copyUtf8Prefix_isPrefix room src).length_le⟩
  have htake : src.take room <+: copyUtf8Prefix room src := by
    apply prefix_copyUtf8Prefix (utf8_ascii fun b hb => h b (List.mem_of_mem_take hb))
    · rw [List.length_take]
      exact Nat.min_le_left _ _
    · exact List.take_prefix _ _
  exact hcopy.eq_of_length_le htake.length_le

end Boundary

end MiniAgentOS
