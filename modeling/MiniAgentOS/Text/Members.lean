import MiniAgentOS.Text.Capacity
import MiniAgentOS.Text.Grammar

/-! The strings of the members of a document, and the ones that the reader of strings finds for them. -/
namespace MiniAgentOS

section Members

variable {doc key v text decoded e d : Bytes} {value : JsonValue} {members : List (Bytes × JsonValue)}

/-- The document is an object, and this is the string that it has under the key. -/
def MemberIs (doc key v : Bytes) : Prop := ∃ members, ValueText (.obj members) doc ∧
  (key, .str v) ∈ members ∧ ∀ w, (key, w) ∈ members → w = .str v

theorem JsonChar.plain_eq (h : JsonChar e d) (hplain : backslash ∉ e) : d = e := by
  cases h with
  | plain => rfl
  | letter => simp at hplain
  | unicode => simp at hplain
  | surrogates => simp at hplain

theorem StringText.plain_eq (h : StringText text decoded) (hplain : backslash ∉ text) : decoded = text := by
  induction h with
  | nil => rfl
  | char hchar _ ih =>
    rw [List.mem_append, not_or] at hplain
    rw [hchar.plain_eq hplain.1, ih hplain.2]
  | lone => simp at hplain

/-- A string without escapes stands in its text between quotes. -/
theorem ValueText.str_infix {value : JsonValue} {text : Bytes} (h : ValueText value text) (hvalue : value = .str v)
    (hplain : backslash ∉ text) :
    quote :: v ++ [quote] <:+: text := by
  match h with
  | .str hstring =>
    obtain rfl := JsonValue.str.inj hvalue
    simp only [List.cons_append, List.mem_cons, List.mem_append, not_or] at hplain
    rw [hstring.plain_eq hplain.2.1]
  | .before _ hrest =>
    rw [List.mem_cons, not_or] at hplain
    exact (hrest.str_infix hvalue hplain.2).trans (List.suffix_cons _ _).isInfix
  | .after _ hrest =>
    rw [List.mem_append, not_or] at hplain
    exact (hrest.str_infix hvalue hplain.1).trans (List.prefix_append _ _).isInfix

theorem MemberTexts.str_infix {members : List (Bytes × JsonValue)} {text : Bytes} (h : MemberTexts members text)
    (hin : (key, .str v) ∈ members) (hplain : backslash ∉ text) : quote :: v ++ [quote] <:+: text := by
  match h with
  | .none _ => cases hin
  | .one _ hvalue =>
    rw [List.mem_append, not_or, List.mem_cons, not_or] at hplain
    have heq := List.mem_singleton.mp hin
    rw [Prod.mk.injEq] at heq
    have hvalueInfix := hvalue.str_infix heq.2.symm hplain.2.2
    exact hvalueInfix.trans ((List.suffix_cons _ _).trans (List.suffix_append _ _)).isInfix
  | @MemberTexts.more _ _ _ _ name text rest hname hvalue hrest =>
    simp only [List.mem_append, List.mem_cons, not_or] at hplain
    obtain ⟨-, -, htext, -, hbehind⟩ := hplain
    have hback : text ++ comma :: rest <:+ name ++ colon :: (text ++ comma :: rest) :=
      (List.suffix_cons _ _).trans (List.suffix_append _ _)
    rcases List.mem_cons.mp hin with heq | hin
    · rw [Prod.mk.injEq] at heq
      have hvalueInfix := hvalue.str_infix heq.2.symm htext
      exact hvalueInfix.trans ((List.prefix_append _ _).isInfix.trans hback.isInfix)
    · have hrestInfix := hrest.str_infix hin hbehind
      have hbehindText : rest <:+ text ++ comma :: rest := (List.suffix_cons _ _).trans (List.suffix_append _ _)
      exact hrestInfix.trans (hbehindText.trans hback).isInfix

/-- An object without escapes has the strings of its members between quotes. -/
theorem ValueText.member_infix {value : JsonValue} {doc : Bytes} (h : ValueText value doc)
    (hvalue : value = .obj members) (hin : (key, .str v) ∈ members) (hplain : backslash ∉ doc) : quote :: v ++ [quote] <:+: doc := by
  match h with
  | .obj hmembers =>
    obtain rfl := JsonValue.obj.inj hvalue
    simp only [List.cons_append, List.mem_cons, List.mem_append, not_or] at hplain
    have hinner := hmembers.str_infix hin hplain.2.1
    exact hinner.trans ((List.prefix_append _ _).isInfix.trans (List.suffix_cons _ _).isInfix)
  | .before _ hrest =>
    rw [List.mem_cons, not_or] at hplain
    exact (hrest.member_infix hvalue hin hplain.2).trans (List.suffix_cons _ _).isInfix
  | .after _ hrest =>
    rw [List.mem_append, not_or] at hplain
    exact (hrest.member_infix hvalue hin hplain.1).trans (List.prefix_append _ _).isInfix

theorem MemberIs.inside (h : MemberIs doc key v) (hplain : backslash ∉ doc) : quote :: v ++ [quote] <:+: doc := by
  obtain ⟨members, hdoc, hin, -⟩ := h
  exact hdoc.member_infix rfl hin hplain

end Members

section Reading

variable {text doc key v : Bytes} {capacity : ℕ}

/-- What stands behind the key in a text is the string of the member of the document, and a buffer takes it. -/
structure ReadsMember (text doc key : Bytes) (capacity : ℕ) : Prop where
  member : MemberIs doc key (stringBehind text key)
  fits : (stringBehind text key).length ≤ capacity

/-- What is read then is the string of the member. -/
theorem ReadsMember.extract (h : ReadsMember text doc key capacity)
    (hread : jsonExtractString text text.length key capacity = .ok (some v)) : MemberIs doc key v := by
  obtain ⟨whole, hwhole, -, -, hfits⟩ := stringBehind_cut text key capacity
  have hlocal : jsonExtractStringLocal text key capacity = .ok v := by
    unfold jsonExtractStringLocal
    rw [hread]
    rfl
  obtain rfl : whole = v := Except.ok.inj (hwhole.symm.trans hlocal)
  rw [hfits.mpr h.fits]
  exact h.member

end Reading

section Plain

variable {members : List (Bytes × Bytes)} {key v : Bytes}

/-- Bytes that stand for themselves in a string. -/
def PlainBytes (text : Bytes) : Prop := ∀ b ∈ text, b ≤ 0x7f ∧ b ≠ quote ∧ b ≠ backslash ∧ 0x20 ≤ b

instance (text : Bytes) : Decidable (PlainBytes text) := inferInstanceAs (Decidable (∀ b ∈ text, _))

/-- Members with plain strings, as they are written. -/
def plainMembers : List (Bytes × Bytes) → Bytes
  | [] => []
  | [m] => (quote :: m.1 ++ [quote]) ++ colon :: (quote :: m.2 ++ [quote])
  | m :: next :: members =>
    (quote :: m.1 ++ [quote]) ++ colon :: ((quote :: m.2 ++ [quote]) ++ comma :: plainMembers (next :: members))

def plainObject (members : List (Bytes × Bytes)) : Bytes := openBrace :: plainMembers members ++ [closeBrace]

theorem plainMembers_text (h : ∀ m ∈ members, PlainBytes m.1 ∧ PlainBytes m.2) :
    MemberTexts (members.map fun m => (m.1, .str m.2)) (plainMembers members) := by
  induction members with
  | nil =>
    have hblanks : ∀ b ∈ ([] : Bytes), isSpace b := by simp
    exact .none hblanks
  | cons m rest ih =>
    obtain ⟨hname, htext⟩ := h m List.mem_cons_self
    have hrest := ih fun other hother => h other (List.mem_cons_of_mem m hother)
    cases rest with
    | nil => exact .one (.str (stringText_plain hname)) (.str (stringText_plain htext))
    | cons next rest => exact .more (.str (stringText_plain hname)) (.str (stringText_plain htext)) hrest

theorem memberIs_plain (h : ∀ m ∈ members, PlainBytes m.1 ∧ PlainBytes m.2) (hkeys : (members.map Prod.fst).Nodup)
    (hin : (key, v) ∈ members) : MemberIs (plainObject members) key v := by
  refine ⟨_, .obj (plainMembers_text h), List.mem_map.mpr ⟨_, hin, rfl⟩, ?_⟩
  intro w hw
  obtain ⟨⟨name, other⟩, hother, heq⟩ := List.mem_map.mp hw
  obtain ⟨rfl, rfl⟩ := Prod.mk.inj heq
  have hsame := List.inj_on_of_nodup_map hkeys hother hin rfl
  rw [(Prod.mk.inj hsame).2]

end Plain

end MiniAgentOS
