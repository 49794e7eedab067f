import MiniAgentOS.Text.Escape

/-! Flat JSON objects: what is written with `json_escape_append` is what `json_extract_string` reads,
for every key. -/
namespace MiniAgentOS
open Checked

set_option maxRecDepth 4000

section Read

variable {buf out text decoded rest : Bytes} {capacity off : ℕ}

theorem drop_of_drop {front : Bytes} (h : buf.drop off = front ++ rest) :
    buf.drop (off + front.length) = rest := by
  rw [← List.drop_drop, h, List.drop_left]

theorem putByte_eq {b : UInt8} (h : out.length < capacity) : putByte capacity out b = .ok (out ++ [b]) := by
  rw [putByte, if_pos h, extend_eq (by rw [List.length_singleton]; omega)]

theorem appendUtf8Codepoint_ascii {b : UInt8} (hlow : b ≤ 0x7f) (h : out.length < capacity) :
    appendUtf8Codepoint capacity out b.toNat = .ok (out ++ [b]) := by
  have hbytes := utf8Bytes_ascii b hlow
  have hcp : b.toNat ≤ 0x10ffff := by
    have hlt := b.toNat_lt
    omega
  rw [appendUtf8Codepoint, hbytes, if_pos ⟨hcp, h⟩, extend_eq h]

theorem hexNibble_hexChar : ∀ b : UInt8, hexNibble (hexChar ((b >>> 4) &&& 0x0f)) = .ok (some (b.toNat / 16)) ∧
    hexNibble (hexChar (b &&& 0x0f)) = .ok (some (b.toNat % 16)) := forall_byte (by decide)

theorem readHex4_control {b : UInt8}
    (h : buf.drop off = 48 :: 48 :: hexChar ((b >>> 4) &&& 0x0f) :: hexChar (b &&& 0x0f) :: rest) :
    readHex4 buf off = .ok (some b.toNat) := by
  obtain ⟨-, h0⟩ := index_of_drop h
  have hdrop1 : buf.drop (off + 1) = _ := @drop_of_drop buf _ off [48] h
  obtain ⟨-, h1⟩ := index_of_drop hdrop1
  have hdrop2 : buf.drop (off + 2) = _ := @drop_of_drop buf _ off [48, 48] h
  obtain ⟨-, h2⟩ := index_of_drop hdrop2
  have hdrop3 : buf.drop (off + 3) = _ := @drop_of_drop buf _ off [48, 48, _] h
  obtain ⟨-, h3⟩ := index_of_drop hdrop3
  have hzero : hexNibble 48 = .ok (some 0) := rfl
  obtain ⟨hhigh, hlow⟩ := hexNibble_hexChar b
  unfold readHex4
  simp only [h0, h1, h2, h3, ok_bind, hzero, hhigh, hlow]
  have hvalue : 0 * 4096 + 0 * 256 + b.toNat / 16 * 16 + b.toNat % 16 = b.toNat := by omega
  rw [hvalue]
  rfl

/-- The inside of a string as the reader takes it: bytes that stand for themselves, and escapes. -/
inductive Spelled : Bytes → Bytes → Prop where
  | nil : Spelled [] []
  | byte {b : UInt8} {text more : Bytes} : b ≠ quote → b ≠ backslash → Spelled text more →
      Spelled (b :: text) (b :: more)
  | letter {e b : UInt8} {text more : Bytes} : e ≠ 117 → unescape e = b → Spelled text more →
      Spelled (backslash :: e :: text) (b :: more)
  | control {b : UInt8} {text more : Bytes} : b ≤ 0x7f → Spelled text more →
      Spelled (backslash :: 117 :: 48 :: 48 :: hexChar ((b >>> 4) &&& 0x0f) :: hexChar (b &&& 0x0f) :: text)
        (b :: more)

theorem spelled_plain {c : Bytes} (h : ∀ b ∈ c, b ≠ quote ∧ b ≠ backslash ∧ 0x20 ≤ b)
    (hrest : Spelled text decoded) : Spelled (c ++ text) (c ++ decoded) := by
  induction c with
  | nil => exact hrest
  | cons b c ih =>
    obtain ⟨hquote, hslash, -⟩ := h b List.mem_cons_self
    exact .byte hquote hslash (ih fun a ha => h a (List.mem_cons_of_mem _ ha))

theorem unescape_letter {e b : UInt8} (h : (e, b) ∈ [(quote, quote), (backslash, backslash), (110, lf),
    (114, cr), (116, tab)]) : e ≠ 117 ∧ unescape e = b := by
  simp only [List.mem_cons, Prod.mk.injEq, List.not_mem_nil, or_false] at h
  rcases h with ⟨rfl, rfl⟩ | ⟨rfl, rfl⟩ | ⟨rfl, rfl⟩ | ⟨rfl, rfl⟩ | ⟨rfl, rfl⟩ <;> decide

theorem EscapedText.spelled (h : EscapedText text decoded) : Spelled text decoded := by
  induction h with
  | nil => exact .nil
  | cons hunit _ ih =>
    cases hunit with
    | @letter e b h =>
      have hread := unescape_letter h
      exact .letter hread.1 hread.2 ih
    | @control b h =>
      have hlow : ∀ b : UInt8, b ≤ 0x1f ∨ b = 0x7f → b ≤ 0x7f := forall_byte (by decide)
      exact .control (hlow b h) ih
    | plain h hplain => exact spelled_plain hplain ih

/-- What the reader has read of a string, and what is left of it. -/
def Reads (buf rest decoded : Bytes) (s : ℕ × Bytes) : Prop :=
  ∃ text more, Spelled text more ∧ buf.drop s.1 = text ++ quote :: rest ∧ s.2 ++ more = decoded

/-- A string is read as what it is spelled for. -/
theorem readString_spelled (htext : Spelled text decoded) (hdrop : buf.drop off = text ++ quote :: rest)
    (hroom : decoded.length ≤ capacity) : readString buf buf.length capacity off = .ok (some decoded) := by
  have hreturns : Returns (readString buf buf.length capacity off) fun r => r = some decoded := by
    refine returns_loop (Reads buf rest decoded) (fun s => buf.length - s.1) ?_
      ⟨text, decoded, htext, hdrop, rfl⟩ (Nat.lt_succ_self _)
    rintro ⟨off, out⟩ ⟨text, more, htext, hdrop, hout⟩
    dsimp only at hdrop hout ⊢
    have hnext : ∀ {n front text more}, buf.drop off = front ++ (text ++ quote :: rest) →
        Spelled text more → ∀ {b}, front.length = n → 0 < n → out ++ b :: more = decoded →
        Returns (pure (.next (off + n, out ++ [b])) : Checked (Round (ℕ × Bytes) (Option Bytes)))
          (RoundPost (Reads buf rest decoded) (fun s => buf.length - s.1) (fun r => r = some decoded)
            (off, out)) := by
      rintro n front text more hfront hspelled b rfl hpos hout
      have hlen := congrArg List.length hfront
      rw [List.length_drop, List.length_append] at hlen
      apply Returns.pure
      refine ⟨⟨text, more, hspelled, drop_of_drop hfront, ?_⟩, ?_⟩
      · rw [List.append_assoc]
        exact hout
      · dsimp only
        omega
    have hput : ∀ {b more}, out ++ b :: more = decoded → out.length < capacity := by
      intro b more heq
      have hall := congrArg List.length heq
      rw [List.length_append, List.length_cons] at hall
      omega
    cases htext with
    | nil =>
      obtain ⟨hoff, hindex⟩ := index_of_drop hdrop
      rw [if_pos hoff, hindex, ok_bind, if_pos rfl]
      rw [List.append_nil] at hout
      exact Returns.pure (congrArg some hout)
    | @byte b text more hquote hslash hrest =>
      obtain ⟨hoff, hindex⟩ := index_of_drop hdrop
      rw [if_pos hoff, hindex, ok_bind, if_neg hquote, if_neg hslash, putByte_eq (hput hout), ok_bind]
      exact @hnext 1 [b] _ _ hdrop hrest _ rfl Nat.one_pos hout
    | @letter e b text more hu hunescape hrest =>
      obtain ⟨hoff, hindex⟩ := index_of_drop hdrop
      have hdrop' : buf.drop (off + 1) = _ := @drop_of_drop buf _ off [backslash] hdrop
      obtain ⟨hoff', hindex'⟩ := index_of_drop hdrop'
      rw [if_pos hoff, hindex, ok_bind, if_neg (by decide), if_pos rfl, if_neg (Nat.not_le.mpr hoff'),
        hindex', ok_bind, if_neg hu, hunescape, putByte_eq (hput hout), ok_bind]
      exact @hnext 2 [backslash, e] _ _ hdrop hrest _ rfl Nat.two_pos hout
    | @control b text more hlow hrest =>
      obtain ⟨hoff, hindex⟩ := index_of_drop hdrop
      have hdrop' : buf.drop (off + 1) = _ := @drop_of_drop buf _ off [backslash] hdrop
      obtain ⟨hoff', hindex'⟩ := index_of_drop hdrop'
      have hdigits : buf.drop (off + 2) =
          48 :: 48 :: hexChar ((b >>> 4) &&& 0x0f) :: hexChar (b &&& 0x0f) :: (text ++ quote :: rest) :=
        @drop_of_drop buf _ off [backslash, 117] hdrop
      have hlen := congrArg List.length hdigits
      rw [List.length_drop] at hlen
      simp only [List.length_cons, List.length_append] at hlen
      rw [if_pos hoff, hindex, ok_bind, if_neg (by decide), if_pos rfl, if_neg (Nat.not_le.mpr hoff'),
        hindex', ok_bind, if_pos rfl, if_neg (by omega), readHex4_control hdigits, ok_bind]
      dsimp only
      rw [appendUtf8Codepoint_ascii hlow (hput hout), ok_bind]
      exact @hnext 6 [backslash, 117, 48, 48, _, _] _ _ hdrop hrest _ rfl (by decide) hout
  obtain ⟨r, hr, rfl⟩ := hreturns
  exact hr

end Read

section Search

variable {buf key text decoded rest : Bytes} {i : ℕ}

/-- The key in quotes, and a colon behind it. -/
def KeyAt (key text : Bytes) : Prop := ∃ blanks rest, (∀ b ∈ blanks, isSpace b) ∧
  text = quote :: key ++ quote :: (blanks ++ colon :: rest)

theorem quotedKeyAt_eq (h : i + key.length + 2 ≤ buf.length) :
    quotedKeyAt buf key i = .ok (decide (quote :: key ++ [quote] <+: buf.drop i)) := by
  have hi : i < buf.length := by omega
  have hend : i + 1 + key.length < buf.length := by omega
  have hdrop := List.drop_eq_getElem_cons hi
  unfold quotedKeyAt
  rw [index_eq hi, ok_bind, hdrop]
  by_cases hquote : buf[i] = quote
  · rw [if_neg (not_not_intro hquote), matchesAt_eq (by omega), ok_bind, hquote, List.cons_append]
    have hcons : quote :: (key ++ [quote]) <+: quote :: buf.drop (i + 1) ↔
        key ++ [quote] <+: buf.drop (i + 1) := by
      rw [List.cons_prefix_cons, and_iff_right rfl]
    by_cases hkey : key <+: buf.drop (i + 1)
    · obtain ⟨tail, htail⟩ := hkey
      have hnext : buf.drop (i + 1 + key.length) = tail := drop_of_drop htail.symm
      rw [List.drop_eq_getElem_cons hend] at hnext
      have hiff : buf[i + 1 + key.length] = quote ↔ key ++ [quote] <+: buf.drop (i + 1) := by
        rw [← htail, List.prefix_append_right_inj, ← hnext, List.cons_prefix_cons,
          and_iff_left List.nil_prefix]
        exact eq_comm
      have hbyte : decide (buf[i + 1 + key.length] = quote) =
          decide (key ++ [quote] <+: buf.drop (i + 1)) := decide_eq_decide.mpr hiff
      rw [← htail, decide_eq_true (List.prefix_append key tail), if_pos rfl, index_eq hend, htail,
        decide_eq_decide.mpr hcons, ← hbyte]
      rfl
    · have hnot : ¬ key ++ [quote] <+: buf.drop (i + 1) :=
        fun h => hkey ((List.prefix_append key [quote]).trans h)
      rw [decide_eq_false hkey, decide_eq_decide.mpr hcons, decide_eq_false hnot]
      rfl
  · have hnot : ¬ quote :: key ++ [quote] <+: buf[i] :: buf.drop (i + 1) :=
      fun h => hquote (List.cons_prefix_cons.mp h).1.symm
    rw [if_pos hquote, decide_eq_false hnot]
    rfl

/-- A key that is found is there. -/
theorem keyAt_of_match {off : ℕ} (hkey : quote :: key ++ [quote] <+: buf.drop i)
    (hlow : i + key.length + 2 ≤ off)
    (hblank : ∀ k, i + key.length + 2 ≤ k → k < off → ∀ b, buf[k]? = some b → isSpace b = true)
    (hcolon : buf[off]? = some colon) : KeyAt key (buf.drop i) := by
  obtain ⟨tail, htail⟩ := hkey
  have hrest : buf.drop (i + key.length + 2) = tail := by
    rw [← drop_of_drop htail.symm, List.length_append, List.length_cons, List.length_singleton]
    exact congrArg (fun n => buf.drop n) (by omega)
  obtain ⟨more, hoff⟩ : ∃ more, tail.drop (off - (i + key.length + 2)) = colon :: more := by
    obtain ⟨hlt, hcell⟩ := List.getElem?_eq_some_iff.mp hcolon
    refine ⟨buf.drop (off + 1), ?_⟩
    rw [← hrest, List.drop_drop, Nat.add_sub_cancel' hlow, List.drop_eq_getElem_cons hlt, hcell]
  refine ⟨tail.take (off - (i + key.length + 2)), more, ?_, ?_⟩
  · intro b hb
    obtain ⟨k, hk, rfl⟩ := List.mem_iff_getElem.mp hb
    rw [List.length_take] at hk
    apply hblank (i + key.length + 2 + k) (by omega) (by omega)
    rw [List.getElem_take, ← List.getElem?_drop, hrest]
    exact List.getElem?_eq_getElem (by omega)
  · rw [← hoff, List.take_append_drop, ← htail, List.append_assoc]
    rfl

/-- The key is found where it first stands. -/
theorem jsonFindKeyFrom_first {start : ℕ} (hstart : start ≤ i)
    (hmiss : ∀ j, start ≤ j → j < i → ¬ KeyAt key (buf.drop j))
    (hfound : buf.drop i = quote :: key ++ quote :: colon :: rest) :
    jsonFindKeyFrom buf buf.length key start = .ok (some (i + key.length + 3)) := by
  have hlen := congrArg List.length hfound
  simp only [List.length_drop, List.length_append, List.length_cons] at hlen
  have hreturns : Returns (jsonFindKeyFrom buf buf.length key start)
      fun r => r = some (i + key.length + 3) := by
    refine returns_loop (fun j => start ≤ j ∧ j ≤ i) (fun j => buf.length - j) ?_ ⟨le_rfl, hstart⟩
      (Nat.lt_succ_self _)
    rintro j ⟨hlow, hhigh⟩
    rw [if_pos (by omega), quotedKeyAt_eq (by omega), ok_bind]
    rcases Nat.lt_or_eq_of_le hhigh with hlt | rfl
    · have hnext : Returns (pure (.next (j + 1)) : Checked (Round ℕ (Option ℕ)))
          (RoundPost (fun j => start ≤ j ∧ j ≤ i) (fun j => buf.length - j)
            (fun r => r = some (i + key.length + 3)) j) := by
        rw [returns_pure, roundPost_next]
        omega
      apply Returns.ite
      swap
      · exact fun _ => hnext
      intro hmatch
      apply Returns.bind (skipWhile_spec isSpace (by omega) le_rfl)
      rintro off ⟨⟨hoff, hend⟩, hblank, -⟩
      unfold testAt
      by_cases hroom : off < buf.length
      · rw [if_pos hroom, index_eq hroom, Except.map_ok, ok_bind]
        apply Returns.ite
        · intro hcolon
          have hcell : buf[off]? = some colon := by
            rw [List.getElem?_eq_getElem hroom, eq_of_beq hcolon]
          exact absurd (keyAt_of_match (of_decide_eq_true hmatch) hoff hblank hcell) (hmiss j hlow hlt)
        · exact fun _ => hnext
      · rw [if_neg hroom]
        exact hnext
    · have hmatch : quote :: key ++ [quote] <+: buf.drop j := by
        rw [hfound]
        exact ⟨colon :: rest, by rw [List.append_assoc]; rfl⟩
      have hafter : buf.drop (j + key.length + 2) = colon :: rest := by
        rw [Nat.add_assoc, ← List.drop_drop, hfound, List.drop_append]
        simp
      obtain ⟨hroom, hcolon⟩ := index_of_drop hafter
      have hskip : skipWhile isSpace buf buf.length (j + key.length + 2) =
          .ok (j + key.length + 2) := by
        unfold skipWhile
        rw [loop, if_pos hroom, hcolon]
        rfl
      rw [if_pos (decide_eq_true hmatch), hskip, ok_bind, testAt, if_pos hroom, hcolon]
      exact Returns.pure rfl
  obtain ⟨r, hr, rfl⟩ := hreturns
  exact hr

end Search

section Object

/-- A key and its value, as the builders of the requests write them. -/
def writeMember (capacity : ℕ) (out : Bytes) (member : Bytes × Bytes) : Bytes :=
  let out := appendBytes capacity out (quote :: member.1 ++ [quote, colon, quote])
  let out := jsonEscapeAppend capacity out member.2
  appendBytes capacity out [quote]

def writeMembers (capacity : ℕ) : Bytes → List (Bytes × Bytes) → Bytes
  | out, [] => out
  | out, member :: members =>
    writeMembers capacity (writeMember capacity (appendBytes capacity out [comma]) member) members

def writeObject (capacity : ℕ) : List (Bytes × Bytes) → Bytes
  | [] => appendBytes capacity (appendBytes capacity [] [openBrace]) [closeBrace]
  | member :: members =>
    let out := writeMember capacity (appendBytes capacity [] [openBrace]) member
    appendBytes capacity (writeMembers capacity out members) [closeBrace]

/-- The text of a member, without bounds. -/
def memberText (member : Bytes × Bytes) : Bytes :=
  quote :: member.1 ++ [quote, colon, quote] ++ jsonEscape member.2 ++ [quote]

/-- The members behind the first one, and the end of the object. -/
def closingText : List (Bytes × Bytes) → Bytes
  | [] => [closeBrace]
  | member :: members => comma :: memberText member ++ closingText members

def objectText : List (Bytes × Bytes) → Bytes
  | [] => [openBrace, closeBrace]
  | member :: members => openBrace :: memberText member ++ closingText members

variable {key value out text decoded rest more : Bytes} {sep : UInt8} {capacity : ℕ}
  {member : Bytes × Bytes} {members : List (Bytes × Bytes)}

theorem writeMember_eq (h : out.length + (memberText member).length ≤ capacity) :
    writeMember capacity out member = out ++ memberText member := by
  unfold memberText at h ⊢
  simp only [List.length_append, List.length_cons, List.length_nil] at h
  have hkey : appendBytes capacity out (quote :: member.1 ++ [quote, colon, quote]) =
      out ++ (quote :: member.1 ++ [quote, colon, quote]) := by
    apply appendBytes_eq
    simp only [List.length_append, List.length_cons, List.length_nil]
    omega
  have hvalue : jsonEscapeAppend capacity (out ++ (quote :: member.1 ++ [quote, colon, quote])) member.2 =
      out ++ (quote :: member.1 ++ [quote, colon, quote]) ++ jsonEscape member.2 := by
    apply jsonEscapeAppend_eq
    simp only [List.length_append, List.length_cons, List.length_nil]
    omega
  unfold writeMember
  dsimp only
  rw [hkey, hvalue, appendBytes_eq]
  · simp only [List.append_assoc]
  · simp only [List.length_append, List.length_cons, List.length_nil]
    omega

theorem closingText_pos (members : List (Bytes × Bytes)) : 0 < (closingText members).length := by
  cases members with
  | nil => exact Nat.one_pos
  | cons member members => exact Nat.succ_pos _

theorem writeMembers_eq (h : out.length + (closingText members).length ≤ capacity) :
    appendBytes capacity (writeMembers capacity out members) [closeBrace] =
      out ++ closingText members := by
  induction members generalizing out with
  | nil => exact appendBytes_eq h
  | cons member members ih =>
    rw [closingText, List.length_append, List.length_cons] at h
    have hpos := closingText_pos members
    have hcomma : appendBytes capacity out [comma] = out ++ [comma] := by
      apply appendBytes_eq
      rw [List.length_singleton]
      omega
    have hmember : writeMember capacity (out ++ [comma]) member = out ++ [comma] ++ memberText member := by
      apply writeMember_eq
      rw [List.length_append, List.length_singleton]
      omega
    rw [writeMembers, hcomma, hmember, ih]
    · simp only [closingText, List.append_assoc, List.cons_append, List.nil_append]
    · simp only [List.length_append, List.length_singleton]
      omega

/-- In a buffer that has room for it, the whole object is written. -/
theorem writeObject_eq (h : (objectText members).length ≤ capacity) :
    writeObject capacity members = objectText members := by
  have hopen : 1 ≤ capacity → appendBytes capacity [] [openBrace] = [openBrace] :=
    fun hone => appendBytes_eq hone
  cases members with
  | nil =>
    have htwo : 2 ≤ capacity := h
    rw [writeObject, hopen (by omega)]
    exact appendBytes_eq htwo
  | cons member members =>
    rw [objectText, List.length_append, List.length_cons] at h
    have hpos := closingText_pos members
    have hmember : writeMember capacity [openBrace] member = [openBrace] ++ memberText member := by
      apply writeMember_eq
      rw [List.length_singleton]
      omega
    unfold writeObject
    dsimp only
    rw [hopen (by omega), hmember, writeMembers_eq]
    · rfl
    · simp only [List.length_append, List.length_singleton]
      omega

/-- What a key is made of: it is written as it stands, and does not begin like what follows a
string. Every identifier is such a key. -/
structure PlainKey (key : Bytes) : Prop where
  plain : ∀ b ∈ key, b ≠ quote ∧ b ≠ backslash
  first : ∃ b more, key = b :: more ∧ b ≠ colon ∧ b ≠ comma ∧ b ≠ closeBrace

theorem spelled_self (h : ∀ b ∈ key, b ≠ quote ∧ b ≠ backslash) : Spelled key key := by
  induction key with
  | nil => exact .nil
  | cons b key ih =>
    have hb := h b List.mem_cons_self
    exact .byte hb.1 hb.2 (ih fun a ha => h a (List.mem_cons_of_mem _ ha))

/-- A quote within a string is escaped. -/
theorem spelled_quote (htext : Spelled text decoded) (hkey : ∀ b ∈ key, b ≠ quote ∧ b ≠ backslash)
    (h : key ++ quote :: rest = text ++ quote :: more) : key = text ∧ rest = more := by
  have hslash : quote ≠ backslash := by decide
  induction htext generalizing key with
  | nil =>
    cases key with
    | nil => exact ⟨rfl, (List.cons.inj h).2⟩
    | cons b key => exact absurd (List.cons.inj h).1 (hkey b List.mem_cons_self).1
  | byte hquote _ _ ih =>
    cases key with
    | nil => exact absurd (List.cons.inj h).1.symm hquote
    | cons b key =>
      obtain ⟨hhead, htail⟩ := List.cons.inj h
      obtain ⟨hsame, hrest⟩ := ih (fun a ha => hkey a (List.mem_cons_of_mem _ ha)) htail
      exact ⟨by rw [hhead, hsame], hrest⟩
  | letter _ _ _ _ | control _ _ _ =>
    cases key with
    | nil => exact absurd (List.cons.inj h).1 hslash
    | cons b key => exact absurd (List.cons.inj h).1 (hkey b List.mem_cons_self).2

/-- What separates a string from what follows it, unless the string is a key. -/
def Separates (sep : UInt8) : Prop := sep ≠ colon ∧ isSpace sep = false

/-- No key stands at the beginning of a value. -/
theorem not_keyAt_spelled (hkey : PlainKey key) (htext : Spelled text decoded) (hsep : Separates sep) :
    ¬ KeyAt key (quote :: (text ++ quote :: sep :: more)) := by
  rintro ⟨blanks, rest, hblanks, heq⟩
  have hinner := (List.cons.inj heq).2.symm
  obtain ⟨-, hafter⟩ := spelled_quote htext hkey.plain hinner
  cases blanks with
  | nil => exact hsep.1 (List.cons.inj hafter).1.symm
  | cons b blanks =>
    have hb := hblanks b List.mem_cons_self
    rw [(List.cons.inj hafter).1, hsep.2] at hb
    cases hb

theorem not_keyAt_byte {b : UInt8} (h : b ≠ quote) : ¬ KeyAt key (b :: text) := by
  rintro ⟨blanks, rest, -, heq⟩
  exact h (List.cons.inj heq).1

/-- Another key does not stand where a key stands. -/
theorem not_keyAt_key {other : Bytes} (hkey : PlainKey key) (hother : PlainKey other) (hne : key ≠ other) :
    ¬ KeyAt key (quote :: (other ++ quote :: text)) := by
  rintro ⟨blanks, rest, -, heq⟩
  have hinner := (List.cons.inj heq).2.symm
  exact hne (spelled_quote (spelled_self hother.plain) hkey.plain hinner).1

/-- No key stands at the end of a string. -/
theorem not_keyAt_end (hkey : PlainKey key) (hsep : sep = colon ∨ sep = comma ∨ sep = closeBrace) :
    ¬ KeyAt key (quote :: sep :: text) := by
  rintro ⟨blanks, rest, -, heq⟩
  obtain ⟨b, more, rfl, hcolon, hcomma, hclose⟩ := hkey.first
  have hb : sep = b := (List.cons.inj (List.cons.inj heq).2).1
  rw [hb] at hsep
  rcases hsep with h | h | h
  · exact hcolon h
  · exact hcomma h
  · exact hclose h

/-- The key stands nowhere in what is skipped. -/
def Misses (key rest : Bytes) : Bytes → Prop
  | [] => True
  | b :: skipped => ¬ KeyAt key (b :: skipped ++ rest) ∧ Misses key rest skipped

theorem Misses.append {front back : Bytes} (hfront : Misses key (back ++ rest) front)
    (hback : Misses key rest back) : Misses key rest (front ++ back) := by
  induction front with
  | nil => exact hback
  | cons b front ih =>
    have hhead : b :: front ++ back ++ rest = b :: front ++ (back ++ rest) := List.append_assoc _ _ _
    exact ⟨fun h => hfront.1 (hhead ▸ h), ih hfront.2⟩

theorem Misses.drop {skipped : Bytes} (h : Misses key rest skipped) {j : ℕ} (hj : j < skipped.length) :
    ¬ KeyAt key ((skipped ++ rest).drop j) := by
  induction skipped generalizing j with
  | nil => exact absurd hj (Nat.not_lt_zero _)
  | cons b skipped ih =>
    cases j with
    | zero => exact h.1
    | succ j => exact ih h.2 (Nat.lt_of_succ_lt_succ hj)

theorem misses_plain {skipped : Bytes} (h : ∀ b ∈ skipped, b ≠ quote) : Misses key rest skipped := by
  induction skipped with
  | nil => trivial
  | cons b skipped ih =>
    exact ⟨not_keyAt_byte (h b List.mem_cons_self), ih fun a ha => h a (List.mem_cons_of_mem _ ha)⟩

theorem hexChars_plain : ∀ b : UInt8, hexChar ((b >>> 4) &&& 0x0f) ≠ quote ∧
    hexChar (b &&& 0x0f) ≠ quote := forall_byte (by decide)

/-- The key stands nowhere in a value, whatever the value is. -/
theorem misses_spelled (hkey : PlainKey key) (htext : Spelled text decoded) (hsep : Separates sep) :
    Misses key (quote :: sep :: more) text := by
  have hslash : backslash ≠ quote := by decide
  induction htext with
  | nil => trivial
  | byte hquote _ _ ih => exact ⟨not_keyAt_byte hquote, ih⟩
  | @letter e b text decoded _ _ htext ih =>
    refine ⟨not_keyAt_byte hslash, ?_, ih⟩
    by_cases hquote : e = quote
    · rw [hquote]
      exact not_keyAt_spelled hkey htext hsep
    · exact not_keyAt_byte hquote
  | @control b text decoded _ _ ih =>
    have hzero : (48 : UInt8) ≠ quote ∧ (117 : UInt8) ≠ quote := by decide
    have hdigits := hexChars_plain b
    exact ⟨not_keyAt_byte hslash, not_keyAt_byte hzero.2, not_keyAt_byte hzero.1,
      not_keyAt_byte hzero.1, not_keyAt_byte hdigits.1, not_keyAt_byte hdigits.2, ih⟩

theorem memberText_append (member : Bytes × Bytes) (text : Bytes) :
    memberText member ++ text = quote :: (member.1 ++ quote :: colon :: quote ::
      (jsonEscape member.2 ++ quote :: text)) := by
  simp only [memberText, List.append_assoc, List.cons_append, List.nil_append]

/-- The key stands nowhere in another member. -/
theorem misses_member (hkey : PlainKey key) (hother : PlainKey member.1) (hne : key ≠ member.1) :
    Misses key rest (memberText member ++ [comma]) := by
  have hvalue := (jsonEscape_escaped member.2).spelled
  have hsep : Separates comma := ⟨by decide, by decide⟩
  have hclosing : Misses key rest [quote, comma] :=
    ⟨not_keyAt_end hkey (.inr (.inl rfl)), not_keyAt_byte (by decide), trivial⟩
  have hopening : Misses key (jsonEscape member.2 ++ [quote, comma] ++ rest) [quote, colon, quote] := by
    refine ⟨not_keyAt_end hkey (.inl rfl), not_keyAt_byte (by decide), ?_, trivial⟩
    rw [List.append_assoc]
    exact not_keyAt_spelled hkey hvalue hsep
  have hname : Misses key ([quote, colon, quote] ++ (jsonEscape member.2 ++ [quote, comma]) ++ rest)
      (quote :: member.1) := by
    refine ⟨?_, misses_plain fun b hb => (hother.plain b hb).1⟩
    exact not_keyAt_key hkey hother hne
  have htext : memberText member ++ [comma] =
      quote :: member.1 ++ ([quote, colon, quote] ++ (jsonEscape member.2 ++ [quote, comma])) := by
    simp only [memberText, List.append_assoc, List.cons_append, List.nil_append]
  rw [htext]
  refine hname.append (Misses.append ?_ (Misses.append ?_ hclosing))
  · exact hopening
  · exact misses_spelled hkey hvalue hsep

/-- Where a member stands among members whose keys differ: its key is missed before. -/
theorem members_found (hkeys : ((member :: members).map Prod.fst).Nodup)
    (hplain : ∀ m ∈ member :: members, PlainKey m.1) {m : Bytes × Bytes} (hm : m ∈ member :: members) :
    ∃ skipped more, memberText member ++ closingText members = skipped ++ (memberText m ++ more) ∧
      Misses m.1 (memberText m ++ more) skipped := by
  induction members generalizing member with
  | nil =>
    rw [List.mem_singleton.mp hm]
    exact ⟨[], closingText [], rfl, trivial⟩
  | cons next members ih =>
    rcases List.mem_cons.mp hm with rfl | hrest
    · exact ⟨[], closingText (next :: members), rfl, trivial⟩
    · rw [List.map_cons, List.nodup_cons] at hkeys
      obtain ⟨skipped, more, heq, hmisses⟩ :=
        ih hkeys.2 (fun a ha => hplain a (List.mem_cons_of_mem _ ha)) hrest
      have hne : m.1 ≠ member.1 := fun h => hkeys.1 (h ▸ List.mem_map_of_mem hrest)
      refine ⟨memberText member ++ [comma] ++ skipped, more, ?_, ?_⟩
      · rw [closingText, List.cons_append, heq]
        simp only [List.append_assoc, List.cons_append, List.nil_append]
      · refine Misses.append ?_ hmisses
        exact misses_member (hplain m hm) (hplain member List.mem_cons_self) hne

/-- What is extracted for a key is the value that was written for it, whatever the other values are. -/
theorem jsonExtractString_written (hkeys : (members.map Prod.fst).Nodup)
    (hplain : ∀ m ∈ members, PlainKey m.1) (hvalues : ∀ m ∈ members, Utf8 m.2)
    (hfits : (objectText members).length ≤ capacity) {m : Bytes × Bytes} (hm : m ∈ members) {room : ℕ}
    (hroom : m.2.length ≤ room) : jsonExtractString (writeObject capacity members)
      (writeObject capacity members).length m.1 room = .ok (some m.2) := by
  rw [writeObject_eq hfits]
  cases members with
  | nil => cases hm
  | cons member members =>
    obtain ⟨skipped, more, heq, hmisses⟩ := members_found hkeys hplain hm
    have hobject : objectText (member :: members) = openBrace :: skipped ++ (memberText m ++ more) := by
      rw [objectText, List.cons_append, heq]
      rfl
    rw [hobject]
    generalize hbuf : openBrace :: skipped ++ (memberText m ++ more) = buf
    have hall : Misses m.1 (memberText m ++ more) (openBrace :: skipped) :=
      ⟨not_keyAt_byte (by decide), hmisses⟩
    have hdrop : buf.drop (openBrace :: skipped).length = quote :: m.1 ++ quote :: colon :: quote ::
        (jsonEscape m.2 ++ quote :: more) := by
      rw [← hbuf, List.drop_left, memberText_append]
      rfl
    have hfind := @jsonFindKeyFrom_first buf m.1 _ _ 0 (Nat.zero_le _)
      (fun j _ hj => hbuf ▸ hall.drop hj) hdrop
    generalize (openBrace :: skipped).length = i at hdrop hfind
    have hvalue : buf.drop (i + m.1.length + 3) = quote :: (jsonEscape m.2 ++ quote :: more) := by
      rw [Nat.add_assoc, ← List.drop_drop, hdrop, List.drop_append]
      simp
    obtain ⟨hlt, hindex⟩ := index_of_drop hvalue
    have hinside : buf.drop (i + m.1.length + 3 + 1) = jsonEscape m.2 ++ quote :: more :=
      @drop_of_drop buf _ _ [quote] hvalue
    have hskip : skipWhile isSpace buf buf.length (i + m.1.length + 3) = .ok (i + m.1.length + 3) := by
      unfold skipWhile
      rw [loop, if_pos hlt, hindex]
      rfl
    have hspelled := (jsonEscape_escaped m.2).spelled
    rw [utf8Repair_of_utf8 (hvalues m hm)] at hspelled
    have hread := readString_spelled hspelled hinside hroom
    unfold jsonExtractString jsonExtractStringFrom jsonFindValue
    rw [hfind, ok_bind]
    dsimp only
    rw [hskip, Except.map_ok, ok_bind]
    dsimp only
    rw [testAt, if_pos hlt, hindex, Except.map_ok, ok_bind, if_pos (beq_self_eq_true quote), hread]
    rfl

/-- A value that looks like another member does not change what is extracted for that member. -/
theorem jsonExtractString_written_lookalike :
    let members := [(ascii "a", ascii "x\",\"b\":\"y\\"), (ascii "b", ascii "z\n")]
    jsonExtractString (writeObject 64 members) (writeObject 64 members).length (ascii "b") 8 =
      .ok (some (ascii "z\n")) := by
  intro members
  have hplain : ∀ m ∈ members, PlainKey m.1 := by
    have ha : PlainKey (ascii "a") := ⟨by decide, 97, [], rfl, by decide⟩
    have hb : PlainKey (ascii "b") := ⟨by decide, 98, [], rfl, by decide⟩
    simp only [members, List.mem_cons, List.not_mem_nil, or_false, forall_eq_or_imp, forall_eq]
    exact ⟨ha, hb⟩
  have hvalues : ∀ m ∈ members, Utf8 m.2 := by
    simp only [members, List.mem_cons, List.not_mem_nil, or_false, forall_eq_or_imp, forall_eq]
    exact ⟨utf8_ascii (by decide), utf8_ascii (by decide)⟩
  exact jsonExtractString_written (by decide) hplain hvalues (by decide)
    (m := (ascii "b", ascii "z\n")) (by decide) (by decide)

end Object

end MiniAgentOS
