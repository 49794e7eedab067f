import MiniAgentOS.Agent.Prompt
import MiniAgentOS.Text.Prefix

/-! What the agent takes from the output of a process: its exit code, the summary that is retained and whether
the run has to be recovered. -/
namespace MiniAgentOS.Agent
open Checked Session

set_option maxRecDepth 4000

section Output

/-- The member `exit_code` of a process output, absent or null while the process runs. -/
inductive ExitCode where
  | absent
  | null
  | code (value : ℤ)
  deriving DecidableEq, Repr

/-- What the bridge answers to `/process/output`. -/
structure ProcessOutput where
  processId : Bytes
  status : Bytes
  stdout : Bytes
  stderr : Bytes
  exitCode : ExitCode
  nextOffset : ℕ
  truncated : Bool
  deriving DecidableEq, Repr

/-- How `json.dumps` writes a byte of a string. -/
def dumpByte (b : UInt8) : Bytes :=
  if b = quote then [backslash, quote]
  else if b = backslash then [backslash, backslash]
  else if b = lf then [backslash, 110]
  else if b = cr then [backslash, 114]
  else if b = tab then [backslash, 116]
  else if b = 8 then [backslash, 98]
  else if b = 12 then [backslash, 102]
  else if b < 32 then [backslash, 117, 48, 48, hexChar ((b >>> 4) &&& 0x0f), hexChar (b &&& 0x0f)]
  else [b]

def dumpString (text : Bytes) : Bytes := quote :: (text.flatMap dumpByte ++ [quote])

def dumpNat (n : ℕ) : Bytes :=
  if n = 0 then [48] else (Nat.digits 10 n).reverse.map fun d => UInt8.ofNat (48 + d)

def dumpInt (n : ℤ) : Bytes := if n < 0 then 45 :: dumpNat n.natAbs else dumpNat n.natAbs

def dumpBool (b : Bool) : Bytes := if b then ascii "true" else ascii "false"

/-- A member with what separates it from the next one. -/
def dumpMember (key value : Bytes) : Bytes := quote :: (key ++ quote :: colon :: space :: (value ++ [comma, space]))

/-- The members in front of the exit code. -/
def outputFront (o : ProcessOutput) : Bytes :=
  openBrace :: (dumpMember (ascii "ok") (ascii "true") ++
    (dumpMember (ascii "process_id") (dumpString o.processId) ++
      (dumpMember (ascii "status") (dumpString o.status) ++
        (dumpMember (ascii "stdout") (dumpString o.stdout) ++
          dumpMember (ascii "stderr") (dumpString o.stderr)))))

def exitMember : ExitCode → Bytes
  | .absent => []
  | .null => dumpMember (ascii "exit_code") (ascii "null")
  | .code n => dumpMember (ascii "exit_code") (dumpInt n)

def outputBack (o : ProcessOutput) : Bytes :=
  dumpMember (ascii "next_offset") (dumpNat o.nextOffset) ++
    (quote :: (ascii "truncated" ++ quote :: colon :: space :: (dumpBool o.truncated ++ [closeBrace])))

def processOutputJson (o : ProcessOutput) : Bytes := outputFront o ++ (exitMember o.exitCode ++ outputBack o)

/-- `capture_raw_response_body`: what the tool result buffer takes of a response. -/
def captureRawResponseBody (body : Bytes) : Checked Bytes := (·.take toolResultLimit) <$> trimText body

end Output

section Search

variable {key other value rest text : Bytes}

theorem dumpByte_spelled (b : UInt8) (htext : ∃ decoded, Spelled text decoded) :
    ∃ decoded, Spelled (dumpByte b ++ text) decoded := by
  obtain ⟨decoded, htext⟩ := htext
  unfold dumpByte
  split_ifs with hquote hslash hlf hcr htab hback hform hlow
  · exact ⟨_, .letter (by decide) rfl htext⟩
  · exact ⟨_, .letter (by decide) rfl htext⟩
  · exact ⟨_, .letter (by decide) rfl htext⟩
  · exact ⟨_, .letter (by decide) rfl htext⟩
  · exact ⟨_, .letter (by decide) rfl htext⟩
  · exact ⟨_, .letter (by decide) rfl htext⟩
  · exact ⟨_, .letter (by decide) rfl htext⟩
  · have hascii : ∀ b : UInt8, b < 32 → b ≤ 0x7f := forall_byte (by decide)
    exact ⟨_, .control (hascii b hlow) htext⟩
  · exact ⟨_, .byte hquote hslash htext⟩

theorem flatMap_dumpByte_spelled (text : Bytes) : ∃ decoded, Spelled (text.flatMap dumpByte) decoded := by
  induction text with
  | nil => exact ⟨[], .nil⟩
  | cons b text ih =>
    rw [List.flatMap_cons]
    exact dumpByte_spelled b ih

/-- What a member holds: a string, or a value without quotes. -/
def DumpValue (value : Bytes) : Prop := (∃ text, value = dumpString text) ∨ ∀ b ∈ value, b ≠ quote

/-- Behind its first byte no key stands in a member. -/
theorem misses_memberTail (hkey : PlainKey key) (hother : ∀ b ∈ other, b ≠ quote) (hvalue : DumpValue value)
    (rest : Bytes) : Misses key rest (other ++ quote :: colon :: space :: (value ++ [comma, space])) := by
  have hsep : Separates comma := ⟨by decide, by decide⟩
  refine Misses.append (misses_plain hother) ⟨not_keyAt_end hkey (.inl rfl), not_keyAt_byte (by decide),
    not_keyAt_byte (by decide), Misses.append ?_ (misses_plain (by decide))⟩
  rcases hvalue with ⟨text, rfl⟩ | hplain
  · obtain ⟨decoded, hspelled⟩ := flatMap_dumpByte_spelled text
    have hclose : Misses key (comma :: space :: rest) [quote] :=
      ⟨not_keyAt_end hkey (.inr (.inl rfl)), trivial⟩
    have hinner : Misses key (quote :: comma :: space :: rest) (text.flatMap dumpByte) :=
      misses_spelled hkey hspelled hsep
    refine ⟨?_, hinner.append hclose⟩
    have hopen : ¬ KeyAt key (quote :: (text.flatMap dumpByte ++ quote :: comma :: space :: rest)) :=
      not_keyAt_spelled hkey hspelled hsep
    simpa using hopen
  · exact misses_plain hplain

theorem misses_dumpMember (hkey : PlainKey key) (hother : PlainKey other) (hne : key ≠ other)
    (hvalue : DumpValue value) (rest : Bytes) : Misses key rest (dumpMember other value) := by
  refine ⟨?_, misses_memberTail hkey (fun b hb => (hother.plain b hb).1) hvalue rest⟩
  have hhead : ¬ KeyAt key (quote :: (other ++ quote :: (colon :: space :: (value ++ [comma, space]) ++ rest))) :=
    not_keyAt_key hkey hother hne
  simpa using hhead

end Search

section Number

variable {buf key rest : Bytes} {off : ℕ} {b : UInt8}

theorem dropWhile_isSpace_head {b : UInt8} {text more : Bytes} (h : text.dropWhile isSpace = b :: more) :
    isSpace b = false := by
  induction text with
  | nil => cases h
  | cons c text ih =>
    by_cases hc : isSpace c = true
    · rw [List.dropWhile_cons_of_pos hc] at h
      exact ih h
    · rw [List.dropWhile_cons_of_neg hc] at h
      rw [← (List.cons.inj h).1]
      exact Bool.eq_false_iff.mpr hc

theorem parseU64_stop (h : ∀ b, rest.head? = some b → isSpace b = false ∧ isDigit b = false) :
    parseU64 rest rest.length = .ok none := by
  unfold parseU64
  cases rest with
  | nil => rfl
  | cons b rest =>
    obtain ⟨hblank, hdigit⟩ := h b rfl
    rw [skipWhile_eq isSpace (Nat.zero_le _), ok_bind, List.drop_zero,
      List.takeWhile_cons_of_neg (Bool.eq_false_iff.mp hblank)]
    rw [if_neg (by simp)]
    simp [loop, index, hdigit]
    rfl

theorem parseU64_positive (hdigit : isDigit b = true) (hb : b ≠ 48) :
    Returns (parseU64 (b :: rest) (b :: rest).length) fun r => ∃ v, r = some v ∧ v ≠ 0 := by
  have hblank : isSpace b = false := by
    have hall : ∀ b : UInt8, isDigit b = true → isSpace b = false := forall_byte (by decide)
    exact hall b hdigit
  have hvalue : 0 < b.toNat - 48 := by
    have hall : ∀ b : UInt8, isDigit b = true → b ≠ 48 → 0 < b.toNat - 48 := forall_byte (by decide)
    exact hall b hdigit hb
  unfold parseU64
  rw [skipWhile_eq isSpace (Nat.zero_le _), ok_bind, List.drop_zero,
    List.takeWhile_cons_of_neg (Bool.eq_false_iff.mp hblank), if_neg (by simp)]
  refine returns_loop (fun s => (s.1 = 0 ∧ s.2 = (0, false)) ∨ (0 < s.2.1 ∧ s.2.2 = true))
    (fun s => (b :: rest).length - s.1) ?_ (.inl ⟨rfl, rfl⟩) (by simp)
  rintro ⟨i, v, saw⟩ hinv
  dsimp only at hinv ⊢
  have hstep : ∀ digit, 0 < v ∨ 0 < digit → 0 < saturatingAdd (saturatingMul v 10) digit := by
    intro digit hpos
    unfold saturatingAdd saturatingMul
    omega
  rcases hinv with ⟨rfl, hstart⟩ | ⟨hpos, rfl⟩
  · obtain ⟨rfl, rfl⟩ := Prod.mk.inj hstart
    rw [if_pos (by simp), index_eq (by simp), ok_bind, List.getElem_cons_zero, if_pos hdigit, digitVal_eq hdigit,
      ok_bind, returns_pure, roundPost_next]
    refine ⟨.inr ⟨hstep _ (.inr hvalue), rfl⟩, ?_⟩
    simp
  · apply Returns.ite
    · intro hroom
      rw [index_eq hroom, ok_bind]
      apply Returns.ite
      · intro hnext
        rw [digitVal_eq hnext, ok_bind, returns_pure, roundPost_next]
        refine ⟨.inr ⟨hstep _ (.inl hpos), rfl⟩, ?_⟩
        dsimp only
        omega
      · intro _
        exact Returns.pure ⟨v, rfl, by omega⟩
    · intro _
      exact Returns.pure ⟨v, rfl, by omega⟩

/-- The number behind a key that is found. -/
theorem jsonExtractU64_found (h : jsonFindKeyFrom buf buf.length key 0 = .ok (some off)) (hoff : off ≤ buf.length) :
    jsonExtractU64 buf buf.length key =
      parseU64 ((buf.drop off).dropWhile isSpace) ((buf.drop off).dropWhile isSpace).length := by
  have hblanks : ((buf.drop off).takeWhile isSpace).length ≤ buf.length - off := by
    rw [← List.length_drop]
    exact (List.takeWhile_sublist _).length_le
  have hdrop : (buf.drop off).dropWhile isSpace = buf.drop (off + ((buf.drop off).takeWhile isSpace).length) := by
    rw [← List.drop_drop]
    have hsplit : (buf.drop off).drop 0 = (buf.drop off).takeWhile isSpace ++ (buf.drop off).dropWhile isSpace := by
      rw [List.drop_zero, List.takeWhile_append_dropWhile]
    have hback := drop_of_drop hsplit
    rw [Nat.zero_add] at hback
    exact hback.symm
  unfold jsonExtractU64 jsonFindValue
  rw [h, ok_bind]
  dsimp only
  rw [skipWhile_eq isSpace hoff, Except.map_ok, ok_bind]
  dsimp only
  rw [slice_eq (by omega) le_rfl, List.take_length, ok_bind, hdrop, List.length_drop]

theorem jsonExtractU64_missing (h : jsonFindKeyFrom buf buf.length key 0 = .ok none) :
    jsonExtractU64 buf buf.length key = .ok none := by
  unfold jsonExtractU64 jsonFindValue
  rw [h]
  rfl

end Number

section ExitCode

variable {o : ProcessOutput} {limit j : ℕ} {key : Bytes}

def exitKey : Bytes := ascii "exit_code"

/-- Bytes of which every key is plain. -/
def keyByte (b : UInt8) : Bool := b ∉ [quote, backslash, colon, comma, closeBrace]

theorem plainKey_of (hne : key ≠ []) (h : key.all keyByte = true) : PlainKey key := by
  have hbyte : ∀ b ∈ key, b ∉ [quote, backslash, colon, comma, closeBrace] :=
    fun b hb => of_decide_eq_true (List.all_eq_true.mp h b hb)
  obtain ⟨b, more, rfl⟩ := List.exists_cons_of_ne_nil hne
  have hfirst := hbyte b List.mem_cons_self
  simp only [List.mem_cons, List.not_mem_nil, or_false, not_or] at hfirst
  have hplain : ∀ c ∈ b :: more, c ≠ quote ∧ c ≠ backslash := by
    intro c hc
    have hmem := hbyte c hc
    simp only [List.mem_cons, List.not_mem_nil, or_false, not_or] at hmem
    exact ⟨hmem.1, hmem.2.1⟩
  exact ⟨hplain, b, more, rfl, hfirst.2.2.1, hfirst.2.2.2.1, hfirst.2.2.2.2⟩

theorem plainKey_exit : PlainKey exitKey := plainKey_of (by decide) (by decide)

theorem dumpNat_digits (n : ℕ) : ∀ b ∈ dumpNat n, isDigit b = true := by
  unfold dumpNat
  split_ifs with hzero
  · decide
  · intro b hb
    obtain ⟨d, hd, rfl⟩ := List.mem_map.mp hb
    have hlt : d < 10 := Nat.digits_lt_base (by omega) (List.mem_reverse.mp hd)
    exact (digit_value d hlt).1

/-- A number that is not zero begins with a digit that is not zero. -/
theorem dumpNat_head {n : ℕ} (h : n ≠ 0) : ∃ b more, dumpNat n = b :: more ∧ isDigit b = true ∧ b ≠ 48 := by
  have hdigits : Nat.digits 10 n ≠ [] := Nat.digits_ne_nil_iff_ne_zero.mpr h
  have hlast := Nat.getLast_digit_ne_zero 10 h
  have hsplit := List.dropLast_append_getLast hdigits
  refine ⟨UInt8.ofNat (48 + (Nat.digits 10 n).getLast hdigits),
    (Nat.digits 10 n).dropLast.reverse.map fun d => UInt8.ofNat (48 + d), ?_, ?_, ?_⟩
  · rw [dumpNat, if_neg h]
    conv_lhs => rw [← hsplit]
    simp
  all_goals
    have hlt : (Nat.digits 10 n).getLast hdigits < 10 :=
      Nat.digits_lt_base (by omega) (List.getLast_mem hdigits)
  · exact (digit_value _ hlt).1
  · intro hzero
    exact hlast ((digit_value _ hlt).2.2 hzero)

theorem digit_not_quote : ∀ b : UInt8, isDigit b = true → b ≠ quote := forall_byte (by decide)

theorem dumpValue_nat (n : ℕ) : DumpValue (dumpNat n) :=
  .inr fun b hb => digit_not_quote b (dumpNat_digits n b hb)

theorem dumpValue_int (n : ℤ) : DumpValue (dumpInt n) := by
  unfold dumpInt
  split_ifs
  · right
    intro b hb
    rcases List.mem_cons.mp hb with rfl | hb
    · decide
    · exact digit_not_quote b (dumpNat_digits _ b hb)
  · exact dumpValue_nat _

theorem misses_outputFront (o : ProcessOutput) (rest : Bytes) : Misses exitKey rest (outputFront o) := by
  have hplain : ∀ s ∈ [ascii "ok", ascii "process_id", ascii "status", ascii "stdout", ascii "stderr"],
      PlainKey s ∧ exitKey ≠ s := by
    intro s hs
    have hall : ∀ s ∈ [ascii "ok", ascii "process_id", ascii "status", ascii "stdout", ascii "stderr"],
        s ≠ [] ∧ s.all keyByte = true ∧ exitKey ≠ s := by decide
    exact ⟨plainKey_of (hall s hs).1 (hall s hs).2.1, (hall s hs).2.2⟩
  have hmember : ∀ s ∈ [ascii "ok", ascii "process_id", ascii "status", ascii "stdout", ascii "stderr"],
      ∀ value rest, DumpValue value → Misses exitKey rest (dumpMember s value) := by
    intro s hs value rest hvalue
    exact misses_dumpMember plainKey_exit (hplain s hs).1 (hplain s hs).2 hvalue rest
  refine ⟨not_keyAt_byte (by decide), ?_⟩
  refine Misses.append (hmember _ (by simp) _ _ (.inr (by decide))) ?_
  refine Misses.append (hmember _ (by simp) _ _ (.inl ⟨_, rfl⟩)) ?_
  refine Misses.append (hmember _ (by simp) _ _ (.inl ⟨_, rfl⟩)) ?_
  refine Misses.append (hmember _ (by simp) _ _ (.inl ⟨_, rfl⟩)) ?_
  exact hmember _ (by simp) _ _ (.inl ⟨_, rfl⟩)

theorem misses_outputBack (o : ProcessOutput) (rest : Bytes) : Misses exitKey rest (outputBack o) := by
  have hoffset : PlainKey (ascii "next_offset") ∧ exitKey ≠ ascii "next_offset" :=
    ⟨plainKey_of (by decide) (by decide), by decide⟩
  have htruncated : PlainKey (ascii "truncated") ∧ exitKey ≠ ascii "truncated" :=
    ⟨plainKey_of (by decide) (by decide), by decide⟩
  have hbool : ∀ b ∈ colon :: space :: (dumpBool o.truncated ++ [closeBrace]), b ≠ quote := by
    cases o.truncated <;> decide
  refine (misses_dumpMember plainKey_exit hoffset.1 hoffset.2 (dumpValue_nat _) _).append ?_
  refine ⟨?_, Misses.append (misses_plain (by decide)) ⟨not_keyAt_end plainKey_exit (.inl rfl), misses_plain hbool⟩⟩
  have hhead : ¬ KeyAt exitKey (quote :: (ascii "truncated" ++
      quote :: (colon :: space :: (dumpBool o.truncated ++ [closeBrace]) ++ rest))) :=
    not_keyAt_key plainKey_exit htruncated.1 htruncated.2
  simpa using hhead

theorem not_keyAt_missed {skipped : Bytes} (h : Misses key [] skipped) (j : ℕ) : ¬ KeyAt key (skipped.drop j) := by
  rcases Nat.lt_or_ge j skipped.length with hlt | hge
  · simpa using h.drop hlt
  · rw [List.drop_of_length_le hge]
    rintro ⟨blanks, rest, -, heq⟩
    cases heq

/-- The value of the member `exit_code`. -/
def exitValue : ExitCode → Option Bytes
  | .absent => none
  | .null => some (ascii "null")
  | .code n => some (dumpInt n)

theorem exitMember_eq (code : ExitCode) :
    exitMember code = ((exitValue code).map (dumpMember exitKey)).getD [] := by
  cases code <;> rfl

theorem exitValue_dump {value : Bytes} (h : exitValue o.exitCode = some value) : DumpValue value := by
  cases hcode : o.exitCode with
  | absent => rw [hcode] at h; cases h
  | null =>
    rw [hcode] at h
    rw [← Option.some.inj h]
    exact .inr (by decide)
  | code n =>
    rw [hcode] at h
    rw [← Option.some.inj h]
    exact dumpValue_int n

/-- The key stands in its member alone. -/
theorem keyAt_exit (h : KeyAt exitKey ((processOutputJson o).drop j)) :
    j = (outputFront o).length ∧ ∃ value, exitValue o.exitCode = some value ∧
      (processOutputJson o).drop j = dumpMember exitKey value ++ outputBack o := by
  rcases Nat.lt_or_ge j (outputFront o).length with hlt | hge
  · exact absurd h ((misses_outputFront o _).drop hlt)
  have hdrop : (processOutputJson o).drop j =
      (exitMember o.exitCode ++ outputBack o).drop (j - (outputFront o).length) := by
    rw [processOutputJson, List.drop_append, List.drop_of_length_le hge, List.nil_append]
  rw [hdrop, exitMember_eq] at h
  cases hvalue : exitValue o.exitCode with
  | none =>
    rw [hvalue] at h
    exact absurd h (not_keyAt_missed (misses_outputBack o []) _)
  | some value =>
    rw [hvalue] at h
    cases hoff : j - (outputFront o).length with
    | zero =>
      refine ⟨by omega, value, rfl, ?_⟩
      rw [hdrop, exitMember_eq, hvalue, hoff]
      rfl
    | succ n =>
      rw [hoff] at h
      have htail : Misses exitKey [] (exitKey ++ quote :: colon :: space :: (value ++ [comma, space]) ++ outputBack o) := by
        refine Misses.append ?_ (misses_outputBack o [])
        exact misses_memberTail plainKey_exit (by decide) (exitValue_dump hvalue) _
      exact absurd h (not_keyAt_missed htail n)

/-- What is kept of the value of the member, with what follows it. -/
def keptValue (o : ProcessOutput) (limit : ℕ) (value : Bytes) : Bytes :=
  (space :: (value ++ [comma, space] ++ outputBack o)).take (limit - ((outputFront o).length + 12))

/-- Where the start of the output has the member, its value is read behind the colon. -/
theorem found_exit {off : ℕ} (h : jsonFindKeyFrom ((processOutputJson o).take limit)
    ((processOutputJson o).take limit).length exitKey 0 = .ok (some off)) :
    off ≤ ((processOutputJson o).take limit).length ∧ ∃ value, exitValue o.exitCode = some value ∧
      ((processOutputJson o).take limit).drop off = keptValue o limit value := by
  obtain ⟨i, hfound⟩ := jsonFindKeyFrom_found h
  refine ⟨hfound.ends.skip.2.2.2, ?_⟩
  obtain ⟨blanks, rest, hblanks, hdrop, hoff⟩ := hfound.ends
  have hwhole : KeyAt exitKey ((processOutputJson o).drop i) := by
    refine ⟨blanks, rest ++ (processOutputJson o).drop limit, hblanks, ?_⟩
    have hlt : i < ((processOutputJson o).take limit).length := by
      by_contra hge
      rw [List.drop_of_length_le (Nat.not_lt.mp hge)] at hdrop
      cases hdrop
    conv_lhs => rw [← List.take_append_drop limit (processOutputJson o)]
    rw [List.drop_append_of_le_length (by omega), hdrop]
    simp
  obtain ⟨hi, value, hvalue, hmember⟩ := keyAt_exit hwhole
  refine ⟨value, hvalue, ?_⟩
  have hkept : ((processOutputJson o).take limit).drop i = (dumpMember exitKey value ++ outputBack o).take (limit - i) := by
    rw [List.drop_take, hmember]
  have hblank : blanks = [] := by
    cases blanks with
    | nil => rfl
    | cons b blanks =>
      have hfront : quote :: exitKey ++ quote :: (b :: blanks ++ colon :: rest) <+:
          quote :: exitKey ++ quote :: colon :: space :: (value ++ [comma, space] ++ outputBack o) := by
        rw [← hdrop, hkept]
        refine (List.take_prefix _ _).trans ?_
        simp [dumpMember]
      have htail := (List.prefix_append_right_inj (quote :: exitKey)).mp hfront
      have hb := (List.cons_prefix_cons.mp (List.cons_prefix_cons.mp htail).2).1
      have hspace := hblanks b List.mem_cons_self
      rw [hb] at hspace
      cases hspace
  subst hblank
  have hlength : exitKey.length = 9 := by decide
  have hposition : off = i + 12 := by
    rw [hoff, hlength, List.length_nil]
  have hbehind : (dumpMember exitKey value ++ outputBack o).drop 12 = space :: (value ++ [comma, space] ++ outputBack o) := by
    simp [dumpMember, exitKey, ascii]
  rw [hposition, List.drop_take, ← List.drop_drop, hmember, hbehind, keptValue, hi]

/-- The exit code is positive, and its first digit is among the bytes that the tool result buffer takes. -/
def CodeRead (o : ProcessOutput) : Prop :=
  ∃ n : ℤ, 0 < n ∧ o.exitCode = .code n ∧ (outputFront o).length + 13 < toolResultLimit

theorem dumpInt_positive {n : ℤ} (h : 0 < n) : ∃ b more, dumpInt n = b :: more ∧ isDigit b = true ∧ b ≠ 48 := by
  unfold dumpInt
  rw [if_neg (by omega)]
  exact dumpNat_head (by omega)

theorem digit_not_space : ∀ b : UInt8, isDigit b = true → isSpace b = false := forall_byte (by decide)

theorem keptValue_head {value : Bytes} {b : UInt8} {more : Bytes} (hvalue : value = b :: more)
    (hroom : (outputFront o).length + 13 < limit) (hb : isSpace b = false) :
    ∃ rest, (keptValue o limit value).dropWhile isSpace = b :: rest := by
  obtain ⟨n, hn⟩ : ∃ n, limit - ((outputFront o).length + 12) = n + 2 := ⟨limit - ((outputFront o).length + 14), by omega⟩
  refine ⟨(more ++ [comma, space] ++ outputBack o).take n, ?_⟩
  rw [keptValue, hn, hvalue]
  simp only [List.cons_append, List.take_succ_cons]
  rw [List.dropWhile_cons_of_pos (by decide), List.dropWhile_cons_of_neg (Bool.eq_false_iff.mp hb)]

theorem extract_exitCode_read (h : CodeRead o) :
    Returns (jsonExtractU64 ((processOutputJson o).take toolResultLimit)
      ((processOutputJson o).take toolResultLimit).length exitKey) fun r => ∃ v, r = some v ∧ v ≠ 0 := by
  obtain ⟨n, hpos, hcode, hroom⟩ := h
  obtain ⟨b, more, hdump, hdigit, hb⟩ := dumpInt_positive hpos
  obtain ⟨r, hr, hspec⟩ := jsonFindKeyFrom_spec ((processOutputJson o).take toolResultLimit) exitKey 0
  cases r with
  | none =>
    refine absurd ?_ (hspec (outputFront o).length (Nat.zero_le _))
    obtain ⟨k, hk⟩ : ∃ k, toolResultLimit - (outputFront o).length = k + 12 :=
      ⟨toolResultLimit - (outputFront o).length - 12, by omega⟩
    refine ⟨[], (space :: (dumpInt n ++ [comma, space] ++ outputBack o)).take k, by simp, ?_⟩
    have hdrop : (processOutputJson o).drop (outputFront o).length = dumpMember exitKey (dumpInt n) ++ outputBack o := by
      rw [processOutputJson, List.drop_left, hcode]
      rfl
    rw [List.drop_take, hdrop, hk]
    simp [dumpMember, exitKey, ascii]
  | some off =>
    obtain ⟨hoff, value, hvalue, hkept⟩ := found_exit hr
    rw [jsonExtractU64_found hr hoff, hkept]
    rw [hcode] at hvalue
    obtain rfl : dumpInt n = value := Option.some.inj hvalue
    obtain ⟨rest, hrest⟩ := keptValue_head hdump hroom (digit_not_space b hdigit)
    rw [hrest]
    exact parseU64_positive hdigit hb

/-- Any other exit code but zero is not read at all. -/
theorem extract_exitCode_lost (hzero : o.exitCode ≠ .code 0) (h : ¬ CodeRead o) :
    jsonExtractU64 ((processOutputJson o).take toolResultLimit)
      ((processOutputJson o).take toolResultLimit).length exitKey = .ok none := by
  obtain ⟨r, hr, -⟩ := jsonFindKeyFrom_spec ((processOutputJson o).take toolResultLimit) exitKey 0
  cases r with
  | none => exact jsonExtractU64_missing hr
  | some off =>
    obtain ⟨hoff, value, hvalue, hkept⟩ := found_exit hr
    rw [jsonExtractU64_found hr hoff, hkept]
    apply parseU64_stop
    by_cases hroom : (outputFront o).length + 13 < toolResultLimit
    · obtain ⟨b, more, hhead, hspace, hdigit⟩ : ∃ b more, value = b :: more ∧ isSpace b = false ∧ isDigit b = false := by
        cases hcode : o.exitCode with
        | absent => rw [hcode] at hvalue; cases hvalue
        | null =>
          rw [hcode] at hvalue
          exact ⟨110, ascii "ull", (Option.some.inj hvalue).symm, by decide, by decide⟩
        | code n =>
          have hneg : n < 0 := by
            by_contra hge
            have hne : n ≠ 0 := by
              rintro rfl
              exact hzero hcode
            exact h ⟨n, by omega, hcode, hroom⟩
          rw [hcode] at hvalue
          refine ⟨45, dumpNat n.natAbs, ?_, by decide, by decide⟩
          rw [← Option.some.inj hvalue, dumpInt, if_pos hneg]
      obtain ⟨rest, hrest⟩ := keptValue_head hhead hroom hspace
      rw [hrest]
      intro c hc
      rw [← Option.some.inj hc]
      exact ⟨hspace, hdigit⟩
    · have hnone : (keptValue o toolResultLimit value).dropWhile isSpace = [] := by
        obtain hn | hn : toolResultLimit - ((outputFront o).length + 12) = 0 ∨
            toolResultLimit - ((outputFront o).length + 12) = 1 := by omega
        · rw [keptValue, hn]
          rfl
        · rw [keptValue, hn]
          rfl
      rw [hnone]
      intro b hb
      cases hb

end ExitCode

section Phrases

variable {key value text rest : Bytes}

/-- A key with a colon and something else than a blank directly behind it. -/
def TightKeyAt (key text : Bytes) : Prop := ∃ d rest, d ≠ space ∧ text = quote :: (key ++ quote :: colon :: d :: rest)

theorem TightKeyAt.keyAt (h : TightKeyAt key text) : KeyAt key text := by
  obtain ⟨d, rest, -, rfl⟩ := h
  exact ⟨[], d :: rest, by simp, rfl⟩

theorem TightKeyAt.append (h : TightKeyAt key text) (more : Bytes) : TightKeyAt key (text ++ more) := by
  obtain ⟨d, rest, hd, rfl⟩ := h
  exact ⟨d, rest ++ more, hd, by simp⟩

/-- No key stands in what is skipped without a blank behind its colon. -/
def Spaced (rest skipped : Bytes) : Prop :=
  ∀ j < skipped.length, ∀ key, PlainKey key → ¬ TightKeyAt key ((skipped ++ rest).drop j)

theorem spaced_of_misses {skipped : Bytes} (h : ∀ key, PlainKey key → Misses key rest skipped) : Spaced rest skipped :=
  fun _ hj key hkey htight => (h key hkey).drop hj htight.keyAt

theorem Spaced.append {front back : Bytes} (hfront : Spaced (back ++ rest) front) (hback : Spaced rest back) :
    Spaced rest (front ++ back) := by
  intro j hj key hkey
  rw [List.length_append] at hj
  rw [List.append_assoc]
  rcases Nat.lt_or_ge j front.length with hlt | hge
  · exact hfront j hlt key hkey
  · rw [List.drop_append, List.drop_of_length_le hge, List.nil_append]
    exact hback _ (by omega) key hkey

/-- A member whose value follows its colon and a blank. -/
theorem spaced_member {other tail : Bytes} (hother : PlainKey other)
    (h : ∀ key, PlainKey key → Misses key rest (other ++ quote :: colon :: space :: tail)) :
    Spaced rest (quote :: (other ++ quote :: colon :: space :: tail)) := by
  intro j hj key hkey htight
  cases j with
  | zero =>
    obtain ⟨d, more, hd, heq⟩ := htight
    have hinner : key ++ quote :: (colon :: d :: more) = other ++ quote :: (colon :: space :: (tail ++ rest)) := by
      have htail := (List.cons.inj heq).2.symm
      simpa using htail
    have hafter := (spelled_quote (spelled_self hother.plain) hkey.plain hinner).2
    exact hd (List.cons.inj (List.cons.inj hafter).2).1
  | succ j =>
    rw [List.length_cons] at hj
    exact (h key hkey).drop (Nat.lt_of_succ_lt_succ hj) htight.keyAt

theorem spaced_dumpMember {other : Bytes} (hother : PlainKey other) (hvalue : DumpValue value) :
    Spaced rest (dumpMember other value) :=
  spaced_member hother fun _ hkey => misses_memberTail hkey (fun b hb => (hother.plain b hb).1) hvalue rest

theorem spaced_processOutput (o : ProcessOutput) : Spaced [] (processOutputJson o) := by
  have hplain : ∀ s ∈ [ascii "ok", ascii "process_id", ascii "status", ascii "stdout", ascii "stderr", exitKey,
      ascii "next_offset", ascii "truncated"], PlainKey s := by
    intro s hs
    have hall : ∀ s ∈ [ascii "ok", ascii "process_id", ascii "status", ascii "stdout", ascii "stderr", exitKey,
        ascii "next_offset", ascii "truncated"], s ≠ [] ∧ s.all keyByte = true := by decide
    exact plainKey_of (hall s hs).1 (hall s hs).2
  have hstring : ∀ text, DumpValue (dumpString text) := fun text => .inl ⟨text, rfl⟩
  have hexit : ∀ rest, Spaced rest (exitMember o.exitCode) := by
    intro rest
    rw [exitMember_eq]
    cases hvalue : exitValue o.exitCode with
    | none => exact fun j hj => absurd hj (Nat.not_lt_zero j)
    | some value => exact spaced_dumpMember (hplain _ (by simp)) (exitValue_dump hvalue)
  have hopen : ∀ rest, Spaced rest [openBrace] :=
    fun rest => spaced_of_misses fun key _ => misses_plain (by decide)
  have hlast : Spaced [] (quote :: (ascii "truncated" ++ quote :: colon :: space :: (dumpBool o.truncated ++ [closeBrace]))) := by
    apply spaced_member (hplain _ (by simp))
    intro key hkey
    have hbool : ∀ b ∈ colon :: space :: (dumpBool o.truncated ++ [closeBrace]), b ≠ quote := by
      cases o.truncated <;> decide
    exact Misses.append (misses_plain (by decide)) ⟨not_keyAt_end hkey (.inl rfl), misses_plain hbool⟩
  have hback : Spaced [] (outputBack o) := Spaced.append (spaced_dumpMember (hplain _ (by simp)) (dumpValue_nat _)) hlast
  have hfront : ∀ rest, Spaced rest (outputFront o) := by
    intro rest
    refine (hopen _).append ?_
    refine Spaced.append (spaced_dumpMember (hplain _ (by simp)) (.inr (by decide))) ?_
    refine Spaced.append (spaced_dumpMember (hplain _ (by simp)) (hstring _)) ?_
    refine Spaced.append (spaced_dumpMember (hplain _ (by simp)) (hstring _)) ?_
    refine Spaced.append (spaced_dumpMember (hplain _ (by simp)) (hstring _)) ?_
    exact spaced_dumpMember (hplain _ (by simp)) (hstring _)
  exact (hfront _).append ((hexit _).append hback)

theorem asciiLower_mark : ∀ b : UInt8, (asciiLower b = quote → b = quote) ∧ (asciiLower b = colon → b = colon) ∧
    (asciiLower b ≠ space → b ≠ space) ∧ (97 ≤ asciiLower b ∧ asciiLower b ≤ 122 → keyByte b = true) :=
  forall_byte (by decide)

/-- A phrase of a member whose value begins directly behind the colon is nowhere in the output. -/
theorem phrase_absent (o : ProcessOutput) (limit : ℕ) {name more : Bytes} {d : UInt8} (hne : name ≠ [])
    (hname : ∀ b ∈ name, 97 ≤ asciiLower b ∧ asciiLower b ≤ 122) (hd : asciiLower d ≠ space) :
    containsAsciiPhrase ((processOutputJson o).take limit) (quote :: (name ++ quote :: colon :: d :: more)) = false := by
  rw [Bool.eq_false_iff]
  intro hcontains
  obtain ⟨-, hany⟩ := of_decide_eq_true hcontains
  obtain ⟨tail, htail, hmatch⟩ := List.any_eq_true.mp hany
  obtain ⟨back, hback⟩ := of_decide_eq_true hmatch
  have hmark := asciiLower_mark
  simp only [List.map_cons, List.map_append, List.cons_append, List.append_assoc] at hback
  obtain ⟨open', tail₁, rfl, hopen, hback⟩ := List.map_eq_cons_iff.mp hback.symm
  obtain ⟨key, tail₂, rfl, hkey, hback⟩ := List.map_eq_append_iff.mp hback
  obtain ⟨close, tail₃, rfl, hclose, hback⟩ := List.map_eq_cons_iff.mp hback
  obtain ⟨mark, tail₄, rfl, hcolon, hback⟩ := List.map_eq_cons_iff.mp hback
  obtain ⟨first, tail₅, rfl, hfirst, hback⟩ := List.map_eq_cons_iff.mp hback
  obtain rfl := (hmark open').1 hopen
  obtain rfl := (hmark close).1 hclose
  obtain rfl := (hmark mark).2.1 hcolon
  have hplain : PlainKey key := by
    apply plainKey_of
    · rintro rfl
      exact hne (List.map_eq_nil_iff.mp hkey.symm)
    · rw [List.all_eq_true]
      intro b hb
      have hmem : asciiLower b ∈ name.map asciiLower := by
        rw [← hkey]
        exact List.mem_map_of_mem hb
      obtain ⟨c, hc, hlower⟩ := List.mem_map.mp hmem
      apply (hmark b).2.2.2
      rw [← hlower]
      exact hname c hc
  have htight : TightKeyAt key (quote :: (key ++ quote :: colon :: first :: tail₅)) := by
    refine ⟨first, tail₅, (hmark first).2.2.1 ?_, rfl⟩
    rw [hfirst]
    exact hd
  obtain ⟨skipped, hskipped⟩ := (List.mem_tails _ _).mp htail
  have hwhole : processOutputJson o = skipped ++ (quote :: (key ++ quote :: colon :: first :: tail₅) ++
      (processOutputJson o).drop limit) := by
    rw [← List.append_assoc, hskipped, List.take_append_drop]
  have hlt : skipped.length < (processOutputJson o).length := by
    rw [hwhole]
    simp
  apply spaced_processOutput o skipped.length hlt key hplain
  rw [List.append_nil, hwhole, List.drop_left]
  exact htight.append _

end Phrases

section Honest

/-- The output says that the run succeeded only when it did: where the exit code is not zero, the summary that
is retained is not the one of a success, and the run has to be recovered. -/
def OutcomeRead (o : ProcessOutput) : Prop :=
  ∀ result, captureRawResponseBody (processOutputJson o) = .ok result → o.exitCode ≠ .code 0 →
    (∀ m next, noteToolResult (ascii "read_process_output") result m = .ok next →
      ¬ ascii "Compacted successful" <+: (next.slot .execution).summary) ∧
    ∀ c : PromptContext, c.toolResult = result → latestToolResultRequiresExecutionRecovery c = .ok true

variable {o : ProcessOutput} {result : Bytes}

theorem trimText_eq {b c : UInt8} {middle : Bytes} (hb : isSpace b = false) (hc : isSpace c = false) :
    trimText (b :: (middle ++ [c])) = .ok (b :: (middle ++ [c])) := by
  have hlast : index (b :: (middle ++ [c])) (middle.length + 1) = .ok c := by
    rw [index_eq (by simp)]
    simp
  have hend : trimEnd (b :: (middle ++ [c])) 0 (middle.length + 2) = .ok (middle.length + 2) := by
    unfold trimEnd
    rw [loop, if_pos (by omega), sub, if_pos (by omega), ok_bind]
    have hindex : middle.length + 2 - 1 = middle.length + 1 := by omega
    rw [hindex, hlast, ok_bind, if_neg (Bool.eq_false_iff.mp hc)]
    rfl
  have hlength : (b :: (middle ++ [c])).length = middle.length + 2 := by simp
  unfold trimText
  rw [skipWhile_eq isSpace (Nat.zero_le _), List.drop_zero, List.takeWhile_cons_of_neg (Bool.eq_false_iff.mp hb),
    ok_bind, hlength]
  rw [List.length_nil, Nat.add_zero, hend, ok_bind, slice_eq (Nat.zero_le _) (by omega), List.drop_zero,
    List.take_of_length_le (by omega)]

/-- The answer begins and ends with a brace. -/
theorem processOutputJson_braces (o : ProcessOutput) :
    ∃ middle, processOutputJson o = openBrace :: (middle ++ [closeBrace]) := by
  have hfront : ∃ front, outputFront o = openBrace :: front := ⟨_, rfl⟩
  have hback : ∃ back, outputBack o = back ++ [closeBrace] := by
    refine ⟨dumpMember (ascii "next_offset") (dumpNat o.nextOffset) ++
      (quote :: (ascii "truncated" ++ quote :: colon :: space :: dumpBool o.truncated)), ?_⟩
    simp [outputBack]
  obtain ⟨front, hfront⟩ := hfront
  obtain ⟨back, hback⟩ := hback
  refine ⟨front ++ (exitMember o.exitCode ++ back), ?_⟩
  rw [processOutputJson, hfront, hback]
  simp

theorem capture_processOutput (o : ProcessOutput) :
    captureRawResponseBody (processOutputJson o) = .ok ((processOutputJson o).take toolResultLimit) := by
  obtain ⟨middle, hmiddle⟩ := processOutputJson_braces o
  unfold captureRawResponseBody
  rw [hmiddle, trimText_eq (by decide) (by decide)]
  rfl

/-- The summary of a result of the tool that reads outputs. -/
theorem noteToolResult_summary {m next : Memory} (h : noteToolResult (ascii "read_process_output") result m = .ok next) :
    ∃ state summary detail, retained .execution (ascii "read_process_output") result = .ok (state, summary, detail) ∧
      (next.slot .execution).summary = copyUtf8Prefix memorySummaryMax summary := by
  have hslot : toolKindSlot (ascii "read_process_output") = some .execution := by decide
  unfold noteToolResult at h
  simp only [hslot] at h
  cases hretained : retained .execution (ascii "read_process_output") result with
  | error trap => rw [hretained] at h; cases h
  | ok kept =>
    obtain ⟨state, summary, detail⟩ := kept
    rw [hretained] at h
    refine ⟨state, summary, detail, rfl, ?_⟩
    rw [← Except.ok.inj h]
    simp [setSlot]

theorem prefix_fillBuffer {lead : Bytes} {pieces : List Bytes} {first : Bytes} {capacity : ℕ}
    (h : lead <+: copyUtf8Prefix capacity (fillBuffer capacity (first :: pieces))) : lead <+: first ∨ first <+: lead := by
  have hwhole : lead <+: first ++ pieces.flatten := by
    refine h.trans ((List.take_prefix _ _).trans ?_)
    rw [fillBuffer_eq]
    exact List.take_prefix _ _
  exact List.prefix_or_prefix_of_prefix hwhole (List.prefix_append _ _)

theorem take_processOutput_ne (o : ProcessOutput) : (processOutputJson o).take toolResultLimit ≠ [] := by
  obtain ⟨middle, hmiddle⟩ := processOutputJson_braces o
  rw [hmiddle]
  exact nofun

/-- Only the exit code that is read decides about the recovery. -/
theorem recovery_eq {c : PromptContext} {code : Option ℕ} (hc : c.toolResult = (processOutputJson o).take toolResultLimit)
    (hcode : jsonExtractU64 ((processOutputJson o).take toolResultLimit)
      ((processOutputJson o).take toolResultLimit).length exitKey = .ok code) :
    latestToolResultRequiresExecutionRecovery c = .ok (decide (code.getD 0 ≠ 0)) := by
  have htimed : containsAsciiPhrase ((processOutputJson o).take toolResultLimit)
      (ascii "\"status\":\"timed_out\"") = false :=
    phrase_absent o toolResultLimit (by decide : ascii "status" ≠ []) (by decide) (by decide)
  have hfailed : containsAsciiPhrase ((processOutputJson o).take toolResultLimit) (ascii "\"ok\":false") = false :=
    phrase_absent o toolResultLimit (by decide : ascii "ok" ≠ []) (by decide) (by decide)
  have hkey : ascii "exit_code" = exitKey := rfl
  unfold latestToolResultRequiresExecutionRecovery
  rw [hc, if_neg (take_processOutput_ne o), hkey, hcode, ok_bind, htimed, hfailed, Bool.or_false, Bool.or_false]
  rfl

/-- The summary of a result with an exit code that is read and not zero. -/
theorem retained_failed {kept : MemoryState × Bytes × Bytes} {v : ℕ} (hv : v ≠ 0)
    (hcode : jsonExtractU64 result result.length (ascii "exit_code") = .ok (some v))
    (h : retained .execution (ascii "read_process_output") result = .ok kept) :
    ∃ first pieces, kept.2.1 = fillBuffer memorySummaryMax (first :: pieces) ∧
      (first = ascii "Retained " ∨
        first = ascii "Compacted failed execution result from read_process_output (exit_code=") := by
  unfold retained compactToolResultIfNeeded at h
  by_cases hcompact : shouldCompact (ascii "read_process_output") result = true
  · have hsearch : startsWithTool (ascii "read_process_output") (ascii "search_web") = false := by decide
    have hfetch : startsWithTool (ascii "read_process_output") (ascii "fetch_url") = false := by decide
    have hread : startsWithTool (ascii "read_process_output") (ascii "read_process_output") = true := by decide
    simp only [hcompact, hsearch, hfetch, hread, Bool.not_true, Bool.false_eq_true, if_false, if_true] at h
    unfold buildExecutionCompacted at h
    rw [hcode] at h
    obtain ⟨stdout, hstdout, -⟩ := jsonExtractStringLocal_returns result (ascii "stdout") 256
    obtain ⟨stderr, hstderr, -⟩ := jsonExtractStringLocal_returns result (ascii "stderr") 256
    rw [hstdout, hstderr] at h
    refine ⟨_, [u64ToDec v, ascii ")."], ?_, .inr rfl⟩
    simp only [Except.map_ok, ok_bind, Option.getD_some, if_neg hv] at h
    rw [← Except.ok.inj h]
  · simp only [Bool.not_eq_true] at hcompact
    simp only [hcompact, Bool.not_false, if_true] at h
    have hsummary : kept.2.1 = buildToolSummary (ascii "read_process_output") result := by
      rw [← Except.ok.inj h]
    exact ⟨_, _, hsummary, .inl rfl⟩

/-- The summary of an output whose exit code is read is not the one of a success. -/
theorem summary_failed {m next : Memory} (hread : CodeRead o)
    (h : noteToolResult (ascii "read_process_output") ((processOutputJson o).take toolResultLimit) m = .ok next) :
    ¬ ascii "Compacted successful" <+: (next.slot .execution).summary := by
  intro hprefix
  obtain ⟨state, summary, detail, hretained, hsummary⟩ := noteToolResult_summary h
  obtain ⟨code, hcode, v, rfl, hv⟩ := extract_exitCode_read hread
  obtain ⟨first, pieces, rfl, hfirst⟩ := retained_failed hv hcode hretained
  rw [hsummary] at hprefix
  rcases prefix_fillBuffer hprefix with hlead | hlead
  · rcases hfirst with rfl | rfl
    · exact absurd hlead (by decide)
    · exact absurd hlead (by decide)
  · rcases hfirst with rfl | rfl
    · exact absurd hlead (by decide)
    · exact absurd hlead (by decide)

theorem context_of (result : Bytes) : ∃ c : PromptContext, c.toolResult = result :=
  ⟨{ goal := [], tool := [], toolResult := result, memory := {}, state := {}, history := [] }, rfl⟩

/-- The outcome is read as it was exactly when the exit code is zero or is read at all. -/
theorem outcome_read_iff (o : ProcessOutput) : OutcomeRead o ↔ o.exitCode = .code 0 ∨ CodeRead o := by
  constructor
  · intro h
    by_contra hneither
    rw [not_or] at hneither
    obtain ⟨hzero, hread⟩ := hneither
    obtain ⟨c, hc⟩ := context_of ((processOutputJson o).take toolResultLimit)
    have hrecovers := (h _ (capture_processOutput o) hzero).2 c hc
    rw [recovery_eq hc (extract_exitCode_lost hzero hread)] at hrecovers
    cases hrecovers
  · intro h result hcapture hne
    have hread : CodeRead o := h.resolve_left hne
    obtain rfl : (processOutputJson o).take toolResultLimit = result := by
      rw [capture_processOutput] at hcapture
      exact Except.ok.inj hcapture
    refine ⟨fun m next hnote => summary_failed hread hnote, ?_⟩
    intro c hc
    obtain ⟨code, hcode, v, rfl, hv⟩ := extract_exitCode_read hread
    rw [recovery_eq hc hcode]
    simp [hv]

/-- A process that a signal has ended is taken for one that succeeded. -/
theorem outcome_read_signal : ¬ ∀ o, OutcomeRead o := by
  intro h
  let killed : ProcessOutput :=
    { processId := ascii "p1"
      status := ascii "finished"
      stdout := []
      stderr := []
      exitCode := .code (-9)
      nextOffset := 0
      truncated := false }
  rcases (outcome_read_iff killed).mp (h killed) with hzero | ⟨n, hpos, hcode, -⟩
  · cases hzero
  · have hn : -9 = n := ExitCode.code.inj hcode
    omega

end Honest

end MiniAgentOS.Agent
