import MiniAgentOS.Lib.Checked

/-! Bytes, ASCII classes and the small scanners that the parsers share. A scanner over a buffer
takes the buffer and a length, as in the source, and may look at the bytes below it. -/
namespace MiniAgentOS
open Checked

abbrev Bytes := List UInt8

/-- The bytes of an ASCII literal. -/
def ascii (text : String) : Bytes := text.toList.map fun c => UInt8.ofNat c.toNat

def cr : UInt8 := 13
def lf : UInt8 := 10
def space : UInt8 := 32
def tab : UInt8 := 9
def semicolon : UInt8 := 59

def asciiLower (b : UInt8) : UInt8 := if 65 ≤ b ∧ b ≤ 90 then b + 32 else b

theorem asciiLower_asciiLower (b : UInt8) : asciiLower (asciiLower b) = asciiLower b := by
  unfold asciiLower
  split_ifs with h h'
  · obtain ⟨hlow, hhigh⟩ := h
    have hhigh' := h'.2
    rw [UInt8.le_iff_toNat_le] at hlow hhigh hhigh'
    rw [UInt8.toNat_add] at hhigh'
    simp at hlow hhigh hhigh'
    omega
  · rfl
  · rfl

/-- `is_ascii_digit`. -/
def isDigit (b : UInt8) : Bool := 48 ≤ b && b ≤ 57

def isHex (b : UInt8) : Bool := isDigit b || (97 ≤ asciiLower b && asciiLower b ≤ 102)

def hexVal (b : UInt8) : Checked ℕ :=
  let c := (asciiLower b).toNat
  if 48 ≤ c ∧ c ≤ 57 then sub c 48 else do
    let d ← sub c 97
    add (2 ^ 8) d 10

def isSpace (b : UInt8) : Bool := b == space || b == tab || b == cr || b == lf

def isBlank (b : UInt8) : Bool := b == space || b == tab

def isLineEnd (b : UInt8) : Bool := b == cr || b == lf

def isUrlHostChar (b : UInt8) : Bool :=
  isDigit b || (97 ≤ asciiLower b && asciiLower b ≤ 122) || b == 46 || b == 45

/-- The value of a decimal digit, `b - b'0'`. -/
def digitVal (b : UInt8) : Checked ℕ := sub b.toNat 48

/-- `i < stop && class(buf[i])`. -/
def testAt (cls : UInt8 → Bool) (buf : Bytes) (stop i : ℕ) : Checked Bool :=
  if i < stop then cls <$> index buf i else pure false

/-- `while i < stop && class(buf[i]) { i += 1; }`. -/
def skipWhile (cls : UInt8 → Bool) (buf : Bytes) (stop start : ℕ) : Checked ℕ :=
  loop (fun i =>
    if i < stop then do
      let b ← index buf i
      if cls b then pure (.next (i + 1)) else pure (.done i)
    else pure (.done i)) (stop - start + 1) start

/-- `while end > start && is_space(buf[end - 1]) { end -= 1; }`. -/
def trimEnd (buf : Bytes) (start stop : ℕ) : Checked ℕ :=
  loop (fun stop =>
    if stop > start then do
      let last ← sub stop 1
      let b ← index buf last
      if isSpace b then pure (.next last) else pure (.done stop)
    else pure (.done stop)) (stop - start + 1) stop

/-- Whether the bytes from `i` on are `name`, ignoring the case of letters. Stops at the first
difference. -/
def matchesLower (buf : Bytes) : ℕ → Bytes → Checked Bool
  | _, [] => pure true
  | i, c :: name => do
    let b ← index buf i
    if asciiLower b ≠ asciiLower c then pure false else matchesLower buf (i + 1) name

/-- Whether the bytes from `i` on are `name`. -/
def matchesAt (buf : Bytes) : ℕ → Bytes → Checked Bool
  | _, [] => pure true
  | i, c :: name => do
    let b ← index buf i
    if b ≠ c then pure false else matchesAt buf (i + 1) name

def startsWithAt (buf : Bytes) (len off : ℕ) (pat : Bytes) : Checked Bool :=
  if off + pat.length > len then pure false else matchesAt buf off pat

def startsWith (buf : Bytes) (len : ℕ) (pat : Bytes) : Checked Bool := startsWithAt buf len 0 pat

/-- What holds of the 256 bytes. -/
theorem forall_byte {P : UInt8 → Prop} (h : ∀ n : Fin 256, P (UInt8.ofNat n)) (b : UInt8) : P b := by
  have hb := h ⟨b.toNat, b.toNat_lt⟩
  rwa [UInt8.ofNat_toNat] at hb

section Safety

variable {buf name : Bytes} {i start stop : ℕ}

theorem testAt_returns (cls : UInt8 → Bool) (hstop : stop ≤ buf.length) :
    Returns (testAt cls buf stop i) fun found => found = true → i < stop := by
  rw [testAt, returns_ite, returns_map, returns_pure]
  refine ⟨fun hlt => returns_index (by omega) fun _ _ _ => hlt, fun _ h => ?_⟩
  exact absurd h Bool.false_ne_true

/-- A scan passes over bytes of its class only, and stops at its stop or at another byte. -/
theorem skipWhile_spec (cls : UInt8 → Bool) (hstart : start ≤ stop) (hstop : stop ≤ buf.length) :
    Returns (skipWhile cls buf stop start) fun i => (start ≤ i ∧ i ≤ stop) ∧
      (∀ k, start ≤ k → k < i → ∀ b, buf[k]? = some b → cls b = true) ∧
      (i < stop → ∀ b, buf[i]? = some b → cls b = false) := by
  refine returns_loop
    (fun i => (start ≤ i ∧ i ≤ stop) ∧
      ∀ k, start ≤ k → k < i → ∀ b, buf[k]? = some b → cls b = true)
    (fun i => stop - i) ?_ ⟨⟨le_rfl, hstart⟩, fun k hlow hhigh => by omega⟩ (by omega)
  rintro i ⟨⟨hlow, hhigh⟩, hpassed⟩
  rw [returns_ite]
  refine ⟨fun hlt => ?_, fun hend => ?_⟩
  · rw [returns_bind]
    refine returns_index (by omega) fun b hb => ?_
    rw [returns_ite]
    refine ⟨fun hcls => ?_, fun hcls => ?_⟩
    · rw [returns_pure, roundPost_next]
      refine ⟨⟨⟨by omega, by omega⟩, fun k hk hki c hc => ?_⟩, by omega⟩
      rcases Nat.lt_or_eq_of_le (Nat.le_of_lt_succ hki) with hlt | rfl
      · exact hpassed k hk hlt c hc
      · rw [hb, Option.some.injEq] at hc
        exact hc ▸ hcls
    · rw [returns_pure, roundPost_done]
      refine ⟨⟨hlow, hhigh⟩, hpassed, fun _ c hc => ?_⟩
      rw [hb, Option.some.injEq] at hc
      exact hc ▸ Bool.eq_false_iff.mpr hcls
  · rw [returns_pure, roundPost_done]
    exact ⟨⟨hlow, hhigh⟩, hpassed, fun hlt => absurd hlt hend⟩

theorem skipWhile_returns (cls : UInt8 → Bool) (hstart : start ≤ stop) (hstop : stop ≤ buf.length) :
    Returns (skipWhile cls buf stop start) fun i => start ≤ i ∧ i ≤ stop :=
  (skipWhile_spec cls hstart hstop).mono fun _ h => h.1

theorem skipWhile_eq (cls : UInt8 → Bool) (h : start ≤ buf.length) :
    skipWhile cls buf buf.length start = .ok (start + ((buf.drop start).takeWhile cls).length) := by
  obtain ⟨n, hn⟩ : ∃ n, buf.length - start = n := ⟨_, rfl⟩
  unfold skipWhile
  rw [hn]
  induction n generalizing start with
  | zero =>
    have hend : ¬ start < buf.length := by omega
    rw [loop, if_neg hend, List.drop_of_length_le (by omega)]
    rfl
  | succ n ih =>
    have hlt : start < buf.length := by omega
    rw [loop, if_pos hlt, index_eq hlt, ok_bind, List.drop_eq_getElem_cons hlt, List.takeWhile_cons]
    by_cases hcls : cls buf[start] = true
    · rw [if_pos hcls, if_pos hcls, List.length_cons]
      refine (ih hlt (by omega)).trans ?_
      exact congrArg Except.ok (by rw [Nat.succ_eq_add_one]; omega)
    · rw [if_neg hcls, if_neg hcls]
      rfl

theorem trimEnd_returns (hstart : start ≤ stop) (hstop : stop ≤ buf.length) :
    Returns (trimEnd buf start stop) fun i => start ≤ i ∧ i ≤ stop := by
  refine returns_loop (fun i => start ≤ i ∧ i ≤ stop) (fun i => i - start) ?_ ⟨hstart, le_rfl⟩
    (by omega)
  rintro i ⟨hlow, hhigh⟩
  rw [returns_ite]
  refine ⟨fun hgt => ?_, fun _ => ?_⟩
  · rw [returns_bind, returns_sub, returns_bind]
    refine ⟨by omega, returns_index (by omega) fun b _ => ?_⟩
    rw [returns_ite]
    refine ⟨fun _ => ?_, fun _ => ?_⟩
    · rw [returns_pure, roundPost_next]
      omega
    · rw [returns_pure, roundPost_done]
      omega
  · rw [returns_pure, roundPost_done]
    omega

theorem matchesLower_returns (h : i + name.length ≤ buf.length) :
    Returns (matchesLower buf i name) fun _ => True := by
  induction name generalizing i with
  | nil => exact returns_pure.mpr trivial
  | cons c name ih =>
    rw [List.length_cons] at h
    rw [matchesLower, returns_bind]
    refine returns_index (by omega) fun b _ => ?_
    rw [returns_ite]
    exact ⟨fun _ => returns_pure.mpr trivial, fun _ => ih (by omega)⟩

theorem matchesAt_returns (h : i + name.length ≤ buf.length) :
    Returns (matchesAt buf i name) fun _ => True := by
  induction name generalizing i with
  | nil => exact returns_pure.mpr trivial
  | cons c name ih =>
    rw [List.length_cons] at h
    rw [matchesAt, returns_bind]
    refine returns_index (by omega) fun b _ => ?_
    rw [returns_ite]
    exact ⟨fun _ => returns_pure.mpr trivial, fun _ => ih (by omega)⟩

theorem matchesAt_eq (h : i + name.length ≤ buf.length) :
    matchesAt buf i name = .ok (decide (name <+: buf.drop i)) := by
  induction name generalizing i with
  | nil => rw [decide_eq_true List.nil_prefix, matchesAt]; rfl
  | cons c name ih =>
    rw [List.length_cons] at h
    have hi : i < buf.length := by omega
    rw [matchesAt, index_eq hi, ok_bind, List.drop_eq_getElem_cons hi]
    by_cases hc : buf[i] = c
    · have hiff : c :: name <+: buf[i] :: buf.drop (i + 1) ↔ name <+: buf.drop (i + 1) := by
        rw [List.cons_prefix_cons, and_iff_right hc.symm]
      rw [if_neg (not_not_intro hc), ih (by omega), decide_eq_decide.mpr hiff]
    · have hnot : ¬ c :: name <+: buf[i] :: buf.drop (i + 1) :=
        fun h => hc (List.cons_prefix_cons.mp h).1.symm
      rw [if_pos hc, decide_eq_false hnot]
      rfl

theorem startsWithAt_returns {len off : ℕ} (hlen : len ≤ buf.length) :
    Returns (startsWithAt buf len off name) fun found => found = true → off + name.length ≤ len := by
  rw [startsWithAt, returns_ite]
  refine ⟨fun _ => ?_, fun hfits => ?_⟩
  · rw [returns_pure]
    exact fun h => absurd h Bool.false_ne_true
  · exact (matchesAt_returns (by omega)).mono fun _ _ _ => by omega

theorem isDigit_iff {b : UInt8} : isDigit b ↔ 48 ≤ b.toNat ∧ b.toNat ≤ 57 := by
  rw [isDigit, Bool.and_eq_true, decide_eq_true_eq, decide_eq_true_eq, UInt8.le_iff_toNat_le,
    UInt8.le_iff_toNat_le]
  rfl

theorem digitVal_eq {b : UInt8} (h : isDigit b) : digitVal b = .ok (b.toNat - 48) := by
  rw [digitVal, sub, if_pos (isDigit_iff.mp h).1]

theorem digitVal_returns {b : UInt8} (h : isDigit b) : Returns (digitVal b) fun d => d ≤ 9 := by
  have hbounds := isDigit_iff.mp h
  rw [digitVal_eq h, returns_ok]
  omega

/-- The value of a hexadecimal digit of either case. -/
def hexDigit (b : UInt8) : ℕ :=
  if (asciiLower b).toNat ≤ 57 then (asciiLower b).toNat - 48 else (asciiLower b).toNat - 87

theorem isHex_cases {b : UInt8} (h : isHex b) :
    (48 ≤ (asciiLower b).toNat ∧ (asciiLower b).toNat ≤ 57) ∨
      (97 ≤ (asciiLower b).toNat ∧ (asciiLower b).toNat ≤ 102) := by
  simp only [isHex, isDigit, Bool.or_eq_true, Bool.and_eq_true, decide_eq_true_eq,
    UInt8.le_iff_toNat_le] at h
  rcases h with hdigit | hletter
  · left
    have hnot : ¬ (65 ≤ b ∧ b ≤ 90) := by
      rw [UInt8.le_iff_toNat_le, UInt8.le_iff_toNat_le]
      have hhigh : (57 : UInt8).toNat = 57 := rfl
      have hupper : (65 : UInt8).toNat = 65 := rfl
      omega
    rw [asciiLower, if_neg hnot]
    exact hdigit
  · exact Or.inr hletter

theorem hexDigit_le {b : UInt8} (h : isHex b) : hexDigit b ≤ 15 := by
  unfold hexDigit
  rcases isHex_cases h with hdigit | hletter <;> split_ifs <;> omega

theorem hexVal_eq {b : UInt8} (h : isHex b) : hexVal b = .ok (hexDigit b) := by
  unfold hexVal hexDigit
  dsimp only
  rcases isHex_cases h with hdigit | hletter
  · rw [if_pos hdigit, if_pos hdigit.2, sub, if_pos hdigit.1]
  · have hnot : ¬ (48 ≤ (asciiLower b).toNat ∧ (asciiLower b).toNat ≤ 57) := by omega
    have hgreat : ¬ (asciiLower b).toNat ≤ 57 := by omega
    rw [if_neg hnot, if_neg hgreat, sub, if_pos hletter.1]
    change add _ _ _ = _
    rw [add, if_pos (by omega)]
    congr 1
    omega

end Safety

end MiniAgentOS
