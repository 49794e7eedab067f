import MiniAgentOS.Text.Ascii

/-! `parse_http_date`: the clock set from the `Date` header of a response. -/
namespace MiniAgentOS.Http
open Checked

/-- `parse_2digits`. Returns the value with the new index. -/
def parse2digits (buf : Bytes) (idx : ℕ) : Checked (Option (ℕ × ℕ)) := do
  if idx + 1 ≥ buf.length then pure none
  else
    let b0 ← index buf idx
    let b1 ← index buf (idx + 1)
    if !isDigit b0 || !isDigit b1 then pure none
    else
      let d0 ← digitVal b0
      let d1 ← digitVal b1
      let tens ← mul (2 ^ 8) d0 10
      let v ← add (2 ^ 8) tens d1
      pure (some (v, idx + 2))

/-- The loop of `parse_4digits`, with `n` digits to go. -/
def parseDigits (buf : Bytes) : ℕ → ℕ → ℕ → Checked (Option (ℕ × ℕ))
  | 0, v, idx => pure (some (v, idx))
  | n + 1, v, idx => do
    let b ← index buf idx
    if !isDigit b then pure none
    else
      let d ← digitVal b
      let shifted ← mul (2 ^ 16) v 10
      let v ← add (2 ^ 16) shifted d
      parseDigits buf n v (idx + 1)

def parse4digits (buf : Bytes) (idx : ℕ) : Checked (Option (ℕ × ℕ)) :=
  if idx + 3 ≥ buf.length then pure none else parseDigits buf 4 0 idx

def months : List (Bytes × ℕ) :=
  [(ascii "jan", 1), (ascii "feb", 2), (ascii "mar", 3), (ascii "apr", 4), (ascii "may", 5),
    (ascii "jun", 6), (ascii "jul", 7), (ascii "aug", 8), (ascii "sep", 9), (ascii "oct", 10),
    (ascii "nov", 11), (ascii "dec", 12)]

def parseMonth (buf : Bytes) (idx : ℕ) : Checked (Option (ℕ × ℕ)) := do
  if idx + 2 ≥ buf.length then pure none
  else
    let a ← index buf idx
    let b ← index buf (idx + 1)
    let c ← index buf (idx + 2)
    match months.lookup [asciiLower a, asciiLower b, asciiLower c] with
    | some month => pure (some (month, idx + 3))
    | none => pure none

def isLeap (year : ℕ) : Bool := (year % 4 == 0 && year % 100 != 0) || year % 400 == 0

def daysBeforeMonth (year month : ℕ) : Checked (Option ℕ) :=
  let days : Option ℕ := match month with
    | 1 => some 0
    | 2 => some 31
    | 3 => some 59
    | 4 => some 90
    | 5 => some 120
    | 6 => some 151
    | 7 => some 181
    | 8 => some 212
    | 9 => some 243
    | 10 => some 273
    | 11 => some 304
    | 12 => some 334
    | _ => none
  match days with
  | none => pure none
  | some days => some <$> add (2 ^ 16) days (if isLeap year && month > 2 then 1 else 0)

/-- Days from 1970 to the start of `year`. -/
def daysBeforeYear (year : ℕ) : Checked ℕ :=
  loop (fun (y, days) =>
    if y < year then do
      let days ← add (2 ^ 64) days (if isLeap y then 366 else 365)
      let y ← add (2 ^ 16) y 1
      pure (.next (y, days))
    else pure (.done days)) (year + 1) (1970, 0)

def dateToEpoch (year month day hour min sec : ℕ) : Checked (Option ℕ) := do
  if year < 1970 ∨ month = 0 ∨ month > 12 ∨ day = 0 ∨ day > 31 then pure none
  else
    let days ← daysBeforeYear year
    match ← daysBeforeMonth year month with
    | none => pure none
    | some monthDays =>
      let days ← add (2 ^ 64) days monthDays
      let days ← add (2 ^ 64) days (day - 1)
      let daySecs ← mul (2 ^ 64) days 86400
      let hourSecs ← mul (2 ^ 64) hour 3600
      let minSecs ← mul (2 ^ 64) min 60
      let secs ← add (2 ^ 64) daySecs hourSecs
      let secs ← add (2 ^ 64) secs minSecs
      let secs ← add (2 ^ 64) secs sec
      pure (some secs)

/-- `if i < buf.len() && buf[i] == sep { i += 1; }`. -/
def skipOne (sep : UInt8) (buf : Bytes) (i : ℕ) : Checked ℕ := do
  if ← testAt (· == sep) buf buf.length i then pure (i + 1) else pure i

def parseHttpDate (buf : Bytes) : Checked (Option ℕ) := do
  let i ← skipWhile (· != 44) buf buf.length 0
  let i ← skipOne 44 buf i
  let i ← skipWhile isSpace buf buf.length i
  if i + 16 ≥ buf.length then pure none
  else
    match ← parse2digits buf i with
    | none => pure none
    | some (day, i) =>
      let i ← skipOne space buf i
      match ← parseMonth buf i with
      | none => pure none
      | some (month, i) =>
        let i ← skipOne space buf i
        match ← parse4digits buf i with
        | none => pure none
        | some (year, i) =>
          let i ← skipOne space buf i
          match ← parse2digits buf i with
          | none => pure none
          | some (hour, i) =>
            let i ← skipOne 58 buf i
            match ← parse2digits buf i with
            | none => pure none
            | some (min, i) =>
              let i ← skipOne 58 buf i
              match ← parse2digits buf i with
              | none => pure none
              | some (sec, _) => dateToEpoch year month day hour min sec

section Safety

variable {buf : Bytes} {idx : ℕ}

theorem parse2digits_returns :
    Returns (parse2digits buf idx) fun r => ∀ v i, r = some (v, i) → v ≤ 99 := by
  have hnone : Returns (pure none : Checked (Option (ℕ × ℕ))) fun r =>
      ∀ v i, r = some (v, i) → v ≤ 99 := returns_pure.mpr (by simp)
  rw [parse2digits, returns_ite]
  refine ⟨fun _ => hnone, fun hlt => ?_⟩
  rw [returns_bind]
  refine returns_index (by omega) fun b0 _ => ?_
  rw [returns_bind]
  refine returns_index (by omega) fun b1 _ => ?_
  rw [returns_ite]
  refine ⟨fun _ => hnone, fun hdigits => ?_⟩
  simp only [Bool.or_eq_true, Bool.not_eq_true', not_or, Bool.not_eq_false] at hdigits
  rw [returns_bind]
  refine (digitVal_returns hdigits.1).mono fun d0 h0 => ?_
  rw [returns_bind]
  refine (digitVal_returns hdigits.2).mono fun d1 h1 => ?_
  rw [returns_bind, returns_mul, returns_bind, returns_add, returns_pure]
  refine ⟨by omega, by omega, ?_⟩
  intro v i h
  cases h
  omega

theorem parseDigits_returns (n : ℕ) : ∀ {v idx bound : ℕ}, idx + n ≤ buf.length →
    v + 1 ≤ bound → bound * 10 ^ n ≤ 2 ^ 16 →
    Returns (parseDigits buf n v idx) fun r =>
      ∀ y i, r = some (y, i) → y + 1 ≤ bound * 10 ^ n := by
  induction n with
  | zero =>
    intro v idx bound _ hv _
    rw [parseDigits, returns_pure]
    intro y i h
    cases h
    rwa [pow_zero, mul_one]
  | succ n ih =>
    intro v idx bound hlen hv hbound
    have hpos : 1 ≤ 10 ^ n := Nat.one_le_pow _ _ (by decide)
    have hpow : bound * 10 ^ (n + 1) = bound * 10 * 10 ^ n := by rw [pow_succ]; ring
    have hle : bound * 10 ≤ bound * 10 * 10 ^ n := Nat.le_mul_of_pos_right _ hpos
    rw [hpow] at hbound ⊢
    rw [parseDigits, returns_bind]
    refine returns_index (by omega) fun b _ => ?_
    rw [returns_ite]
    refine ⟨fun _ => returns_pure.mpr (by simp), fun hdigit => ?_⟩
    rw [Bool.not_eq_true', Bool.not_eq_false] at hdigit
    rw [returns_bind]
    refine (digitVal_returns hdigit).mono fun d hd => ?_
    rw [returns_bind, returns_mul, returns_bind, returns_add]
    exact ⟨by omega, by omega, ih (by omega) (by omega) hbound⟩

theorem parse4digits_returns :
    Returns (parse4digits buf idx) fun r => ∀ v i, r = some (v, i) → v ≤ 9999 := by
  rw [parse4digits, returns_ite]
  refine ⟨fun _ => returns_pure.mpr (by simp), fun hlt => ?_⟩
  have hdigits : Returns (parseDigits buf 4 0 idx) fun r => ∀ y i, r = some (y, i) →
      y + 1 ≤ 1 * 10 ^ 4 :=
    parseDigits_returns 4 (by omega) le_rfl (by decide)
  exact hdigits.mono fun r hr v i h => by have := hr v i h; omega

theorem parseMonth_returns : Returns (parseMonth buf idx) fun _ => True := by
  rw [parseMonth, returns_ite]
  refine ⟨fun _ => returns_pure.mpr trivial, fun hlt => ?_⟩
  rw [returns_bind]
  refine returns_index (by omega) fun a _ => ?_
  rw [returns_bind]
  refine returns_index (by omega) fun b _ => ?_
  rw [returns_bind]
  refine returns_index (by omega) fun c _ => ?_
  cases months.lookup [asciiLower a, asciiLower b, asciiLower c] with
  | none => exact returns_pure.mpr trivial
  | some month => exact returns_pure.mpr trivial

theorem daysBeforeYear_returns {year : ℕ} (hlow : 1970 ≤ year) (hyear : year ≤ 9999) :
    Returns (daysBeforeYear year) fun days => days ≤ 366 * 8029 := by
  refine returns_loop (fun s => 1970 ≤ s.1 ∧ s.1 ≤ year ∧ s.2 ≤ 366 * (s.1 - 1970))
    (fun s => year - s.1) ?_ ⟨le_rfl, hlow, Nat.zero_le _⟩ (by dsimp only; omega)
  rintro ⟨y, days⟩ ⟨hy, hmax, hdays⟩
  dsimp only at hy hmax hdays
  have hstep : (if isLeap y then 366 else 365) ≤ 366 := by split_ifs <;> omega
  rw [returns_ite]
  refine ⟨fun hlt => ?_, fun _ => ?_⟩
  · rw [returns_bind, returns_add, returns_bind, returns_add, returns_pure, roundPost_next]
    dsimp only
    omega
  · rw [returns_pure, roundPost_done]
    omega

theorem daysBeforeMonth_returns (year month : ℕ) :
    Returns (daysBeforeMonth year month) fun r => ∀ days, r = some days → days ≤ 335 := by
  have hleap : (if isLeap year && month > 2 then 1 else 0) ≤ 1 := by split_ifs <;> omega
  have hsome : ∀ days, days ≤ 334 →
      Returns (some <$> add (2 ^ 16) days (if isLeap year && month > 2 then 1 else 0))
        fun r => ∀ d, r = some d → d ≤ 335 := by
    intro days hdays
    rw [returns_map, returns_add]
    refine ⟨by omega, ?_⟩
    intro d h
    cases h
    omega
  unfold daysBeforeMonth
  dsimp only
  split
  · exact returns_pure.mpr (by simp)
  · rename_i days hdays
    apply hsome
    split at hdays <;> cases hdays <;> omega

theorem dateToEpoch_returns {year month day hour min sec : ℕ} (hyear : year ≤ 9999)
    (hhour : hour ≤ 99) (hmin : min ≤ 99) (hsec : sec ≤ 99) :
    Returns (dateToEpoch year month day hour min sec) fun _ => True := by
  rw [dateToEpoch, returns_ite]
  refine ⟨fun _ => returns_pure.mpr trivial, fun hvalid => ?_⟩
  rw [returns_bind]
  refine (daysBeforeYear_returns (by omega) hyear).mono fun days hdays => ?_
  rw [returns_bind]
  refine (daysBeforeMonth_returns year month).mono fun r hr => ?_
  cases r with
  | none => exact returns_pure.mpr trivial
  | some monthDays =>
    have hmonth := hr monthDays rfl
    simp only [returns_bind, returns_add, returns_mul, returns_pure, and_true]
    omega

theorem skipOne_returns (sep : UInt8) : Returns (skipOne sep buf idx) fun _ => True := by
  rw [skipOne, returns_bind]
  refine (testAt_returns _ le_rfl).mono fun found _ => ?_
  rw [returns_ite]
  exact ⟨fun _ => returns_pure.mpr trivial, fun _ => returns_pure.mpr trivial⟩

/-- Reading a date from a header never traps, whatever the header says. -/
theorem parseHttpDate_returns (buf : Bytes) : Returns (parseHttpDate buf) fun _ => True := by
  have hnone : Returns (pure none : Checked (Option ℕ)) fun _ => True := returns_pure.mpr trivial
  rw [parseHttpDate, returns_bind]
  refine (skipWhile_returns _ (Nat.zero_le _) le_rfl).mono fun i hi => ?_
  have hcomma : Returns (skipOne 44 buf i) fun i => i ≤ buf.length := by
    rw [skipOne, returns_bind]
    refine (testAt_returns _ le_rfl).mono fun found hfound => ?_
    rw [returns_ite, returns_pure, returns_pure]
    exact ⟨fun h => hfound h, fun _ => hi.2⟩
  rw [returns_bind]
  refine hcomma.mono fun i hi => ?_
  rw [returns_bind]
  refine (skipWhile_returns _ hi le_rfl).mono fun i _ => ?_
  rw [returns_ite]
  refine ⟨fun _ => hnone, fun _ => ?_⟩
  rw [returns_bind]
  refine parse2digits_returns.mono fun r _ => ?_
  rcases r with _ | ⟨day, i⟩
  · exact hnone
  rw [returns_bind]
  refine (skipOne_returns _).mono fun i _ => ?_
  rw [returns_bind]
  refine parseMonth_returns.mono fun r _ => ?_
  rcases r with _ | ⟨month, i⟩
  · exact hnone
  rw [returns_bind]
  refine (skipOne_returns _).mono fun i _ => ?_
  rw [returns_bind]
  refine parse4digits_returns.mono fun r hyear => ?_
  rcases r with _ | ⟨year, i⟩
  · exact hnone
  rw [returns_bind]
  refine (skipOne_returns _).mono fun i _ => ?_
  rw [returns_bind]
  refine parse2digits_returns.mono fun r hhour => ?_
  rcases r with _ | ⟨hour, i⟩
  · exact hnone
  rw [returns_bind]
  refine (skipOne_returns _).mono fun i _ => ?_
  rw [returns_bind]
  refine parse2digits_returns.mono fun r hmin => ?_
  rcases r with _ | ⟨min, i⟩
  · exact hnone
  rw [returns_bind]
  refine (skipOne_returns _).mono fun i _ => ?_
  rw [returns_bind]
  refine parse2digits_returns.mono fun r hsec => ?_
  rcases r with _ | ⟨sec, i⟩
  · exact hnone
  exact dateToEpoch_returns (hyear _ _ rfl) (hhour _ _ rfl) (hmin _ _ rfl) (hsec _ _ rfl)

end Safety

end MiniAgentOS.Http
