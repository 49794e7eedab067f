import MiniAgentOS.Http.Date
import MiniAgentOS.Lib.Calendar
import MiniAgentOS.Text.FlatObject
import MiniAgentOS.Text.JsonText

/-! A date in its fixed form is read back as its timestamp. -/
namespace MiniAgentOS.Http
open Checked Calendar

section Form

def twoDigits (n : ℕ) : Bytes := [UInt8.ofNat (48 + n / 10), UInt8.ofNat (48 + n % 10)]

def fourDigits (n : ℕ) : Bytes := twoDigits (n / 100) ++ twoDigits (n % 100)

/-- The days of the week. The first of January 1970 was a Thursday. -/
def dayNames : List Bytes :=
  [ascii "Thu", ascii "Fri", ascii "Sat", ascii "Sun", ascii "Mon", ascii "Tue", ascii "Wed"]

def monthNames : List Bytes :=
  [ascii "Jan", ascii "Feb", ascii "Mar", ascii "Apr", ascii "May", ascii "Jun", ascii "Jul", ascii "Aug",
    ascii "Sep", ascii "Oct", ascii "Nov", ascii "Dec"]

def dayName (days : ℕ) : Bytes := dayNames.getD (days % 7) []

def monthName (month : ℕ) : Bytes := monthNames.getD (month - 1) []

/-- An `IMF-fixdate`, as in `Sun, 06 Nov 1994 08:49:37 GMT`. -/
def imfFixdate (t : Moment) : Bytes :=
  dayName t.days ++ 44 :: space :: (twoDigits t.day ++ space :: (monthName t.month ++ space :: (fourDigits t.year ++
    space :: (twoDigits t.hour ++ 58 :: (twoDigits t.min ++ 58 :: (twoDigits t.sec ++ ascii " GMT"))))))

end Form

section Readers

variable {buf rest : Bytes} {i n month : ℕ}

theorem add_lt {bound a b : ℕ} (h : a + b < bound) : add bound a b = .ok (a + b) := if_pos h

theorem mul_lt {bound a b : ℕ} (h : a * b < bound) : mul bound a b = .ok (a * b) := if_pos h

theorem digit_read {d : ℕ} (h : d < 10) : isDigit (UInt8.ofNat (48 + d)) = true ∧
    digitVal (UInt8.ofNat (48 + d)) = .ok d := by
  obtain ⟨hdigit, hvalue, -⟩ := digit_value d h
  have hlow := (isDigit_iff.mp hdigit).1
  refine ⟨hdigit, ?_⟩
  rw [digitVal, sub, if_pos hlow, hvalue]

theorem parse2digits_at (hn : n < 100) (hdrop : buf.drop i = twoDigits n ++ rest) :
    parse2digits buf i = .ok (some (n, i + 2)) := by
  obtain ⟨hi, hindex⟩ := index_of_drop hdrop
  obtain ⟨hi', hindex'⟩ := index_of_drop (@drop_of_drop buf _ i [_] hdrop)
  rw [List.length_singleton] at hi' hindex'
  obtain ⟨hten, htens⟩ := digit_read (show n / 10 < 10 by omega)
  obtain ⟨hone, hones⟩ := digit_read (show n % 10 < 10 by omega)
  have hvalue : n / 10 * 10 + n % 10 = n := by omega
  rw [parse2digits, if_neg (by omega), hindex, ok_bind, hindex', ok_bind, hten, hone, if_neg (by decide), htens,
    ok_bind, hones, ok_bind, mul_lt (by omega), ok_bind, add_lt (by omega), ok_bind, hvalue]
  rfl

theorem parseDigits_step {d v k : ℕ} (hd : d < 10) (hv : v * 10 + d < 2 ^ 16)
    (hdrop : buf.drop i = UInt8.ofNat (48 + d) :: rest) :
    parseDigits buf (k + 1) v i = parseDigits buf k (v * 10 + d) (i + 1) := by
  obtain ⟨hi, hindex⟩ := index_of_drop hdrop
  obtain ⟨hdigit, hvalue⟩ := digit_read hd
  rw [parseDigits, hindex, ok_bind, hdigit, if_neg (by decide), hvalue, ok_bind, mul_lt (by omega), ok_bind,
    add_lt hv, ok_bind]

theorem parse4digits_at (hn : n < 10000) (hdrop : buf.drop i = fourDigits n ++ rest) :
    parse4digits buf i = .ok (some (n, i + 4)) := by
  have hlen := congrArg List.length hdrop
  simp only [fourDigits, twoDigits, List.length_drop, List.length_append, List.length_cons, List.length_nil] at hlen
  have h1 : buf.drop (i + 1) = _ := @drop_of_drop buf _ i [_] hdrop
  have h2 : buf.drop (i + 2) = _ := @drop_of_drop buf _ i [_, _] hdrop
  have h3 : buf.drop (i + 3) = _ := @drop_of_drop buf _ i [_, _, _] hdrop
  have hvalue : (((0 * 10 + n / 100 / 10) * 10 + n / 100 % 10) * 10 + n % 100 / 10) * 10 + n % 100 % 10 = n := by
    omega
  rw [parse4digits, if_neg (by omega), parseDigits_step (by omega) (by omega) hdrop,
    parseDigits_step (by omega) (by omega) h1, parseDigits_step (by omega) (by omega) h2,
    parseDigits_step (by omega) (by omega) h3, hvalue]
  rfl

theorem monthName_read (hlow : 1 ≤ month) (hhigh : month ≤ 12) : ∃ a b c, monthName month = [a, b, c] ∧
    months.lookup [asciiLower a, asciiLower b, asciiLower c] = some month := by
  interval_cases month <;> exact ⟨_, _, _, rfl, by decide⟩

theorem monthName_length (hlow : 1 ≤ month) (hhigh : month ≤ 12) : (monthName month).length = 3 := by
  obtain ⟨a, b, c, hname, -⟩ := monthName_read hlow hhigh
  rw [hname]
  rfl

theorem parseMonth_at (hlow : 1 ≤ month) (hhigh : month ≤ 12) (hdrop : buf.drop i = monthName month ++ rest) :
    parseMonth buf i = .ok (some (month, i + 3)) := by
  obtain ⟨a, b, c, hname, hlookup⟩ := monthName_read hlow hhigh
  rw [hname] at hdrop
  obtain ⟨h0, hindex0⟩ := index_of_drop hdrop
  obtain ⟨h1, hindex1⟩ := index_of_drop (@drop_of_drop buf _ i [a] hdrop)
  obtain ⟨h2, hindex2⟩ := index_of_drop (@drop_of_drop buf _ i [a, b] hdrop)
  simp only [List.length_cons, List.length_nil, Nat.zero_add, Nat.reduceAdd] at h1 h2 hindex1 hindex2
  rw [parseMonth, if_neg (by omega), hindex0, ok_bind, hindex1, ok_bind, hindex2, ok_bind, hlookup]
  rfl

theorem skipOne_at {sep : UInt8} (hdrop : buf.drop i = sep :: rest) : skipOne sep buf i = .ok (i + 1) := by
  obtain ⟨hi, hindex⟩ := index_of_drop hdrop
  rw [skipOne, testAt, if_pos hi, hindex, Except.map_ok, ok_bind, beq_self_eq_true, if_pos rfl]
  rfl

end Readers

section Days

variable {year month : ℕ}

theorem isLeap_iff (year : ℕ) : isLeap year = true ↔ Leap year := by
  simp only [isLeap, Leap, Bool.or_eq_true, Bool.and_eq_true, beq_iff_eq, bne_iff_ne]
  omega

theorem daysBeforeYear_eq (hlow : 1970 ≤ year) (hhigh : year ≤ 9999) :
    daysBeforeYear year = .ok (Calendar.daysBeforeYear year) := by
  have hreturns : Returns (daysBeforeYear year) fun days => days = Calendar.daysBeforeYear year := by
    refine returns_loop (fun s => 1970 ≤ s.1 ∧ s.1 ≤ year ∧ s.2 = Calendar.daysBeforeYear s.1 ∧ s.2 ≤ 366 * (s.1 - 1970))
      (fun s => year - s.1) ?_ ⟨le_rfl, hlow, rfl, Nat.zero_le _⟩ (by dsimp only; omega)
    rintro ⟨y, days⟩ ⟨hy, hmax, hdays, hbound⟩
    dsimp only at hy hmax hdays hbound
    have hlength : (if isLeap y then 366 else 365) = yearLength y := by
      rw [yearLength_eq]
      exact if_congr (isLeap_iff y) rfl rfl
    have hsmall : yearLength y ≤ 366 := by
      rw [yearLength_eq]
      split_ifs <;> omega
    have hsucc := daysBeforeYear_succ hy
    rw [returns_ite]
    refine ⟨fun hlt => ?_, fun hge => ?_⟩
    · rw [hlength, returns_bind, returns_add, returns_bind, returns_add, returns_pure, roundPost_next]
      dsimp only
      omega
    · rw [returns_pure, roundPost_done, hdays]
      exact congrArg _ (by omega)
  obtain ⟨days, hdays, heq⟩ := hreturns
  rw [hdays, heq]

theorem daysBeforeMonth_read (year : ℕ) (hlow : 1 ≤ month) (hhigh : month ≤ 12) :
    daysBeforeMonth year month = .ok (some (Calendar.daysBeforeMonth year month)) := by
  rw [daysBeforeMonth_eq hlow (by omega)]
  have hleap := isLeap_iff year
  unfold daysBeforeMonth
  cases hyear : isLeap year with
  | true =>
    have h := hleap.mp hyear
    interval_cases month <;> simp [h, add]
  | false =>
    have h : ¬ Leap year := fun h => by simp [hleap.mpr h] at hyear
    interval_cases month <;> simp [h, add]

theorem dateToEpoch_eq (t : Moment) (h : t.year ≤ 9999) :
    dateToEpoch t.year t.month t.day t.hour t.min t.sec = .ok (some t.unix) := by
  have hsince := t.since
  have hmonth := t.month_range
  have hday := t.day_range
  have hlength := monthLength_le t.year t.month
  have hhour := t.hour_lt
  have hmin := t.min_lt
  have hsec := t.sec_lt
  obtain ⟨days, hdays, hyears⟩ := daysBeforeYear_returns hsince h
  rw [daysBeforeYear_eq hsince h] at hdays
  obtain rfl := Except.ok.inj hdays
  obtain ⟨r, hr, hmonths⟩ := daysBeforeMonth_returns t.year t.month
  rw [daysBeforeMonth_read t.year hmonth.1 hmonth.2] at hr
  obtain rfl := Except.ok.inj hr
  have hmonths := hmonths _ rfl
  rw [dateToEpoch, if_neg (by omega), daysBeforeYear_eq hsince h, ok_bind,
    daysBeforeMonth_read t.year hmonth.1 hmonth.2, ok_bind]
  dsimp only
  rw [add_lt (by omega), ok_bind, add_lt (by omega), ok_bind, mul_lt (by omega), ok_bind, mul_lt (by omega), ok_bind,
    mul_lt (by omega), ok_bind, add_lt (by omega), ok_bind, add_lt (by omega), ok_bind, add_lt (by omega), ok_bind]
  rfl

end Days

section Dates

theorem dayName_plain (days : ℕ) : (dayName days).length = 3 ∧ ∀ b ∈ dayName days, (b != 44) = true := by
  have hlt := Nat.mod_lt days (show 0 < 7 by decide)
  unfold dayName
  interval_cases days % 7 <;> decide +kernel

theorem digit_not_space : ∀ b : UInt8, isDigit b = true → isSpace b = false := forall_byte (by decide +kernel)

/-- A date in its fixed form is read as its timestamp. -/
theorem parseHttpDate_form (t : Moment) (h : t.year ≤ 9999) : parseHttpDate (imfFixdate t) = .ok (some t.unix) := by
  have hmonth := t.month_range
  have hday := t.day_range
  have hlength := monthLength_le t.year t.month
  have hhour := t.hour_lt
  have hmin := t.min_lt
  have hsec := t.sec_lt
  obtain ⟨hname, hplain⟩ := dayName_plain t.days
  obtain ⟨buf, hbuf⟩ : ∃ buf, imfFixdate t = buf := ⟨_, rfl⟩
  have h0 : buf.drop 0 = dayName t.days ++ 44 :: space :: (twoDigits t.day ++ space :: (monthName t.month ++
      space :: (fourDigits t.year ++ space :: (twoDigits t.hour ++ 58 :: (twoDigits t.min ++
      58 :: (twoDigits t.sec ++ ascii " GMT")))))) := hbuf.symm
  have h3 : buf.drop 3 = _ := hname ▸ drop_of_drop h0
  have h4 : buf.drop 4 = _ := @drop_of_drop buf _ 3 [_] h3
  have h5 : buf.drop 5 = _ := @drop_of_drop buf _ 4 [_] h4
  have h7 : buf.drop 7 = _ := @drop_of_drop buf _ 5 (twoDigits _) h5
  have h8 : buf.drop 8 = _ := @drop_of_drop buf _ 7 [_] h7
  have h11 : buf.drop 11 = _ := monthName_length hmonth.1 hmonth.2 ▸ drop_of_drop h8
  have h12 : buf.drop 12 = _ := @drop_of_drop buf _ 11 [_] h11
  have h16 : buf.drop 16 = _ := @drop_of_drop buf _ 12 (fourDigits _) h12
  have h17 : buf.drop 17 = _ := @drop_of_drop buf _ 16 [_] h16
  have h19 : buf.drop 19 = _ := @drop_of_drop buf _ 17 (twoDigits _) h17
  have h20 : buf.drop 20 = _ := @drop_of_drop buf _ 19 [_] h19
  have h22 : buf.drop 22 = _ := @drop_of_drop buf _ 20 (twoDigits _) h20
  have h23 : buf.drop 23 = _ := @drop_of_drop buf _ 22 [_] h22
  have hlen := congrArg List.length h23
  simp only [List.length_drop, List.length_cons] at hlen
  have hcomma : skipWhile (· != 44) buf buf.length 0 = .ok 3 := by
    rw [skipWhile_eq _ (Nat.zero_le _), h0, List.takeWhile_append_of_pos hplain, List.takeWhile_cons_of_neg (by decide),
      List.append_nil, hname]
  have hblank : skipWhile isSpace buf buf.length 4 = .ok 5 := by
    have hdigit := (digit_read (show t.day / 10 < 10 by omega)).1
    have hstop : isSpace (UInt8.ofNat (48 + t.day / 10)) = false := digit_not_space _ hdigit
    rw [skipWhile_eq _ (by omega), h4, List.takeWhile_cons_of_pos (by decide), twoDigits, List.cons_append,
      List.takeWhile_cons_of_neg (by rw [hstop]; exact Bool.false_ne_true)]
    rfl
  rw [hbuf, parseHttpDate, hcomma, ok_bind, skipOne_at h3, ok_bind, hblank, ok_bind, if_neg (by omega),
    parse2digits_at (by omega) h5, ok_bind]
  dsimp only
  rw [skipOne_at h7, ok_bind, parseMonth_at hmonth.1 hmonth.2 h8, ok_bind]
  dsimp only
  rw [skipOne_at h11, ok_bind, parse4digits_at (by omega) h12, ok_bind]
  dsimp only
  rw [skipOne_at h16, ok_bind, parse2digits_at (by omega) h17, ok_bind]
  dsimp only
  rw [skipOne_at h19, ok_bind, parse2digits_at (by omega) h20, ok_bind]
  dsimp only
  rw [skipOne_at h22, ok_bind, parse2digits_at (by omega) h23, ok_bind]
  exact dateToEpoch_eq t h

/-- Every second up to the end of the year 9999 is read as its timestamp, and the next one as the next number. -/
theorem parseHttpDate_fixdate (t : Moment) (h : t.year ≤ 9999) :
    parseHttpDate (imfFixdate t) = .ok (some t.unix) ∧
      (t.next.year ≤ 9999 → parseHttpDate (imfFixdate t.next) = .ok (some (t.unix + 1))) := by
  constructor
  · exact parseHttpDate_form t h
  · intro hnext
    rw [parseHttpDate_form t.next hnext, t.next_unix]

/-- The last second before the leap day of 2000. -/
def beforeLeapDay : Moment :=
  ⟨2000, 2, 28, 23, 59, 59, Nat.le_add_left 1970 30, ⟨Nat.le_add_left 1 1, Nat.le_add_left 2 10⟩,
    ⟨Nat.le_add_left 1 27, Nat.le_add_left 28 1⟩, Nat.lt_add_one 23, Nat.lt_add_one 59, Nat.lt_add_one 59⟩

theorem parseHttpDate_leapDay : parseHttpDate (imfFixdate beforeLeapDay) = .ok (some 951782399) ∧
    parseHttpDate (imfFixdate beforeLeapDay.next) = .ok (some 951782400) := by
  have hdate := parseHttpDate_fixdate beforeLeapDay (by decide)
  have hunix : beforeLeapDay.unix = 951782399 := by decide +kernel
  rw [hunix] at hdate
  exact ⟨hdate.1, hdate.2 (by decide +kernel)⟩

example : imfFixdate beforeLeapDay = ascii "Mon, 28 Feb 2000 23:59:59 GMT" := by decide +kernel

end Dates

end MiniAgentOS.Http
