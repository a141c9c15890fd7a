import BoredManager.Js.Radix

/-! The UTC date of a day since 1970, by counting years and months down. A date belongs to
one day only. -/
namespace BoredManager.Js

def isLeap (year : Nat) : Bool := year % 4 == 0 && (year % 100 != 0 || year % 400 == 0)

def monthDays (year : Nat) : List Nat :=
  [31, if isLeap year then 29 else 28, 31, 30, 31, 30, 31, 31, 30, 31, 30, 31]

def yearDays (year : Nat) : Nat := (monthDays year).sum

/-- The year and the day in it, of a day counted from the start of a year. -/
def findYear : Nat → Nat → Nat → Nat × Nat
  | 0, year, days => (year, days)
  | fuel+1, year, days =>
    if days < yearDays year then (year, days) else findYear fuel (year + 1) (days - yearDays year)

/-- The month and the day in it, of a day counted from the start of a month. -/
def findMonth : List Nat → Nat → Nat → Nat × Nat
  | [], month, days => (month, days)
  | length :: lengths, month, days =>
    if days < length then (month, days) else findMonth lengths (month + 1) (days - length)

structure UtcDate where
  year : Nat
  month : Nat
  day : Nat
deriving DecidableEq

/-- `getUTCFullYear()`, `getUTCMonth() + 1` and `getUTCDate()` of a day since 1970. -/
def utcDate (days : Nat) : UtcDate :=
  let y := findYear (days / 365 + 1) 1970 days
  let m := findMonth (monthDays y.1) 1 y.2
  ⟨y.1, m.1, m.2 + 1⟩

example : utcDate 19782 = ⟨2024, 2, 29⟩ ∧ utcDate 11016 = ⟨2000, 2, 29⟩ := by decide +kernel

theorem yearDays_ge (year : Nat) : 365 ≤ yearDays year := by
  simp only [yearDays, monthDays, List.sum_cons, List.sum_nil]
  split <;> omega

/-- The days of some years from one on. -/
def yearsDays (year : Nat) : Nat → Nat
  | 0 => 0
  | n+1 => yearDays year + yearsDays (year + 1) n

theorem findYear_spec (fuel year days : Nat) : ∃ n, (findYear fuel year days).1 = year + n ∧
    days = yearsDays year n + (findYear fuel year days).2 := by
  induction fuel generalizing year days with
  | zero => exact ⟨0, rfl, (Nat.zero_add days).symm⟩
  | succ fuel ih =>
    rw [findYear]
    split
    · exact ⟨0, rfl, (Nat.zero_add days).symm⟩
    · obtain ⟨n, hyear, hdays⟩ := ih (year + 1) (days - yearDays year)
      refine ⟨n + 1, by omega, ?_⟩
      rw [yearsDays]
      omega

theorem findYear_lt {fuel days : Nat} (h : days < 365 * fuel) (year : Nat) :
    (findYear fuel year days).2 < yearDays (findYear fuel year days).1 := by
  induction fuel generalizing year days with
  | zero => omega
  | succ fuel ih =>
    rw [findYear]
    split
    · assumption
    · have hlong := yearDays_ge year
      exact ih (by omega) (year + 1)

theorem findMonth_spec (lengths : List Nat) (month days : Nat) :
    ∃ n, (findMonth lengths month days).1 = month + n ∧
      days = (lengths.take n).sum + (findMonth lengths month days).2 := by
  induction lengths generalizing month days with
  | nil => exact ⟨0, rfl, (Nat.zero_add days).symm⟩
  | cons length lengths ih =>
    rw [findMonth]
    split
    · exact ⟨0, rfl, (Nat.zero_add days).symm⟩
    · obtain ⟨n, hmonth, hdays⟩ := ih (month + 1) (days - length)
      refine ⟨n + 1, by omega, ?_⟩
      rw [List.take_succ_cons, List.sum_cons]
      omega

theorem findMonth_lt {lengths : List Nat} {days : Nat} (h : days < lengths.sum) (month : Nat) :
    (findMonth lengths month days).1 < month + lengths.length ∧
      ∃ length ∈ lengths, (findMonth lengths month days).2 < length := by
  induction lengths generalizing month days with
  | nil => simp at h
  | cons length lengths ih =>
    rw [findMonth]
    split
    · rename_i hlt
      exact ⟨by simp, length, List.mem_cons_self, hlt⟩
    · rw [List.sum_cons] at h
      have hrest : days - length < lengths.sum := by omega
      obtain ⟨hmonth, l, hl, hday⟩ := ih hrest (month + 1)
      exact ⟨by rw [List.length_cons]; omega, l, List.mem_cons_of_mem _ hl, hday⟩

theorem utcDate_lt (days : Nat) : (utcDate days).month < 13 ∧ (utcDate days).day < 32 := by
  have hfuel : days < 365 * (days / 365 + 1) := by omega
  have hyear := findYear_lt hfuel 1970
  obtain ⟨hmonth, length, hlength, hday⟩ := findMonth_lt hyear 1
  have hmax : length ≤ 31 := by
    simp only [monthDays, List.mem_cons, List.not_mem_nil, or_false] at hlength
    split at hlength <;> omega
  refine ⟨hmonth, ?_⟩
  simp only [utcDate]
  omega

theorem utcDate_injective : Function.Injective utcDate := by
  intro a b h
  obtain ⟨n, hyear, hdays⟩ := findYear_spec (a / 365 + 1) 1970 a
  obtain ⟨k, hyear', hdays'⟩ := findYear_spec (b / 365 + 1) 1970 b
  simp only [utcDate, UtcDate.mk.injEq] at h
  obtain ⟨hsame, hmonth, hday⟩ := h
  rw [hsame] at hmonth hday
  obtain ⟨i, hi, hrest⟩ := findMonth_spec (monthDays (findYear (b / 365 + 1) 1970 b).1) 1
    (findYear (a / 365 + 1) 1970 a).2
  obtain ⟨j, hj, hrest'⟩ := findMonth_spec (monthDays (findYear (b / 365 + 1) 1970 b).1) 1
    (findYear (b / 365 + 1) 1970 b).2
  obtain rfl : n = k := by omega
  obtain rfl : i = j := by omega
  omega

/-- The days from 1970 to the start of a year. -/
def dayFromYear (year : Int) : Int :=
  365 * (year - 1970) + (year - 1969) / 4 - (year - 1901) / 100 + (year - 1601) / 400

/-- `Date.UTC(year, month, day, hours)`: months count from zero, and what is too large is carried. -/
def dateUTC (year month day hours : Int) : Int :=
  let fullYear := (if 0 ≤ year ∧ year ≤ 99 then 1900 + year else year) + month / 12
  let days := dayFromYear fullYear + ((monthDays fullYear.toNat).take (month % 12).toNat).sum + day - 1
  days * 86400000 + hours * 3600000

example : dateUTC 2024 1 29 23 = 19782 * 86400000 + 23 * 3600000 := by decide +kernel

theorem dayFromYear_succ (year : Nat) :
    dayFromYear (year + 1) = dayFromYear year + yearDays year := by
  simp only [dayFromYear, yearDays, monthDays, isLeap, List.sum_cons, List.sum_nil, Bool.and_eq_true,
    Bool.or_eq_true, beq_iff_eq, bne_iff_ne]
  split <;> omega

theorem dayFromYear_add (year n : Nat) :
    dayFromYear ((year + n : Nat) : Int) = dayFromYear year + yearsDays year n := by
  induction n generalizing year with
  | zero => simp [yearsDays]
  | succ n ih =>
    have hrest := ih (year + 1)
    have hfirst := dayFromYear_succ year
    rw [yearsDays]
    rw [show year + (n + 1) = year + 1 + n by omega]
    push_cast at hrest hfirst ⊢
    omega

/-- The date of a day is read back as the day. -/
theorem dateUTC_utcDate (days hours : Nat) :
    dateUTC (utcDate days).year ((utcDate days).month - 1) (utcDate days).day hours =
      days * 86400000 + hours * 3600000 := by
  have hfuel : days < 365 * (days / 365 + 1) := by omega
  obtain ⟨n, hyear, hdays⟩ := findYear_spec (days / 365 + 1) 1970 days
  obtain ⟨j, hmonth, hrest⟩ := findMonth_spec (monthDays (findYear (days / 365 + 1) 1970 days).1) 1
    (findYear (days / 365 + 1) 1970 days).2
  have hlast := (utcDate_lt days).1
  have hstart := dayFromYear_add 1970 n
  have hepoch : dayFromYear 1970 = 0 := by decide
  simp only [utcDate] at hlast ⊢
  generalize hy : findYear (days / 365 + 1) 1970 days = y at *
  generalize hm : findMonth (monthDays y.1) 1 y.2 = m at *
  have hzero : ((m.1 : Int) - 1) / 12 = 0 := by omega
  have hindex : (((m.1 : Int) - 1) % 12).toNat = j := by omega
  have hyears : dayFromYear y.1 = yearsDays 1970 n := by
    rw [hyear, hstart]
    push_cast
    omega
  rw [dateUTC, if_neg (by omega), hzero, hindex, add_zero, Int.toNat_natCast, hyears]
  generalize (List.take j (monthDays y.1)).sum = passed at hrest ⊢
  push_cast
  omega

/-- `String(n).padStart(2, '0')` of a number with at most two digits. -/
theorem padZero_two {n : Nat} (h : n < 100) : padZero 2 (decimal n) = [48 + n / 10, 48 + n % 10] :=
  (by decide : ∀ n < 100, padZero 2 (decimal n) = [48 + n / 10, 48 + n % 10]) n h

/-- `toISOString()` of milliseconds. -/
def isoText (ms : Nat) : Text :=
  let date := utcDate (ms / 86400000)
  padZero 4 (decimal date.year) ++ js "-" ++ padZero 2 (decimal date.month) ++ js "-" ++
    padZero 2 (decimal date.day) ++ js "T" ++ padZero 2 (decimal (ms / 3600000 % 24)) ++ js ":" ++
    padZero 2 (decimal (ms / 60000 % 60)) ++ js ":" ++ padZero 2 (decimal (ms / 1000 % 60)) ++ js "." ++
    padZero 3 (decimal (ms % 1000)) ++ js "Z"

example : isoText 1700000000123 = js "2023-11-14T22:13:20.123Z" := by decide +kernel

end BoredManager.Js
