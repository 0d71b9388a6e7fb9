import Mathlib.Tactic.IntervalCases

/-!
# The Gregorian calendar

Days are counted from 1 January 1970, one year, one month and one day after the other. Both
closed formulas number the months from March on: a leap day ends a year.
-/

namespace Wire.Gregorian

def isLeap (year : Nat) : Bool := year % 400 = 0 ∨ year % 4 = 0 ∧ year % 100 ≠ 0

def yearLength (year : Nat) : Nat := if isLeap year then 366 else 365

def monthLength (year : Nat) : Nat → Nat
  | 2 => if isLeap year then 29 else 28
  | 4 | 6 | 9 | 11 => 30
  | _ => 31

def daysOfYears : Nat → Nat
  | 0 => 0
  | n + 1 => daysOfYears n + yearLength (n + 1970)

def daysOfMonths (year : Nat) : Nat → Nat
  | 0 => 0
  | n + 1 => daysOfMonths year n + monthLength year (n + 1)

structure IsDate (y m d : Nat) : Prop where
  year : 1970 ≤ y
  month : 1 ≤ m ∧ m ≤ 12
  day : 1 ≤ d ∧ d ≤ monthLength y m

def dayCount (year month day : Nat) : Nat :=
  daysOfYears (year - 1970) + daysOfMonths year (month - 1) + (day - 1)

variable (year : Nat)

lemma yearLength_cases :
    yearLength year = 366 ∧ (year % 400 = 0 ∨ year % 4 = 0 ∧ year % 100 ≠ 0) ∨
      yearLength year = 365 ∧ ¬(year % 400 = 0 ∨ year % 4 = 0 ∧ year % 100 ≠ 0) := by
  unfold yearLength isLeap
  simp only [decide_eq_true_eq]
  split <;> simp [*]

lemma monthLength_pos (year month : Nat) : 1 ≤ monthLength year month := by
  unfold monthLength
  split
  · split <;> omega
  all_goals omega

lemma daysOfMonths_twelve : daysOfMonths year 12 = yearLength year := by
  simp only [daysOfMonths, monthLength, yearLength]
  split <;> rfl

/-- Every day has a date: the day after a date is on the next day, the next month or the next
year. -/
lemma exists_isDate (days : Nat) : ∃ year month day, IsDate year month day ∧
    dayCount year month day = days := by
  induction days with
  | zero => exact ⟨1970, 1, 1, ⟨le_rfl, by decide, by decide⟩, rfl⟩
  | succ days ih =>
    obtain ⟨year, month, day, h, rfl⟩ := ih
    obtain ⟨hy, hm, hday⟩ := h
    unfold dayCount
    by_cases hl : day < monthLength year month
    · exact ⟨year, month, day + 1, ⟨hy, hm, by omega⟩, by omega⟩
    obtain ⟨month, rfl⟩ : ∃ m, month = m + 1 := ⟨month - 1, by omega⟩
    have hn : daysOfMonths year (month + 1) = daysOfMonths year month + day := by
      rw [daysOfMonths]
      omega
    by_cases hd : month + 1 = 12
    · refine ⟨year + 1, 1, 1, ⟨by omega, by decide, le_rfl, monthLength_pos _ _⟩, ?_⟩
      have hlen := daysOfMonths_twelve year
      rw [← hd, hn] at hlen
      rw [show year + 1 - 1970 = year - 1970 + 1 by omega, daysOfYears, Nat.sub_add_cancel hy,
        ← hlen, Nat.sub_self, daysOfMonths, Nat.add_sub_cancel]
      omega
    · refine ⟨year, month + 2, 1, ⟨hy, by omega, le_rfl, monthLength_pos _ _⟩, ?_⟩
      rw [show month + 2 - 1 = month + 1 by omega, hn, Nat.add_sub_cancel]
      omega

def daysThrough (year : Nat) : Nat := year * 365 + year / 4 - year / 100 + year / 400

lemma daysThrough_succ : daysThrough (year + 1) = daysThrough year + yearLength (year + 1) := by
  have hf : (year + 1) / 4 = year / 4 + if (year + 1) % 4 = 0 then 1 else 0 := by
    split <;> omega
  have hc : (year + 1) / 100 = year / 100 + if (year + 1) % 100 = 0 then 1 else 0 := by
    split <;> omega
  have he : (year + 1) / 400 = year / 400 + if (year + 1) % 400 = 0 then 1 else 0 := by
    split <;> omega
  unfold daysThrough
  rw [hf, hc, he]
  rcases yearLength_cases (year + 1) with ⟨hlen, hl⟩ | ⟨hlen, hl⟩
  · rw [hlen]
    split <;> split <;> split <;> omega
  · rw [hlen]
    split <;> split <;> split <;> omega

lemma daysOfYears_eq (n : Nat) : daysOfYears n + 719162 = daysThrough (n + 1969) := by
  induction n with
  | zero => rfl
  | succ n ih =>
    rw [Nat.add_right_comm n 1 1969, daysThrough_succ, ← ih, daysOfYears]
    exact Nat.add_right_comm _ _ _

lemma daysOfMonths_eq : ∀ m < 12, daysOfMonths year m =
    [0, 31, 59, 90, 120, 151, 181, 212, 243, 273, 304, 334].getD m 0 +
      if 2 ≤ m then yearLength year - 365 else 0 := by
  intro m hm
  unfold yearLength
  cases hl : isLeap year <;> interval_cases m <;> simp [daysOfMonths, monthLength, hl]

/-- A year that begins in March is the year of its first day. -/
def marchYear (year month : Nat) : Nat := if month ≤ 2 then year - 1 else year

def marchMonth (month : Nat) : Nat := if 2 < month then month - 3 else month + 9

def daysOfEra (years : Nat) : Nat := years * 365 + years / 4 - years / 100

def marchDay (month day : Nat) : Nat := (153 * marchMonth month + 2) / 5 + (day - 1)

variable {year month day : Nat}

lemma dayCount_eq (h : IsDate year month day) : dayCount year month day + 719468 =
    marchYear year month / 400 * 146097 + daysOfEra (marchYear year month % 400) +
      marchDay month day := by
  obtain ⟨hyea, ⟨hf, hl⟩, -⟩ := h
  have he : ∀ y, y / 400 * 146097 + daysOfEra (y % 400) = daysThrough y := by
    unfold daysOfEra daysThrough
    omega
  have ht := daysOfYears_eq (year - 1970)
  have hy := daysThrough_succ (year - 1)
  rw [show year - 1970 + 1969 = year - 1 by omega] at ht
  rw [show year - 1 + 1 = year by omega, ← ht] at hy
  have hlen := yearLength_cases year
  rw [he, dayCount, daysOfMonths_eq _ _ (by omega)]
  unfold marchDay marchYear marchMonth
  interval_cases month <;> simp <;> omega

def eraYear (day : Nat) : Nat := (day - day / 1460 + day / 36524 - day / 146096) / 365

lemma eraYear_mono : Monotone eraYear := by
  refine monotone_nat_of_le_succ fun day => Nat.div_le_div_right ?_
  omega

lemma eraYear_ends : ∀ years < 400, eraYear (daysOfEra years) = years ∧
    eraYear (daysOfEra years + (yearLength (years + 1) - 1)) = years ∧
      daysOfEra years + (yearLength (years + 1) - 1) < 146097 := by decide +kernel

lemma eraYear_eq {years n : Nat} (hy : years < 400) (hn : n < yearLength (years + 1)) :
    eraYear (daysOfEra years + n) = years ∧ daysOfEra years + n < 146097 := by
  obtain ⟨hf, hl, hb⟩ := eraYear_ends years hy
  have hlow := eraYear_mono (Nat.le_add_right (daysOfEra years) n)
  have hh := eraYear_mono (Nat.add_le_add_left (Nat.le_sub_one_of_lt hn) (daysOfEra years))
  omega

/-- The month of a day of a year that began in March, and that the day is in the year. -/
lemma marchDay_spec (h : IsDate year month day) :
    (5 * marchDay month day + 2) / 153 = marchMonth month ∧
      marchDay month day < yearLength (marchYear year month % 400 + 1) := by
  obtain ⟨hyea, ⟨hfir, hl⟩, hd, hlen⟩ := h
  have hy := yearLength_cases year
  have he := yearLength_cases (marchYear year month % 400 + 1)
  have hf : monthLength year 2 = yearLength year - 337 := by
    cases h : isLeap year <;> simp [monthLength, yearLength, h]
  unfold marchDay marchMonth
  interval_cases month
  case «2» =>
    have hp : marchYear year 2 = year - 1 := rfl
    simp
    omega
  all_goals
    simp only [monthLength] at hlen
    simp
    omega

end Wire.Gregorian
