import Aioduct.Cache.Headers
import Aioduct.Cookies.Date
import Aioduct.Wire.Gregorian

/-!
# Dates are Gregorian

The formulas of the cache, the cookie jar, the retries and the control file follow the calendar.
-/

namespace Aioduct

open Wire Wire.Gregorian Cookies Nat Cache U64

namespace Retry

/-- `parse_http_date` of `retry.rs` on fields. Before 1970 and day zero are no dates. -/
def convertHttpDate (fields : DateFields) : Option (Option SystemTime) :=
  if fields.month = 0 ∨ 12 ≤ fields.month - 1 ∨ fields.year < 1970 then some none
  else do
    let days ← U64.mul (fields.year - 1970) 365
    let days ← addLeapDays fields.year days
    let days ← U64.add days (daysBeforeMonth.getD (fields.month - 1) 0)
    let days ← addLeapDay fields days
    if fields.day = 0 then some none
    else do
      let days ← U64.add days (fields.day - 1)
      let unixSecs ← secondsToDate fields days
      (SystemTime.unixEpoch.addSecs unixSecs).map some

end Retry

namespace Cli.ControlFile

def daysToDate (days : Nat) : Option (Nat × Nat × Nat) := do
  let z ← U64.add days 719468
  let era := z / 146097
  let doe := z - era * 146097
  let yoe := (doe - doe / 1460 + doe / 36524 - doe / 146096) / 365
  let y := yoe + era * 400
  let doy := doe - (365 * yoe + yoe / 4 - yoe / 100)
  let mp := (5 * doy + 2) / 153
  let d := doy - (153 * mp + 2) / 5 + 1
  let m := if mp < 10 then mp + 3 else mp - 9
  let y := if m ≤ 2 then y + 1 else y
  pure (y, m, d)

end Cli.ControlFile

variable (fields : DateFields)

def Cookies.DateFields.seconds : Nat :=
  dayCount fields.year fields.month fields.day * 86400 + fields.hour * 3600 + fields.min * 60 +
    fields.sec

def Cookies.DateFields.IsDate : Prop :=
  Gregorian.IsDate fields.year fields.month fields.day

def Cookies.DateFields.httpDate : Cache.HttpDate :=
  ⟨fields.year, fields.month, fields.day, fields.hour, fields.min, fields.sec⟩

lemma asU64_natCast {n : Nat} (h : n < 2 ^ 64) : Cache.asU64 n = n := by
  unfold asU64
  omega

variable {fields : DateFields}

lemma secondsSinceEpoch_eq (hs : fields.seconds < 2 ^ 63) :
    Cache.secondsSinceEpoch (dayCount fields.year fields.month fields.day) fields.hour fields.min
      fields.sec = some fields.seconds := by
  unfold DateFields.seconds at hs ⊢
  have hf := lt_trans hs (show 2 ^ 63 < 2 ^ 64 by decide)
  have hm := Nat.lt_of_le_of_lt (le_add_right _ _) hf
  have hh := Nat.lt_of_le_of_lt (le_add_right _ _) hm
  have hd := Nat.lt_of_le_of_lt (le_add_right _ _) hh
  have hc := Nat.lt_of_le_of_lt (Nat.le_mul_of_pos_right _ (by decide)) hd
  rw [secondsSinceEpoch, asU64_natCast hc, mul_of_lt hd, some_bind,
    add_of_lt hh, some_bind, add_of_lt hm, some_bind, add_of_lt hf]

section

variable (h : fields.IsDate)

include h

lemma unixSeconds_eq : unixSeconds fields = fields.seconds := by
  have hl : leapDay fields =
      if 2 ≤ fields.month - 1 then yearLength fields.year - 365 else 0 := by
    have hs : isLeapYear fields.year = isLeap fields.year := by
      rw [Bool.eq_iff_iff]
      simp only [isLeapYear, isLeap, Bool.and_eq_true, Bool.or_eq_true, beq_iff_eq, bne_iff_ne,
        decide_eq_true_eq]
      omega
    rw [leapDay, yearLength, hs]
    cases isLeap fields.year
    · simp
    · grind
  have hy := daysOfYears_eq (fields.year - 1970)
  have hm := daysOfMonths_eq fields.year (fields.month - 1) (by have := h.month; omega)
  have hd : unixDays fields = dayCount fields.year fields.month fields.day := by
    rw [unixDays, dayCount, hl, hm, daysBeforeMonth]
    unfold daysThrough at hy
    omega
  rw [unixSeconds, hd, DateFields.seconds]

lemma retry_convertHttpDate_eq : Retry.convertHttpDate fields = computeUnixTime fields := by
  have hm := h.month
  have hy := h.year
  have hd := h.day.1
  rw [Retry.convertHttpDate, computeUnixTime, if_neg (by omega), if_neg (by omega),
    if_neg (by omega), daysToDate, sub_of_le hy, sub_of_le hd]
  simp only [bind_assoc, some_bind, if_neg (one_le_iff_ne_zero.mp hd)]

lemma daysFromCivil_eq : Cache.daysFromCivil fields.year fields.month fields.day =
    some (dayCount fields.year fields.month fields.day : Int) := by
  have hc := dayCount_eq h
  have hlen := (marchDay_spec h).2
  have hm : (if fields.month ≤ 2 then (fields.year : Int) - 1 else fields.year) =
      marchYear fields.year fields.month := by
    have hy := h.year
    unfold marchYear
    split <;> omega
  have hd : (153 * (if 2 < fields.month then (fields.month : Int) - 3 else fields.month + 9) +
      2).tdiv 5 + fields.day - 1 = marchDay fields.month fields.day := by
    have hday := h.day.1
    unfold marchDay marchMonth
    split <;> rw [Int.tdiv_eq_ediv_of_nonneg (by omega)] <;> omega
  unfold daysFromCivil
  simp only [hm, hd]
  generalize marchYear fields.year fields.month = y at *
  have hdoe := (eraYear_eq (mod_lt y (by decide)) hlen).2
  have hyoe : (y : Int) - (y : Int) / 400 * 400 = (y % 400 : Nat) := by omega
  rw [if_pos (by omega), Int.tdiv_eq_ediv_of_nonneg (by omega), hyoe, asU64_natCast (by omega),
    asU64_natCast (Nat.lt_of_le_of_lt (le_add_left _ _) (lt_trans hdoe (by decide)))]
  change (add (daysOfEra _) _ >>= _) = _
  rw [add_of_lt (by omega), some_bind, asI64, if_pos (by omega)]
  exact congrArg some (by omega)

end

lemma daysToDate_dayCount {year month day : Nat} (h : IsDate year month day)
    (hda : dayCount year month day + 719468 < 2 ^ 64) :
    Cli.ControlFile.daysToDate (dayCount year month day) = some (year, month, day) := by
  have hd : marchDay month day - (153 * marchMonth month + 2) / 5 + 1 = day := by
    have hday := h.day.1
    unfold marchDay
    omega
  have hm : (if marchMonth month < 10 then marchMonth month + 3 else marchMonth month - 9) =
      month := by
    have hmon := h.month
    unfold marchMonth
    split <;> split <;> omega
  have hy : (if month ≤ 2 then marchYear year month + 1 else marchYear year month) = year := by
    have hyea := h.year
    unfold marchYear
    split <;> omega
  obtain ⟨hmp, hlen⟩ := marchDay_spec h
  rw [Cli.ControlFile.daysToDate, add_of_lt hda, dayCount_eq h, some_bind]
  generalize marchYear year month = y at *
  generalize marchDay month day = doy at *
  obtain ⟨hyoe, hdoe⟩ := eraYear_eq (mod_lt y (by decide)) hlen
  have he : (y / 400 * 146097 + daysOfEra (y % 400) + doy) / 146097 = y / 400 := by omega
  have hr : daysOfEra (y % 400) + doy - (365 * (y % 400) + y % 400 / 4 - y % 400 / 100) =
      doy := by
    unfold daysOfEra
    omega
  unfold eraYear at hyoe
  rw [add_assoc] at he ⊢
  simp only [he, Nat.add_sub_cancel_left, hyoe, hr, hmp, hd, hm, Nat.mod_add_div', hy]
  rfl

/-- The cache, the cookie jar and the retries count the seconds of every date from 1970 on as the
calendar does, and the control file finds the date of every day. -/
theorem dates_gregorian :
    (∀ fields : DateFields, fields.IsDate → fields.seconds < 2 ^ 63 →
      computeUnixTime fields = some (some ((fields.seconds : Int) * 10 ^ 9)) ∧
      Retry.convertHttpDate fields = some (some ((fields.seconds : Int) * 10 ^ 9)) ∧
      Cache.convertHttpDate fields.httpDate = some ((fields.seconds : Int) * 10 ^ 9)) ∧
    ∀ days year month day, days + 719468 < 2 ^ 64 →
      (Cli.ControlFile.daysToDate days = some (year, month, day) ↔
        IsDate year month day ∧ dayCount year month day = days) := by
  constructor
  · intro fields h hs
    have hc := computeUnixTime_of_lt h.year h.month h.day.1 (unixSeconds_eq h ▸ hs)
    rw [unixSeconds_eq h] at hc
    refine ⟨hc, (retry_convertHttpDate_eq h).trans hc, ?_⟩
    rw [convertHttpDate, DateFields.httpDate, daysFromCivil_eq h, some_bind,
      secondsSinceEpoch_eq hs, some_bind, addSecs_unixEpoch, if_pos hs]
  intro days year month day hd
  constructor
  · intro hdat
    obtain ⟨y, m, d, h, rfl⟩ := exists_isDate days
    rw [daysToDate_dayCount h hd] at hdat
    cases hdat
    exact ⟨h, rfl⟩
  · rintro ⟨h, rfl⟩
    exact daysToDate_dayCount h hd

end Aioduct
