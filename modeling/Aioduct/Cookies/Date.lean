import Aioduct.Time
import Aioduct.Wire.Machine

/-!
# Cookie dates

`cookie/date.rs`: three date formats and the conversion to a point in time. `none` is an arithmetic
operation that overflows, `some none` a text that is no date.
-/

namespace Aioduct.Cookies

open Wire Option U64 SystemTime Nat

variable {year secs month : Nat}

structure DateFields where
  year : Nat
  month : Nat
  day : Nat
  hour : Nat
  min : Nat
  sec : Nat

def months : List Bytes :=
  [ascii "Jan", ascii "Feb", ascii "Mar", ascii "Apr", ascii "May", ascii "Jun", ascii "Jul",
    ascii "Aug", ascii "Sep", ascii "Oct", ascii "Nov", ascii "Dec"]

variable (s : Bytes)

def parseMonth : Option Nat := (months.findIdx? (· == s)).map (· + 1)

def parseTime : Option (Nat × Nat × Nat) :=
  match s.splitOn (byte ':') with
  | [hour, min, sec] => do
    pure (← parseUnsigned 64 hour, ← parseUnsigned 64 min, ← parseUnsigned 64 sec)
  | _ => none

def daysBeforeMonth : List Nat := [0, 31, 59, 90, 120, 151, 181, 212, 243, 273, 304, 334]

def isLeapYear (year : Nat) : Bool := year % 4 == 0 && (year % 100 != 0 || year % 400 == 0)

def addLeapDays (year days : Nat) : Option Nat :=
  if 1970 < year then do
    let days ← U64.add days (← U64.sub ((year - 1) / 4) (1969 / 4))
    let days ← U64.sub days (← U64.sub ((year - 1) / 100) (1969 / 100))
    U64.add days (← U64.sub ((year - 1) / 400) (1969 / 400))
  else some days

variable (fields : DateFields)

def addLeapDay (days : Nat) : Option Nat :=
  if 2 < fields.month && isLeapYear fields.year then U64.add days 1 else some days

def daysToDate (index : Nat) : Option Nat := do
  let days ← U64.mul (← U64.sub fields.year 1970) 365
  let days ← addLeapDays fields.year days
  let days ← U64.add days (daysBeforeMonth.getD index 0)
  let days ← addLeapDay fields days
  U64.add days (← U64.sub fields.day 1)

def secondsToDate (days : Nat) : Option Nat := do
  let secs ← U64.mul days 86400
  let secs ← U64.add secs (← U64.mul fields.hour 3600)
  let secs ← U64.add secs (← U64.mul fields.min 60)
  U64.add secs fields.sec

def computeUnixTime : Option (Option SystemTime) :=
  if fields.year < 1970 then some (some SystemTime.unixEpoch)
  else if fields.month = 0 ∨ 12 ≤ fields.month - 1 then some none
  else do
    let days ← daysToDate fields (fields.month - 1)
    let unixSecs ← secondsToDate fields days
    (SystemTime.unixEpoch.addSecs unixSecs).map some

def imfFixdateFields : Option DateFields :=
  match splitWhitespace s with
  | [_, day, month, year, time, zone] =>
    if zone ≠ ascii "GMT" then none
    else do
      let day ← parseUnsigned 64 day
      let month ← parseMonth month
      let year ← parseUnsigned 64 year
      let (hour, min, sec) ← parseTime time
      pure ⟨year, month, day, hour, min, sec⟩
  | _ => none

def rfc850Year (year : Nat) : Nat :=
  if year < 70 then year + 2000 else if year < 100 then year + 1900 else year

def rfc850Fields : Option DateFields := do
  let (_, rest) ← splitOnce (ascii ", ") s
  match splitWhitespace rest with
  | [date, time, zone] =>
    if zone ≠ ascii "GMT" then none
    else
      match date.splitOn (byte '-') with
      | [day, month, year] => do
        let day ← parseUnsigned 64 day
        let month ← parseMonth month
        let year ← parseUnsigned 64 year
        let (hour, min, sec) ← parseTime time
        pure ⟨rfc850Year year, month, day, hour, min, sec⟩
      | _ => none
  | _ => none

def asctimeFields : Option DateFields :=
  match splitWhitespace s with
  | [_, month, day, time, year] => do
    let month ← parseMonth month
    let day ← parseUnsigned 64 day
    let (hour, min, sec) ← parseTime time
    let year ← parseUnsigned 64 year
    pure ⟨year, month, day, hour, min, sec⟩
  | _ => none

def parseFormat (fields : Bytes → Option DateFields) (s : Bytes) : Option (Option SystemTime) :=
  match fields s with
  | none => some none
  | some fields => computeUnixTime fields

def parseImfFixdate : Bytes → Option (Option SystemTime) := parseFormat imfFixdateFields

def parseRfc850 : Bytes → Option (Option SystemTime) := parseFormat rfc850Fields

def parseAsctime : Bytes → Option (Option SystemTime) := parseFormat asctimeFields

def orElseFormat (first : Option (Option SystemTime)) (next : Option (Option SystemTime)) :
    Option (Option SystemTime) :=
  match first with
  | some none => next
  | _ => first

def parseHttpDate : Option (Option SystemTime) :=
  orElseFormat (orElseFormat (parseImfFixdate s) (parseRfc850 s)) (parseAsctime s)

def leapDay : Nat :=
  if 2 < fields.month && isLeapYear fields.year then 1 else 0

def unixDays : Nat :=
  (fields.year - 1970) * 365 + ((fields.year - 1) / 4 - 492) - ((fields.year - 1) / 100 - 19) +
    ((fields.year - 1) / 400 - 4) + daysBeforeMonth.getD (fields.month - 1) 0 + leapDay fields +
    (fields.day - 1)

def unixSeconds : Nat :=
  unixDays fields * 86400 + fields.hour * 3600 + fields.min * 60 + fields.sec

variable {days : Nat} {fields : DateFields} {s : Bytes}

lemma eq_of_addLeapDays {result : Nat} (hy : 1970 ≤ year)
    (h : addLeapDays year days = some result) :
    result = days + ((year - 1) / 4 - 492) - ((year - 1) / 100 - 19) +
      ((year - 1) / 400 - 4) := by
  unfold addLeapDays at h
  split at h
  · simp only [bind, bind_eq_some_iff] at h
    obtain ⟨fourths, hf, added, ha, hundredths, hh, removed, hrem, rest, hr, hres⟩ := h
    rw [add_eq_some hres, (sub_eq_some hr).2, (sub_eq_some hrem).2,
      (sub_eq_some hh).2, add_eq_some ha, (sub_eq_some hf).2]
  · cases h
    omega

lemma addLeapDays_of_lt (hy : 1970 ≤ year) (hd : days + year < 2 ^ 64) :
    addLeapDays year days = some (days + ((year - 1) / 4 - 492) - ((year - 1) / 100 - 19) +
      ((year - 1) / 400 - 4)) := by
  unfold addLeapDays
  split
  · rw [sub_of_le (by omega), sub_of_le (by omega), sub_of_le (by omega)]
    simp only [bind, bind_some]
    rw [add_of_lt (by omega), bind_some, sub_of_le (by omega), bind_some, add_of_lt (by omega)]
  · exact congrArg some (by omega)

lemma eq_of_addLeapDay {result : Nat} (h : addLeapDay fields days = some result) :
    result = days + leapDay fields := by
  unfold addLeapDay at h
  unfold leapDay
  split at h
  next hl =>
    rw [if_pos hl]
    exact add_eq_some h
  next hl =>
    rw [if_neg hl]
    exact (some.inj h).symm

lemma addLeapDay_of_lt (h : days + 1 < 2 ^ 64) :
    addLeapDay fields days = some (days + leapDay fields) := by
  unfold addLeapDay leapDay
  split
  · exact add_of_lt h
  · rfl

lemma eq_of_daysToDate (hyea : 1970 ≤ fields.year)
    (h : daysToDate fields (fields.month - 1) = some days) :
    1 ≤ fields.day ∧ days = unixDays fields := by
  unfold daysToDate at h
  simp only [bind, bind_eq_some_iff] at h
  obtain ⟨years, hy, base, hb, leaps, hl, months, hm, leap, hlea, rest, hr, hd⟩ := h
  obtain ⟨hday, hr⟩ := sub_eq_some hr
  refine ⟨hday, ?_⟩
  rw [add_eq_some hd, eq_of_addLeapDay hlea, add_eq_some hm,
    eq_of_addLeapDays hyea hl, mul_eq_some hb, (sub_eq_some hy).2, hr,
    unixDays]

lemma daysToDate_of_lt (hy : 1970 ≤ fields.year) (hd : 1 ≤ fields.day)
    (h : unixDays fields < 2 ^ 60) :
    daysToDate fields (fields.month - 1) = some (unixDays fields) := by
  unfold unixDays at h ⊢
  unfold daysToDate
  rw [sub_of_le hy, sub_of_le hd]
  simp only [bind, bind_some]
  rw [mul_of_lt (by omega), bind_some, addLeapDays_of_lt hy (by omega),
    bind_some, add_of_lt (by omega), bind_some, addLeapDay_of_lt (by omega),
    bind_some, add_of_lt (by omega)]

lemma eq_of_secondsToDate (h : secondsToDate fields (unixDays fields) = some secs) :
    secs = unixSeconds fields := by
  unfold secondsToDate at h
  simp only [bind, bind_eq_some_iff] at h
  obtain ⟨dayed, hd, hours, hhou, houred, hh, mins, hmin, minned, hm, hs⟩ := h
  rw [add_eq_some hs, add_eq_some hm, mul_eq_some hmin,
    add_eq_some hh, mul_eq_some hhou, mul_eq_some hd, unixSeconds]

lemma secondsToDate_of_lt (h : unixSeconds fields < 2 ^ 64) :
    secondsToDate fields (unixDays fields) = some (unixSeconds fields) := by
  -- every summand and every partial sum is bounded by the whole
  rw [unixSeconds] at h ⊢
  have hm := lt_of_le_of_lt (le_add_right _ _) h
  have hh := lt_of_le_of_lt (le_add_right _ _) hm
  have hd := lt_of_le_of_lt (le_add_right _ _) hh
  have hhou := lt_of_le_of_lt (le_add_left _ _) hh
  have hmin := lt_of_le_of_lt (le_add_left _ _) hm
  rw [secondsToDate, mul_of_lt hd, some_bind, mul_of_lt hhou, some_bind,
    add_of_lt hh, some_bind, mul_of_lt hmin, some_bind, add_of_lt hm, some_bind,
    add_of_lt h]

lemma unixDays_lt (h : unixSeconds fields < 2 ^ 63) : unixDays fields < 2 ^ 60 := by
  have hle : 86400 * unixDays fields ≤ unixSeconds fields := by
    rw [unixSeconds, mul_comm, add_assoc, add_assoc]
    exact le_add_right _ _
  omega

lemma addSecs_unixEpoch (secs : Nat) :
    SystemTime.unixEpoch.addSecs secs =
      if secs < 2 ^ 63 then some ((secs : Int) * 10 ^ 9) else none := by
  have hi : (0 : Int) + secs * 10 ^ 9 ≤ 2 ^ 63 * 10 ^ 9 - 1 ↔ secs < 2 ^ 63 := by omega
  unfold addSecs unixEpoch latest
  by_cases h : secs < 2 ^ 63
  · rw [if_pos h, if_pos (hi.mpr h), Int.zero_add]
  · rw [if_neg h, if_neg (fun hle => h (hi.mp hle))]

lemma computeUnixTime_of_lt (hy : 1970 ≤ fields.year)
    (hm : 1 ≤ fields.month ∧ fields.month ≤ 12) (hd : 1 ≤ fields.day)
    (hs : unixSeconds fields < 2 ^ 63) :
    computeUnixTime fields = some (some ((unixSeconds fields : Int) * 10 ^ 9)) := by
  have hf : unixSeconds fields < 2 ^ 64 := lt_trans hs (by decide)
  rw [computeUnixTime, if_neg (by omega), if_neg (by omega),
    daysToDate_of_lt hy hd (unixDays_lt hs), some_bind, secondsToDate_of_lt hf,
    some_bind, addSecs_unixEpoch, if_pos hs, map_some]

/-- The fields of a date that the conversion cannot cope with. -/
def DateFields.overflows (fields : DateFields) : Bool :=
  decide (1970 ≤ fields.year) && (fields.day == 0 || decide (2 ^ 63 ≤ unixSeconds fields))

/-- The conversion overflows on day zero and beyond the last representable second, and on no
other date. -/
lemma computeUnixTime_eq_none (hm : 1 ≤ fields.month ∧ fields.month ≤ 12) :
    computeUnixTime fields = none ↔ fields.overflows := by
  by_cases hy : fields.year < 1970
  · simp [computeUnixTime, DateFields.overflows, hy]
  have hy' : 1970 ≤ fields.year := by omega
  simp only [DateFields.overflows, hy', decide_true, Bool.true_and, Bool.or_eq_true, beq_iff_eq,
    decide_eq_true_eq]
  constructor
  · intro hnone
    by_contra hf
    simp only [not_or, not_le] at hf
    obtain ⟨hday, hs⟩ := hf
    rw [computeUnixTime_of_lt hy' hm (one_le_iff_ne_zero.mpr hday) hs] at hnone
    cases hnone
  intro ho
  by_contra hsome
  obtain ⟨result, hr⟩ := ne_none_iff_exists'.mp hsome
  rw [computeUnixTime, if_neg hy, if_neg (by omega)] at hr
  simp only [bind, bind_eq_some_iff, map_eq_some_iff] at hr
  obtain ⟨days, hd, secs, hs, time, ht, -⟩ := hr
  obtain ⟨hday, rfl⟩ := eq_of_daysToDate hy' hd
  rw [addSecs_unixEpoch, eq_of_secondsToDate hs] at ht
  split at ht
  next hlt =>
    rcases ho with hzero | hl
    · omega
    · exact absurd hlt (not_lt.mpr hl)
  · cases ht

lemma computeUnixTime_isSome (hm : 1 ≤ fields.month ∧ fields.month ≤ 12)
    {result : Option SystemTime} (h : computeUnixTime fields = some result) : result.isSome := by
  unfold computeUnixTime at h
  split at h
  · cases h
    rfl
  rw [if_neg (by omega)] at h
  simp only [bind, bind_eq_some_iff, map_eq_some_iff] at h
  obtain ⟨days, -, secs, -, time, -, rfl⟩ := h
  rfl

lemma parseMonth_bounds (h : parseMonth s = some month) : 1 ≤ month ∧ month ≤ 12 := by
  obtain ⟨index, hi, rfl⟩ := map_eq_some_iff.mp h
  have hlt : index < months.length := (List.findIdx?_eq_some_iff_findIdx_eq.mp hi).1
  have hlen : months.length = 12 := rfl
  omega

lemma imfFixdateFields_month (h : imfFixdateFields s = some fields) :
    1 ≤ fields.month ∧ fields.month ≤ 12 := by
  unfold imfFixdateFields at h
  split at h
  · split_ifs at h
    simp only [bind, bind_eq_some_iff] at h
    obtain ⟨day, -, month, hm, year, -, time, -, h⟩ := h
    cases h
    exact parseMonth_bounds hm
  · cases h

lemma rfc850Fields_month (h : rfc850Fields s = some fields) :
    1 ≤ fields.month ∧ fields.month ≤ 12 := by
  obtain ⟨parts, -, h⟩ := bind_eq_some_iff.mp h
  dsimp only at h
  split at h
  · split_ifs at h
    split at h
    · simp only [bind, bind_eq_some_iff] at h
      obtain ⟨day, -, month, hm, year, -, time, -, h⟩ := h
      cases h
      exact parseMonth_bounds hm
    · cases h
  · cases h

lemma asctimeFields_month (h : asctimeFields s = some fields) :
    1 ≤ fields.month ∧ fields.month ≤ 12 := by
  unfold asctimeFields at h
  split at h
  · simp only [bind, bind_eq_some_iff] at h
    obtain ⟨month, hm, day, -, time, -, year, -, h⟩ := h
    cases h
    exact parseMonth_bounds hm
  · cases h

def dateFields (s : Bytes) : Option DateFields :=
  ((imfFixdateFields s).or (rfc850Fields s)).or (asctimeFields s)

lemma dateFields_month (h : dateFields s = some fields) : 1 ≤ fields.month ∧ fields.month ≤ 12 := by
  rcases or_eq_some_iff.mp h with h | ⟨-, h⟩
  · rcases or_eq_some_iff.mp h with h | ⟨-, h⟩
    · exact imfFixdateFields_month h
    · exact rfc850Fields_month h
  · exact asctimeFields_month h

lemma parseHttpDate_eq (s : Bytes) : parseHttpDate s = match dateFields s with
      | none => some none
      | some fields => computeUnixTime fields := by
  have hc : ∀ {fields : DateFields}, 1 ≤ fields.month ∧ fields.month ≤ 12 →
      ∀ next, orElseFormat (computeUnixTime fields) next = computeUnixTime fields := by
    intro fields hm next
    cases hr : computeUnixTime fields with
    | none => rfl
    | some result =>
      obtain ⟨time, rfl⟩ := isSome_iff_exists.mp (computeUnixTime_isSome hm hr)
      rfl
  unfold parseHttpDate parseImfFixdate parseRfc850 parseAsctime parseFormat dateFields
  cases hi : imfFixdateFields s with
  | some fields => simp only [some_or, hc (imfFixdateFields_month hi)]
  | none =>
    simp only [orElseFormat, none_or]
    cases hrfc : rfc850Fields s with
    | some fields =>
      have hn := hc (rfc850Fields_month hrfc)
      unfold orElseFormat at hn
      simp [some_or, hn]
    | none => simp [none_or]

lemma parseHttpDate_eq_none (s : Bytes) :
    parseHttpDate s = none ↔ (dateFields s).any DateFields.overflows := by
  rw [parseHttpDate_eq]
  cases hf : dateFields s with
  | none => simp
  | some fields =>
    exact computeUnixTime_eq_none (dateFields_month hf)

end Aioduct.Cookies
