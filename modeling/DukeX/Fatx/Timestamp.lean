import DukeX.Fatx.Directory

/-!
# The dates of a FATX entry

`fatTimestamp` writes the local date of the device, `date(fromFATDate:time:)` reads it as one of UTC.
-/

namespace DukeX.Fatx

/-! ## The calendar -/

/-- Years and months are counted from January 1970. -/
def yearLength (year : Nat) : Nat :=
  if (1970 + year) % 4 = 0 ∧ ((1970 + year) % 100 ≠ 0 ∨ (1970 + year) % 400 = 0) then 366 else 365

def monthLength (year month : Nat) : Nat :=
  if month = 1 then yearLength year - 337 else if month ∈ [3, 5, 8, 10] then 30 else 31

def daysBeforeYear (year : Nat) : Nat := ∑ i ∈ Finset.range year, yearLength i

def daysBeforeMonth (year month : Nat) : Nat := ∑ i ∈ Finset.range month, monthLength year i

def dateComponents (second : Nat) : DateComponents :=
  let day := second / 86400
  let year := Nat.findGreatest (daysBeforeYear · ≤ day) day
  let day := day - daysBeforeYear year
  let month := Nat.findGreatest (daysBeforeMonth year · ≤ day) 11
  { year := 1970 + year, month := month + 1, day := day - daysBeforeMonth year month + 1
    hour := second / 3600 % 24, minute := second / 60 % 60, second := second % 60 }

/-- The second of a date in UTC; a day after the end of its month counts on. -/
def DateComponents.instant (c : DateComponents) : Nat :=
  let day := daysBeforeYear (c.year - 1970) + daysBeforeMonth (c.year - 1970) (c.month - 1) + (c.day - 1)
  ((day * 24 + c.hour) * 60 + c.minute) * 60 + c.second

structure TimeZone where
  offset : ℚ → Int
  bounded : ∀ now, |offset now| ≤ 18 * 3600

def fatTimestampAt (zone : TimeZone) (now : ℚ) : Option (Nat × Nat) :=
  let c := dateComponents (⌊now⌋ + zone.offset now).toNat
  let year := max 1980 c.year
  let date := ((year - 1980) <<< 9) ||| (c.month <<< 5) ||| c.day
  let time := (c.hour <<< 11) ||| (c.minute <<< 5) ||| (c.second / 2)
  -- the conversions to `UInt16` trap
  if date < 2 ^ 16 ∧ time < 2 ^ 16 then some (date, time) else none

def readBack (zone : TimeZone) (now : ℚ) : Option Nat :=
  (fatTimestampAt zone now).bind fun stamp => (dateFromFAT stamp.1 stamp.2).map (·.instant)

theorem findGreatest_between {f : Nat → Nat} {n b : Nat} (hzero : f 0 ≤ n) (hb : n < f (b + 1)) :
    f (Nat.findGreatest (f · ≤ n) b) ≤ n ∧ n < f (Nat.findGreatest (f · ≤ n) b + 1) ∧
      Nat.findGreatest (f · ≤ n) b ≤ b := by
  have hle := Nat.findGreatest_le (P := (f · ≤ n)) b
  refine ⟨Nat.findGreatest_spec (P := (f · ≤ n)) (Nat.zero_le b) hzero, ?_, hle⟩
  obtain heq | hlt := hle.eq_or_lt
  · rwa [heq]
  · exact Nat.lt_of_not_le (Nat.findGreatest_is_greatest (P := (f · ≤ n)) (Nat.lt_succ_self _) hlt)

theorem yearLength_cases (year : Nat) : yearLength year = 365 ∨ yearLength year = 366 := by
  unfold yearLength
  split
  · exact .inr rfl
  · exact .inl rfl

theorem le_daysBeforeYear (year : Nat) : year ≤ daysBeforeYear year := by
  induction year with
  | zero => exact Nat.zero_le _
  | succ year ih =>
    rw [daysBeforeYear, Finset.sum_range_succ]
    have := yearLength_cases year
    unfold daysBeforeYear at ih
    omega

theorem daysBeforeYear_mono : Monotone daysBeforeYear :=
  fun _ _ h => Finset.sum_le_sum_of_subset (Finset.range_mono h)

theorem daysBeforeMonth_twelve (year : Nat) : daysBeforeMonth year 12 = yearLength year := by
  have := yearLength_cases year
  simp [daysBeforeMonth, Finset.sum_range_succ, monthLength]
  omega

theorem monthLength_le (year month : Nat) : monthLength year month ≤ 31 := by
  have := yearLength_cases year
  unfold monthLength
  split
  · omega
  · split
    · decide
    · decide

/-- What the calendar says of a second. -/
structure DateComponents.Says (c : DateComponents) (s : Nat) : Prop where
  instant : c.instant = s
  month : 1 ≤ c.month ∧ c.month ≤ 12
  day : 1 ≤ c.day ∧ c.day ≤ 31
  hour : c.hour ≤ 23
  minute : c.minute ≤ 59
  second : c.second ≤ 59
  year : 1970 ≤ c.year ∧ daysBeforeYear (c.year - 1970) ≤ s / 86400 ∧
    s / 86400 < daysBeforeYear (c.year - 1970 + 1)

theorem dateComponents_says (second : Nat) : (dateComponents second).Says second := by
  obtain ⟨hyear, hnext, -⟩ := findGreatest_between (f := daysBeforeYear) (n := second / 86400)
    (b := second / 86400) (Nat.zero_le _) (le_daysBeforeYear (second / 86400 + 1))
  generalize hy : Nat.findGreatest (daysBeforeYear · ≤ second / 86400) (second / 86400) = year at *
  have hday : second / 86400 - daysBeforeYear year < daysBeforeMonth year 12 := by
    rw [daysBeforeMonth_twelve]
    have : daysBeforeYear (year + 1) = daysBeforeYear year + yearLength year := Finset.sum_range_succ ..
    omega
  obtain ⟨hmonth, hafter, hle⟩ := findGreatest_between (f := daysBeforeMonth year) (Nat.zero_le _) hday
  generalize hm : Nat.findGreatest (daysBeforeMonth year · ≤ second / 86400 - daysBeforeYear year) 11 =
    month at *
  have hlen : daysBeforeMonth year (month + 1) = daysBeforeMonth year month + monthLength year month :=
    Finset.sum_range_succ ..
  have := monthLength_le year month
  have hc : dateComponents second = ⟨1970 + year, month + 1, second / 86400 - daysBeforeYear year -
      daysBeforeMonth year month + 1, second / 3600 % 24, second / 60 % 60, second % 60⟩ := by
    simp only [dateComponents, hy, hm]
  rw [hc]
  refine ⟨?_, ⟨by simp, Nat.succ_le_succ hle⟩, ⟨by simp, ?_⟩, ?_, ?_, ?_, ?_⟩
  all_goals
    simp only [DateComponents.instant, Nat.add_sub_cancel_left, Nat.add_sub_cancel]
    omega

theorem fields_eq {a b c i j : Nat} (hij : i ≤ j) (hc : c < 2 ^ i) (hb : b < 2 ^ (j - i)) :
    a <<< j ||| b <<< i ||| c = a * 2 ^ j + b * 2 ^ i + c := by
  have hlow : b <<< i ||| c = b <<< i + c := (Nat.shiftLeft_add_eq_or_of_lt hc b).symm
  have hpow : 2 ^ j = 2 ^ (j - i) * 2 ^ i := by rw [← Nat.pow_add, Nat.sub_add_cancel hij]
  have hlt : b <<< i + c < 2 ^ j := by
    rw [Nat.shiftLeft_eq, hpow]
    nlinarith
  rw [Nat.or_assoc, hlow, ← Nat.shiftLeft_add_eq_or_of_lt hlt, Nat.shiftLeft_eq, Nat.shiftLeft_eq,
    Nat.add_assoc]

theorem dateFromFAT_sum {c : DateComponents} {s year : Nat} (h : c.Says s) (hyear : year < 128) :
    dateFromFAT (year * 2 ^ 9 + c.month * 2 ^ 5 + c.day) (c.hour * 2 ^ 11 + c.minute * 2 ^ 5 + c.second / 2) =
      some { c with year := 1980 + year, second := c.second / 2 * 2 } := by
  obtain ⟨-, hmonth, hday, hhour, hminute, hsecond, -⟩ := h
  simp only [dateFromFAT, Nat.shiftRight_eq_div_pow, show 0x7F = 2 ^ 7 - 1 by rfl, show 0x0F = 2 ^ 4 - 1 by rfl,
    show 0x1F = 2 ^ 5 - 1 by rfl, show 0x3F = 2 ^ 6 - 1 by rfl, Nat.and_two_pow_sub_one_eq_mod]
  rw [if_pos (by omega)]
  simp only [Option.some.injEq, DateComponents.mk.injEq]
  omega

theorem DateComponents.Says.le_year {c : DateComponents} {s n : Nat} (h : c.Says s) :
    n ≤ c.year - 1970 ↔ daysBeforeYear n * 86400 ≤ s := by
  obtain ⟨-, hle, hlt⟩ := h.year
  constructor
  · intro hn
    have := daysBeforeYear_mono hn
    omega
  · intro hn
    by_contra hyear
    have := daysBeforeYear_mono (show c.year - 1970 + 1 ≤ n by omega)
    omega

section Zone

variable (zone : TimeZone) {now : ℚ}

theorem readBack_eq {c : DateComponents} {s : Nat} (hc : dateComponents (⌊now⌋ + zone.offset now).toNat = c)
    (h : c.Says s) : readBack zone now = if c.year ≤ 2107 then
      some { c with year := max 1980 c.year, second := c.second / 2 * 2 }.instant else none := by
  have hread := @dateFromFAT_sum c s (max 1980 c.year - 1980) h
  obtain ⟨-, hmonth, hday, hhour, hminute, hsecond, -⟩ := h
  simp only [readBack, fatTimestampAt, hc]
  rw [fields_eq (by decide) (by omega) (by omega), fields_eq (by decide) (by omega) (by omega)]
  by_cases hyear : c.year ≤ 2107
  · rw [if_pos (by omega), if_pos hyear, Option.bind_some, hread (by omega),
      Nat.add_sub_cancel' (Nat.le_max_left ..)]
    rfl
  · rw [if_neg (by omega), if_neg hyear, Option.bind_none]

theorem instant_clamped {c : DateComponents} {s : Nat} (h : c.Says s) (hyear : c.year = 1979) :
    s + 31500000 ≤ { c with year := 1980, second := c.second / 2 * 2 : DateComponents }.instant := by
  have hmonths : ∀ m ∈ List.range 12, daysBeforeMonth 9 m ≤ daysBeforeMonth 10 m := by decide
  have hm := hmonths (c.month - 1) (List.mem_range.mpr (by have := h.month; omega))
  have hyears : daysBeforeYear 9 + 365 = daysBeforeYear 10 := by decide
  rw [← h.instant]
  simp only [DateComponents.instant, hyear, Nat.reduceSub]
  omega

theorem daysBeforeYear_years : daysBeforeYear 9 = 3287 ∧ daysBeforeYear 10 = 3652 ∧
    daysBeforeYear 138 = 50403 := by
  decide +kernel

theorem readBack_inside {s : Nat} (hs : (⌊now⌋ + zone.offset now).toNat = s) (hfrom : 315532800 ≤ s)
    (huntil : s < 4354819200) : readBack zone now = some (2 * (s / 2)) := by
  obtain ⟨-, hten, hlast⟩ := daysBeforeYear_years
  have h := dateComponents_says s
  have hearly := (h.le_year (n := 10)).mpr (by rw [hten]; omega)
  have hlate := mt (h.le_year (n := 138)).mp (by rw [hlast]; omega)
  rw [readBack_eq zone (congrArg dateComponents hs) h, if_pos (by omega), Nat.max_eq_right (by omega)]
  have hinstant := h.instant
  have hsecond := h.second
  simp only [DateComponents.instant, Option.some.injEq] at hinstant ⊢
  omega

/-- **A timestamp is read back** exactly where the zone of the device is UTC at the time, to two seconds. -/
theorem readBack_iff (hfrom : 315532800 ≤ now) (huntil : now < 4354819200) :
    readBack zone now = some (2 * (⌊now⌋ / 2)).toNat ↔ (⌊now⌋ + zone.offset now) / 2 = ⌊now⌋ / 2 := by
  have hlow : 315532800 ≤ ⌊now⌋ := Int.le_floor.mpr (by exact_mod_cast hfrom)
  have hhigh : ⌊now⌋ < 4354819200 := Int.floor_lt.mpr (by exact_mod_cast huntil)
  obtain ⟨hwest, heast⟩ := abs_le.mp (zone.bounded now)
  obtain ⟨hnine, hten, hlast⟩ := daysBeforeYear_years
  generalize hs : (⌊now⌋ + zone.offset now).toNat = s
  have h := dateComponents_says s
  have hread := readBack_eq zone (congrArg dateComponents hs) h
  by_cases hearly : s < 315532800
  · -- the last hours of 1979 become those of 1980
    have hyear : (dateComponents s).year = 1979 := by
      have := (h.le_year (n := 9)).mpr (by rw [hnine]; omega)
      have := mt (h.le_year (n := 10)).mp (by rw [hten]; omega)
      omega
    have hclamped := instant_clamped h hyear
    rw [hread, if_pos (by omega), hyear, Nat.max_eq_left (by decide), Option.some.injEq]
    constructor
    · intro heq
      omega
    · intro heq
      omega
  by_cases hlate : 4354819200 ≤ s
  · have hyear := (h.le_year (n := 138)).mpr (by rw [hlast]; omega)
    rw [hread, if_neg (by omega)]
    simp only [reduceCtorEq, false_iff]
    omega
  · rw [readBack_inside zone hs (by omega) (by omega), Option.some.injEq]
    omega

/-- **Writing an entry stops the process** exactly from 2108 on, local time; what is written before
is a date. -/
theorem fatTimestampAt_none_iff (hfrom : 0 ≤ ⌊now⌋ + zone.offset now) :
    (fatTimestampAt zone now = none ↔ 4354819200 ≤ ⌊now⌋ + zone.offset now) ∧
      ∀ stamp, fatTimestampAt zone now = some stamp → dateFromFAT stamp.1 stamp.2 ≠ none := by
  have h := dateComponents_says (⌊now⌋ + zone.offset now).toNat
  have hlate := h.le_year (n := 138)
  have hread := readBack_eq zone rfl h
  rw [daysBeforeYear_years.2.2] at hlate
  obtain ⟨-, hmonth, hday, -, -, -, -⟩ := h
  by_cases hyear : (dateComponents (⌊now⌋ + zone.offset now).toNat).year ≤ 2107
  · rw [if_pos hyear] at hread
    obtain ⟨stamp, hstamp, hdate⟩ := Option.bind_eq_some_iff.mp hread
    rw [hstamp]
    refine ⟨iff_of_false (Option.some_ne_none _) (by omega), fun _ heq => ?_⟩
    cases heq
    grind
  · have hnone : fatTimestampAt zone now = none := by
      simp only [fatTimestampAt]
      rw [fields_eq (by decide) (by omega) (by omega), if_neg (by omega)]
    exact ⟨iff_of_true hnone (by omega), fun _ heq => by cases hnone.symm.trans heq⟩

end Zone

def utc : TimeZone := ⟨fun _ => 0, by simp⟩

def hourEast : TimeZone := ⟨fun _ => 3600, by simp⟩

theorem fatTimestampAt_2108 : fatTimestampAt utc 4354819200 = none :=
  (fatTimestampAt_none_iff utc (by simp [utc])).1.mpr (by simp [utc])

theorem readBack_utc : readBack utc 1000000001 = some 1000000000 := by
  simpa using (readBack_iff utc (by norm_num : 315532800 ≤ (1000000001 : ℚ)) (by norm_num)).mpr (by simp [utc])

/-- The same time, written an hour east of Greenwich. -/
theorem readBack_hourEast : readBack hourEast 1000000001 = some 1000003600 ∧
    readBack utc 1000000001 = some 1000000000 :=
  ⟨readBack_inside hourEast (s := 1000003601) (by simp [hourEast]) (by decide) (by decide),
    readBack_inside utc (s := 1000000001) (by simp [utc]) (by decide) (by decide)⟩

end DukeX.Fatx
