import Mathlib.Algebra.BigOperators.Intervals
import Mathlib.Algebra.Order.BigOperators.Group.Finset
import Mathlib.Data.List.Lex

/-!
# The Gregorian calendar

Dates with a time of day, and the seconds from the beginning of a year to
them. The seconds are a count of days, over whole years and over the whole
months of the last one. They grow with the date (`CivilTime.seconds_lt`),
so two dates with the same seconds are one (`CivilTime.seconds_inj`), and
`CivilTime.tomorrow` is a day later.
-/

namespace Csos

namespace Lib

/-! ## Years and months -/

def IsLeap (y : Nat) : Prop := 4 ∣ y ∧ (¬ 100 ∣ y ∨ 400 ∣ y)

instance (y : Nat) : Decidable (IsLeap y) := inferInstanceAs (Decidable (_ ∧ _))

def yearDays (y : Nat) : Nat := if IsLeap y then 366 else 365

def monthDays (y m : Nat) : Nat :=
  match m with
  | 2 => if IsLeap y then 29 else 28
  | 4 | 6 | 9 | 11 => 30
  | _ => 31

/-- The days from the beginning of the year `epoch` to that of `y`. -/
def daysToYear (epoch y : Nat) : Nat := ∑ k ∈ Finset.Ico epoch y, yearDays k

/-- The days from the beginning of the year `y` to that of its month `m`. -/
def daysToMonth (y m : Nat) : Nat := ∑ k ∈ Finset.Ico 1 m, monthDays y k

section Counts

variable {epoch y y' m m' : Nat}

theorem daysToYear_succ (h : epoch ≤ y) :
    daysToYear epoch (y + 1) = daysToYear epoch y + yearDays y :=
  Finset.sum_Ico_succ_top h yearDays

theorem daysToYear_mono (epoch : Nat) (h : y ≤ y') : daysToYear epoch y ≤ daysToYear epoch y' :=
  Finset.sum_le_sum_of_subset (Finset.Ico_subset_Ico_right h)

theorem daysToMonth_succ (h : 1 ≤ m) : daysToMonth y (m + 1) = daysToMonth y m + monthDays y m :=
  Finset.sum_Ico_succ_top h (monthDays y)

theorem daysToMonth_mono (h : m ≤ m') : daysToMonth y m ≤ daysToMonth y m' :=
  Finset.sum_le_sum_of_subset (Finset.Ico_subset_Ico_right h)

/-- Only the length of February depends on the year. -/
theorem monthDays_congr (h : IsLeap y ↔ IsLeap y') (m : Nat) : monthDays y m = monthDays y' m := by
  unfold monthDays
  split
  · exact if_congr h rfl rfl
  all_goals rfl

theorem daysToMonth_congr (h : IsLeap y ↔ IsLeap y') (m : Nat) :
    daysToMonth y m = daysToMonth y' m :=
  Finset.sum_congr rfl fun k _ => monthDays_congr h k

/-- A year that is like `y`: one of two. -/
theorem leap_cases (y : Nat) : (IsLeap y ∧ (IsLeap y ↔ IsLeap 2000))
    ∨ (¬ IsLeap y ∧ (IsLeap y ↔ IsLeap 2001)) := by
  by_cases h : IsLeap y
  · exact Or.inl ⟨h, iff_of_true h (by decide)⟩
  · exact Or.inr ⟨h, iff_of_false h (by decide)⟩

/-- Twelve months make a year. -/
theorem daysToMonth_thirteen (y : Nat) : daysToMonth y 13 = yearDays y := by
  rcases leap_cases y with ⟨hleap, hlike⟩ | ⟨hleap, hlike⟩
  · rw [daysToMonth_congr hlike, yearDays, if_pos hleap]
    decide
  · rw [daysToMonth_congr hlike, yearDays, if_neg hleap]
    decide

theorem monthDays_pos (y m : Nat) : 0 < monthDays y m := by
  unfold monthDays
  split
  · split <;> decide
  all_goals decide

theorem monthDays_le (y m : Nat) : monthDays y m ≤ 31 := by
  unfold monthDays
  split
  · split <;> decide
  all_goals decide

/-- Only February has another length in an ordinary year. -/
theorem monthDays_ordinary (hm : m ≤ 12) :
    monthDays y m = monthDays 2001 m + if m = 2 ∧ IsLeap y then 1 else 0 := by
  rcases leap_cases y with ⟨hleap, hlike⟩ | ⟨hleap, hlike⟩
  · have hall : ∀ m ≤ 12, monthDays 2000 m
        = monthDays 2001 m + if m = 2 then 1 else 0 := by decide
    rw [monthDays_congr hlike, hall m hm]
    simp only [hleap, and_true]
  · rw [monthDays_congr hlike, if_neg fun h => hleap h.2, Nat.add_zero]

end Counts

/-! ## Dates -/

/-- A date that exists, with a time of day. -/
structure CivilTime where
  year : Nat
  month : Nat
  day : Nat
  hour : Nat
  minute : Nat
  second : Nat
  one_le_month : 1 ≤ month
  month_le : month ≤ 12
  one_le_day : 1 ≤ day
  day_le : day ≤ monthDays year month
  hour_lt : hour < 24
  minute_lt : minute < 60
  second_lt : second < 60

namespace CivilTime

/-- The date and the time with these numbers. -/
def ofNumbers (year month day hour minute second : Nat)
    (hdate : (1 ≤ month ∧ month ≤ 12) ∧ 1 ≤ day ∧ day ≤ monthDays year month)
    (htime : hour < 24 ∧ minute < 60 ∧ second < 60) : CivilTime where
  year := year
  month := month
  day := day
  hour := hour
  minute := minute
  second := second
  one_le_month := hdate.1.1
  month_le := hdate.1.2
  one_le_day := hdate.2.1
  day_le := hdate.2.2
  hour_lt := htime.1
  minute_lt := htime.2.1
  second_lt := htime.2.2

/-- The fields in the order of their weight. -/
def key (t : CivilTime) : List Nat := [t.year, t.month, t.day, t.hour, t.minute, t.second]

/-- The days before the date in its year. -/
def yearDay (t : CivilTime) : Nat := daysToMonth t.year t.month + (t.day - 1)

/-- The days from the beginning of the year `epoch`. -/
def days (epoch : Nat) (t : CivilTime) : Nat := daysToYear epoch t.year + t.yearDay

/-- The seconds from the beginning of the year `epoch`. -/
def seconds (epoch : Nat) (t : CivilTime) : Nat :=
  86400 * t.days epoch + 3600 * t.hour + 60 * t.minute + t.second

variable {epoch : Nat} {t u : CivilTime}

theorem ext_key (h : t.key = u.key) : t = u := by
  cases t
  cases u
  simp only [key, List.cons.injEq, and_true] at h
  obtain ⟨rfl, rfl, rfl, rfl, rfl, rfl⟩ := h
  rfl

/-! ## The order of dates -/

theorem yearDay_lt_of_month (hyear : t.year = u.year) (h : t.month < u.month) :
    t.yearDay < u.yearDay := by
  have hmono := daysToMonth_mono (y := t.year) (Nat.succ_le_of_lt h)
  rw [Nat.succ_eq_add_one, daysToMonth_succ t.one_le_month] at hmono
  have hday := t.day_le
  have hone := t.one_le_day
  rw [yearDay, yearDay, ← hyear]
  omega

theorem yearDay_lt (t : CivilTime) : t.yearDay < yearDays t.year := by
  have hmono := daysToMonth_mono (y := t.year) (Nat.succ_le_succ t.month_le)
  rw [Nat.succ_eq_add_one, daysToMonth_succ t.one_le_month, daysToMonth_thirteen] at hmono
  have hday := t.day_le
  have hone := t.one_le_day
  rw [yearDay]
  omega

theorem days_lt_of_year (hepoch : epoch ≤ t.year) (h : t.year < u.year) :
    t.days epoch < u.days epoch := by
  have hmono := daysToYear_mono epoch (Nat.succ_le_of_lt h)
  rw [Nat.succ_eq_add_one, daysToYear_succ hepoch] at hmono
  have hlt := t.yearDay_lt
  rw [days, days]
  omega

theorem seconds_lt_of_days (h : t.days epoch < u.days epoch) :
    t.seconds epoch < u.seconds epoch := by
  have hhour := t.hour_lt
  have hminute := t.minute_lt
  have hsecond := t.second_lt
  rw [seconds, seconds]
  omega

/-- The seconds before the beginning of a later year. -/
theorem seconds_lt_of_year (hepoch : epoch ≤ t.year) {y : Nat} (h : t.year < y) :
    t.seconds epoch < 86400 * daysToYear epoch y := by
  have hmono := daysToYear_mono epoch (Nat.succ_le_of_lt h)
  rw [Nat.succ_eq_add_one, daysToYear_succ hepoch] at hmono
  have hlt := t.yearDay_lt
  have hhour := t.hour_lt
  have hminute := t.minute_lt
  have hsecond := t.second_lt
  rw [seconds, days]
  omega

/-- The later of two dates has more seconds. -/
theorem seconds_lt (hepoch : epoch ≤ t.year) (h : t.key < u.key) :
    t.seconds epoch < u.seconds epoch := by
  simp only [key, List.cons_lt_cons_iff, List.not_lt_nil, and_false, or_false] at h
  rcases h with hyear | ⟨hyear, h⟩
  · exact seconds_lt_of_days (days_lt_of_year hepoch hyear)
  have hdays : t.days epoch = daysToYear epoch u.year + t.yearDay := by rw [days, hyear]
  rcases h with hmonth | ⟨hmonth, h⟩
  · refine seconds_lt_of_days ?_
    rw [hdays, days]
    exact Nat.add_lt_add_left (yearDay_lt_of_month hyear hmonth) _
  have hyearDay : t.yearDay = daysToMonth u.year u.month + (t.day - 1) := by
    rw [yearDay, hyear, hmonth]
  rcases h with hday | ⟨hday, h⟩
  · refine seconds_lt_of_days ?_
    have hone := t.one_le_day
    rw [hdays, hyearDay, days, yearDay]
    omega
  have hsame : t.days epoch = u.days epoch := by rw [hdays, hyearDay, days, yearDay, hday]
  have hminute := t.minute_lt
  have hsecond := t.second_lt
  rw [seconds, seconds, hsame]
  omega

/-- Dates are told apart by their seconds. -/
theorem seconds_inj (ht : epoch ≤ t.year) (hu : epoch ≤ u.year)
    (h : t.seconds epoch = u.seconds epoch) : t = u := by
  rcases lt_trichotomy t.key u.key with hlt | heq | hgt
  · exact absurd h (Nat.ne_of_lt (seconds_lt ht hlt))
  · exact ext_key heq
  · exact absurd h (Nat.ne_of_gt (seconds_lt hu hgt))

/-! ## The next day -/

/-- The same time on the next day. -/
def tomorrow (t : CivilTime) : CivilTime :=
  if hday : t.day < monthDays t.year t.month then
    { t with day := t.day + 1, one_le_day := Nat.succ_pos _, day_le := hday }
  else if hmonth : t.month < 12 then
    { t with
      month := t.month + 1, day := 1, one_le_month := Nat.succ_pos _, month_le := hmonth
      one_le_day := Nat.le_refl 1, day_le := monthDays_pos _ _ }
  else
    { t with
      year := t.year + 1, month := 1, day := 1, one_le_month := Nat.le_refl 1
      month_le := by decide, one_le_day := Nat.le_refl 1, day_le := monthDays_pos _ _ }

/-- The date with another hour. -/
def withHour (t : CivilTime) (hour : Nat) (h : hour < 24) : CivilTime :=
  { t with hour, hour_lt := h }

/-- Some hours later, at most a day. -/
def later (t : CivilTime) (hours : Nat) (h : hours ≤ 24) : CivilTime :=
  if hsame : t.hour + hours < 24 then t.withHour (t.hour + hours) hsame
  else
    t.tomorrow.withHour (t.hour + hours - 24) (by
      have hlt := t.hour_lt
      omega)

/-- The next day is in the same month, begins the next one, or begins the
next year. -/
theorem tomorrow_cases (t : CivilTime) :
    t.day < monthDays t.year t.month
        ∧ t.tomorrow.year = t.year ∧ t.tomorrow.month = t.month ∧ t.tomorrow.day = t.day + 1
      ∨ t.day = monthDays t.year t.month ∧ t.month < 12
        ∧ t.tomorrow.year = t.year ∧ t.tomorrow.month = t.month + 1 ∧ t.tomorrow.day = 1
      ∨ t.day = monthDays t.year t.month ∧ t.month = 12
        ∧ t.tomorrow.year = t.year + 1 ∧ t.tomorrow.month = 1 ∧ t.tomorrow.day = 1 := by
  rw [tomorrow]
  split
  case isTrue hday => exact Or.inl ⟨hday, rfl, rfl, rfl⟩
  case isFalse hday =>
    have hlast := Nat.le_antisymm t.day_le (Nat.not_lt.mp hday)
    split
    case isTrue hmonth => exact Or.inr (Or.inl ⟨hlast, hmonth, rfl, rfl, rfl⟩)
    case isFalse hmonth =>
      exact Or.inr (Or.inr
        ⟨hlast, Nat.le_antisymm t.month_le (Nat.not_lt.mp hmonth), rfl, rfl, rfl⟩)

theorem tomorrow_days (hepoch : epoch ≤ t.year) : t.tomorrow.days epoch = t.days epoch + 1 := by
  have hone := t.one_le_day
  rcases t.tomorrow_cases with ⟨-, hyear, hmonth, hday⟩ | ⟨hlast, -, hyear, hmonth, hday⟩
    | ⟨hlast, hdec, hyear, hmonth, hday⟩
  · rw [days, days, yearDay, yearDay, hyear, hmonth, hday]
    omega
  · rw [days, days, yearDay, yearDay, hyear, hmonth, hday, daysToMonth_succ t.one_le_month]
    omega
  · have hwhole := daysToMonth_thirteen t.year
    rw [daysToMonth_succ (by decide), ← hdec] at hwhole
    have hfirst : daysToMonth (t.year + 1) 1 = 0 := Finset.sum_empty
    rw [days, days, yearDay, yearDay, hyear, hmonth, hday, daysToYear_succ hepoch, hfirst]
    omega

/-- The next day has the same time. -/
theorem tomorrow_time (t : CivilTime) : t.tomorrow.hour = t.hour
    ∧ t.tomorrow.minute = t.minute ∧ t.tomorrow.second = t.second := by
  rw [tomorrow]
  split
  · exact ⟨rfl, rfl, rfl⟩
  · split <;> exact ⟨rfl, rfl, rfl⟩

theorem later_date {hours : Nat} (h : hours ≤ 24) :
    ((t.later hours h).year, (t.later hours h).month, (t.later hours h).day)
      = if 24 ≤ t.hour + hours then (t.tomorrow.year, t.tomorrow.month, t.tomorrow.day)
        else (t.year, t.month, t.day) := by
  rw [later]
  split
  case isTrue hsame => rw [if_neg (Nat.not_le.mpr hsame), withHour]
  case isFalse hsame => rw [if_pos (Nat.not_lt.mp hsame), withHour]

theorem later_time {hours : Nat} (h : hours ≤ 24) : (t.later hours h).hour = (t.hour + hours) % 24
    ∧ (t.later hours h).minute = t.minute ∧ (t.later hours h).second = t.second := by
  have hhour := t.hour_lt
  obtain ⟨-, hminute, hsecond⟩ := t.tomorrow_time
  rw [later]
  split
  case isTrue hsame => exact ⟨(Nat.mod_eq_of_lt hsame).symm, rfl, rfl⟩
  case isFalse hsame =>
    refine ⟨?_, hminute, hsecond⟩
    show t.hour + hours - 24 = (t.hour + hours) % 24
    omega

theorem later_year_le {hours : Nat} (h : hours ≤ 24) : (t.later hours h).year ≤ t.year + 1 := by
  have hdate := congrArg Prod.fst (later_date (t := t) h)
  rw [apply_ite Prod.fst] at hdate
  refine Nat.le_trans (Nat.le_of_eq hdate) ?_
  split
  · rcases t.tomorrow_cases with ⟨-, hyear, -⟩ | ⟨-, -, hyear, -⟩ | ⟨-, -, hyear, -⟩
    all_goals
      dsimp only
      omega
  · exact Nat.le_succ _

theorem later_seconds (hepoch : epoch ≤ t.year) {hours : Nat} (h : hours ≤ 24) :
    (t.later hours h).seconds epoch = t.seconds epoch + 3600 * hours := by
  rw [later]
  split
  case isTrue hsame =>
    simp only [withHour, seconds, days, yearDay]
    omega
  case isFalse hsame =>
    have hdays := tomorrow_days hepoch
    obtain ⟨-, hminute, hsecond⟩ := t.tomorrow_time
    simp only [days, yearDay] at hdays
    simp only [withHour, seconds, days, yearDay, hdays, hminute, hsecond]
    omega

end CivilTime

end Lib

end Csos
