import Csos.Lib.Calendar
import Csos.Lib.Loop

/-!
# Time (`kernel32/time.c`, `bcd_to_bin` of `lib/stdlib.c`)

`time_read` takes the date from the registers of the clock, adds the hours
of the timezone and carries; `mktime` makes seconds of a date. The fields
of `tm` are 32-bit integers and wrap, and so do the seconds. An index
outside a table has no result.

Both functions have a table of months. The one of `mktime` is for leap
years, with a correction; the one of `time_read` is for ordinary years,
without one.
-/

namespace Csos

open Lib

/-! ## `time.h` and `rtc.h` -/

structure Tm where
  tmSec : Int32
  tmMin : Int32
  tmHour : Int32
  tmMday : Int32
  tmMon : Int32
  tmYear : Int32
  tmWday : Int32
  tmIsdst : Int32
deriving DecidableEq

/-- The registers of the clock. -/
abbrev cmosSecond : UInt8 := 0x00
abbrev cmosMinute : UInt8 := 0x02
abbrev cmosHour : UInt8 := 0x04
abbrev cmosWeekday : UInt8 := 0x06
abbrev cmosDay : UInt8 := 0x07
abbrev cmosMonth : UInt8 := 0x08
abbrev cmosYear : UInt8 := 0x09
abbrev cmosCentury : UInt8 := 0x32

/-- What each register holds at each read. -/
abbrev Clock := Nat → UInt8 → UInt8

/-! ## `time.c` -/

/-- `MINUTE`, `HOUR`, `DAY` and `YEAR`. -/
abbrev secMinute : Int32 := 60
abbrev secHour : Int32 := 60 * secMinute
abbrev secDay : Int32 := 24 * secHour
abbrev secYear : Int32 := 365 * secDay

/-- `month_days`. -/
def timeMonthDays : List Int32 := [0, 31, 28, 31, 30, 31, 30, 31, 31, 30, 31, 30, 31]

/-- `month`. -/
def timeMonth : List Int32 :=
  [0,
    0,
    31,
    31 + 29,
    31 + 29 + 31,
    31 + 29 + 31 + 30,
    31 + 29 + 31 + 30 + 31,
    31 + 29 + 31 + 30 + 31 + 30,
    31 + 29 + 31 + 30 + 31 + 30 + 31,
    31 + 29 + 31 + 30 + 31 + 30 + 31 + 31,
    31 + 29 + 31 + 30 + 31 + 30 + 31 + 31 + 30,
    31 + 29 + 31 + 30 + 31 + 30 + 31 + 31 + 30 + 31,
    31 + 29 + 31 + 30 + 31 + 30 + 31 + 31 + 30 + 31 + 30]

/-- The element of a table. -/
def tmTableAt (table : List Int32) (i : Int32) : Option Int32 :=
  if i < 0 then none else table[i.toNatClampNeg]?

def mktime (time : Tm) : Option UInt32 := do
  let year := time.tmYear + 30
  let res := (secYear * year).toUInt32
  let res := res + (secDay * ((year + 1) / 4)).toUInt32
  let month ← tmTableAt timeMonth time.tmMon
  let res := res + (month * secDay).toUInt32
  let res := if time.tmMon > 2 ∧ (year + 2) % 4 ≠ 0 then res - secDay.toUInt32 else res
  let res := res + (secDay * (time.tmMday - 1)).toUInt32
  let res := res + (secHour * time.tmHour).toUInt32
  let res := res + (secMinute * time.tmMin).toUInt32
  return res + time.tmSec.toUInt32

/-- `cmos_read`, the read `n`. -/
def cmosRead (clock : Clock) (n : Nat) (addr : UInt8) : Int32 := Int32.ofNat (clock n addr).toNat

/-- A round of the loop of `time_read_bcd`, from the read `n` on: the date
and the century, unless the seconds have changed. -/
def timeReadBcdRound (clock : Clock) : Nat × Tm → Round (Nat × Tm) (Tm × Int32)
  | (n, time) =>
      let time := { time with tmSec := cmosRead clock n cmosSecond }
      let time := { time with tmSec := cmosRead clock (n + 1) cmosSecond }
      let time := { time with tmMin := cmosRead clock (n + 2) cmosMinute }
      let time := { time with tmHour := cmosRead clock (n + 3) cmosHour }
      let time := { time with tmWday := cmosRead clock (n + 4) cmosWeekday }
      let time := { time with tmMday := cmosRead clock (n + 5) cmosDay }
      let time := { time with tmMon := cmosRead clock (n + 6) cmosMonth }
      let time := { time with tmYear := cmosRead clock (n + 7) cmosYear }
      let century := cmosRead clock (n + 8) cmosCentury
      if time.tmSec ≠ cmosRead clock (n + 9) cmosSecond then .again (n + 10, time)
      else .leave (time, century)

/-- The conversion of an `int` for a parameter of type `uint8_t`. -/
def uint8 (x : Int32) : UInt8 := x.toUInt32.toUInt8

def bcdToBin (value : UInt8) : UInt8 := (value &&& (0xF : UInt8)) + (value >>> (4 : UInt8)) * 10

/-- A field of `tm` after `bcd_to_bin`. -/
def fromBcd (x : Int32) : Int32 := Int32.ofNat (bcdToBin (uint8 x)).toNat

/-- A day more, after 24 hours. -/
def carryHour (time : Tm) : Tm :=
  if time.tmHour ≥ 24 then
    { time with
      tmWday := time.tmWday + 1, tmMday := time.tmMday + 1, tmHour := time.tmHour % 24 }
  else time

def carryWday (time : Tm) : Tm :=
  if time.tmWday ≥ 8 then { time with tmWday := time.tmWday % 8 } else time

/-- A month more, after its `mdays` days. -/
def carryMday (time : Tm) (mdays : Int32) : Tm :=
  if time.tmMday > mdays then
    { time with tmMday := time.tmMday - mdays, tmMon := time.tmMon + 1 }
  else time

/-- A year more, after twelve months. The month stays. -/
def carryMon (time : Tm) : Tm :=
  if time.tmMon > 12 then { time with tmYear := time.tmYear + 1 } else time

/-- A century more, after 100 years. -/
def carryYear (time : Tm) (century : Int32) : Tm × Int32 :=
  if time.tmYear > 99 then ({ time with tmYear := time.tmYear % 100 }, century + 1)
  else (time, century)

/-- `time_read`, from `time_read_bcd` to the month. -/
def timeReadHours (time : Tm) (timezone : Int32) : Tm :=
  let time := { time with tmSec := fromBcd time.tmSec }
  let time := { time with tmMin := fromBcd time.tmMin }
  let time := { time with tmHour := fromBcd time.tmHour + timezone }
  let time := { time with tmWday := fromBcd time.tmWday }
  let time := { time with tmMday := fromBcd time.tmMday }
  let time := carryWday (carryHour time)
  { time with tmMon := fromBcd time.tmMon }

/-- `time_read`, for a month of `mdays` days: the date, and `century`. -/
def timeReadDate (time : Tm) (century mdays : Int32) : Tm × Int32 :=
  let time := carryMday time mdays
  let time := { time with tmYear := fromBcd time.tmYear }
  let time := carryMon time
  let time := { time with tmIsdst := -1 }
  carryYear time (fromBcd century)

/-- `time_read`, from `time_read_bcd` on. -/
def timeReadLocal (time : Tm) (century timezone : Int32) : Option (Tm × Int32) := do
  let time := timeReadHours time timezone
  let mdays ← tmTableAt timeMonthDays time.tmMon
  return timeReadDate time century mdays

/-- `time_read` leaves the date and `century`. -/
def TimeRead (clock : Clock) (time : Tm) (timezone : Int32) (time' : Tm) (century : Int32) : Prop :=
  ∃ bcd, Lib.Ends (timeReadBcdRound clock) (0, time) bcd
    ∧ timeReadLocal bcd.1 bcd.2 timezone = some (time', century)

/-- The date in `time`, with the years from `base` on. -/
structure Tm.Shows (time : Tm) (base : Nat) (t : CivilTime) : Prop where
  sec : time.tmSec = Int32.ofNat t.second
  min : time.tmMin = Int32.ofNat t.minute
  hour : time.tmHour = Int32.ofNat t.hour
  mday : time.tmMday = Int32.ofNat t.day
  mon : time.tmMon = Int32.ofNat t.month
  year : time.tmYear = Int32.ofNat (t.year - base)

/-! ## `mktime` -/

section Mktime

/-- From 2000 to 2099 every fourth year is a leap year. -/
theorem isLeap_iff_four {y : Nat} (h : y < 100) : IsLeap (2000 + y) ↔ y % 4 = 0 := by
  rw [IsLeap]
  omega

theorem daysToYear_1970 {y : Nat} (h : y ≤ 100) :
    daysToYear 1970 (2000 + y) = 365 * (30 + y) + (31 + y) / 4 := by
  induction y with
  | zero => decide
  | succ y ih =>
      rw [← Nat.add_assoc, daysToYear_succ (by omega), ih (by omega), yearDays]
      by_cases hleap : IsLeap (2000 + y)
      · have := (isLeap_iff_four (by omega)).mp hleap
        rw [if_pos hleap]
        omega
      · have := mt (isLeap_iff_four (by omega)).mpr hleap
        rw [if_neg hleap]
        omega

/-- The table is that of a leap year; an ordinary one has a day less from
March on. -/
theorem timeMonth_at {y m : Nat} (hm : 1 ≤ m) (hm' : m ≤ 12) :
    tmTableAt timeMonth (Int32.ofNat m) = some (Int32.ofNat
      (daysToMonth y m + if 2 < m ∧ ¬ IsLeap y then 1 else 0)) := by
  have hleap : ∀ m ≤ 12, 1 ≤ m → tmTableAt timeMonth (Int32.ofNat m)
      = some (Int32.ofNat (daysToMonth 2000 m)) := by decide
  have hnot : ∀ m ≤ 12, 1 ≤ m → tmTableAt timeMonth (Int32.ofNat m)
      = some (Int32.ofNat (daysToMonth 2001 m + if 2 < m then 1 else 0)) := by decide
  rcases leap_cases y with ⟨h, hlike⟩ | ⟨h, hlike⟩
  · rw [hleap m hm' hm, daysToMonth_congr hlike, if_neg fun hn => hn.2 h, Nat.add_zero]
  · rw [hnot m hm' hm, daysToMonth_congr hlike]
    simp only [h, not_false_eq_true, and_true]

theorem secMinute_eq : secMinute = Int32.ofNat 60 := rfl

theorem secHour_eq : secHour = Int32.ofNat 3600 := rfl

theorem secDay_eq : secDay = Int32.ofNat 86400 := rfl

theorem secYear_eq : secYear = Int32.ofNat 31536000 := rfl

/-- A number of units, in seconds. -/
theorem units_toUInt32 {unit : Int32} {k : Nat} (h : unit = Int32.ofNat k) (n : Nat) :
    (unit * Int32.ofNat n).toUInt32 = UInt32.ofNat (k * n) := by
  rw [h, ← Int32.ofNat_mul, Int32.toUInt32_ofNat']

/-- The correction takes back the day that the table has too many. -/
theorem monthSeconds (res : UInt32) (days : Nat) (c : Prop) [Decidable c] :
    (if c then res + (Int32.ofNat (days + if c then 1 else 0) * secDay).toUInt32 - secDay.toUInt32
      else res + (Int32.ofNat (days + if c then 1 else 0) * secDay).toUInt32)
      = res + UInt32.ofNat (86400 * days) := by
  rw [Int32.mul_comm, units_toUInt32 secDay_eq]
  split
  · rw [Nat.mul_add, UInt32.ofNat_add, ← UInt32.add_assoc, secDay_eq]
    exact UInt32.add_sub_cancel _ _
  · rfl

/-- `mktime` counts the seconds since 1970. -/
theorem mktime_shows {time : Tm} {t : CivilTime} (h : time.Shows 2000 t) (hfirst : 2000 ≤ t.year)
    (hlast : t.year ≤ 2099) : mktime time = some (UInt32.ofNat (t.seconds 1970)) := by
  obtain ⟨y, hy⟩ := Nat.exists_eq_add_of_le hfirst
  have hyear : time.tmYear + 30 = Int32.ofNat (y + 30) := by
    rw [h.year, hy, Nat.add_sub_cancel_left, Int32.ofNat_add]
    rfl
  have hquarter : (Int32.ofNat (y + 30) + 1) / 4 = Int32.ofNat ((y + 30 + 1) / 4) := by
    rw [Int32.ofNat_div (by omega) (by decide), Int32.ofNat_add (y + 30)]
    rfl
  have hrest : (Int32.ofNat (y + 30) + 2) % 4 = Int32.ofNat ((y + 30 + 2) % 4) := by
    rw [Int32.ofNat_mod (by omega) (by decide), Int32.ofNat_add (y + 30)]
    rfl
  have hleap : (Int32.ofNat t.month > 2 ∧ (Int32.ofNat (y + 30) + 2) % 4 ≠ 0)
      ↔ 2 < t.month ∧ ¬ IsLeap t.year := by
    have hlt : (y + 30 + 2) % 4 < 4 := Nat.mod_lt _ (by decide)
    have hzero : Int32.ofNat ((y + 30 + 2) % 4) = 0 ↔ (y + 30 + 2) % 4 = 0 := by
      generalize (y + 30 + 2) % 4 = r at hlt
      revert r
      decide
    rw [gt_iff_lt, hrest, ne_eq, hzero, hy, isLeap_iff_four (by omega)]
    refine and_congr (Int32.ofNat_lt_iff_lt (by decide) ?_) ?_
    · have := t.month_le
      omega
    · omega
  have hmday : time.tmMday - 1 = Int32.ofNat (t.day - 1) := by
    rw [h.mday, Int32.ofNat_sub _ _ t.one_le_day]
    rfl
  rw [mktime, h.mon, timeMonth_at (y := t.year) t.one_le_month t.month_le, Option.bind_eq_bind,
    Option.bind_some]
  simp only [hyear, hquarter, hleap, hmday, h.sec, h.min, h.hour, monthSeconds,
    units_toUInt32 secYear_eq, units_toUInt32 secDay_eq, units_toUInt32 secHour_eq,
    units_toUInt32 secMinute_eq, Int32.toUInt32_ofNat', ← UInt32.ofNat_add]
  refine congrArg (fun n => some (UInt32.ofNat n)) ?_
  rw [CivilTime.seconds, CivilTime.days, CivilTime.yearDay, hy, daysToYear_1970 (by omega)]
  omega

theorem mktime_toNat {time : Tm} {t : CivilTime} (h : time.Shows 2000 t) (hfirst : 2000 ≤ t.year)
    (hlast : t.year ≤ 2099) : ∃ res, mktime time = some res ∧ res.toNat = t.seconds 1970 := by
  refine ⟨_, mktime_shows h hfirst hlast, UInt32.toNat_ofNat_of_lt' ?_⟩
  have hlt : t.seconds 1970 < 86400 * daysToYear 1970 2100 :=
    CivilTime.seconds_lt_of_year (by omega) (Nat.lt_succ_of_le hlast)
  have hdays : daysToYear 1970 2100 = 47482 := daysToYear_1970 (y := 100) (by decide)
  rw [hdays] at hlt
  exact Nat.lt_of_lt_of_le hlt (by decide)

/-- For a date from 2000 to 2099, `mktime` returns the seconds since 1970,
and less than for a later one. -/
theorem mktime_seconds {time : Tm} {t : CivilTime} (h : time.Shows 2000 t) (hfirst : 2000 ≤ t.year)
    (hlast : t.year ≤ 2099) :
    ∃ res, mktime time = some res ∧ res.toNat = t.seconds 1970
      ∧ ∀ (time' : Tm) (t' : CivilTime), time'.Shows 2000 t' → 2000 ≤ t'.year → t'.year ≤ 2099 →
          t.key < t'.key → ∃ res', mktime time' = some res' ∧ res < res' := by
  obtain ⟨res, hres, hseconds⟩ := mktime_toNat h hfirst hlast
  refine ⟨res, hres, hseconds, fun time' t' h' hfirst' hlast' hkey => ?_⟩
  obtain ⟨res', hres', hseconds'⟩ := mktime_toNat h' hfirst' hlast'
  refine ⟨res', hres', UInt32.lt_iff_toNat_lt.mpr ?_⟩
  rw [hseconds, hseconds']
  exact CivilTime.seconds_lt (by omega) hkey

/-- The first second that a signed 32-bit number does not count. -/
def firstOf2038 : CivilTime := .ofNumbers 2038 1 19 3 14 8 (by decide) (by decide)

def firstOf2038Tm : Tm where
  tmSec := 8
  tmMin := 14
  tmHour := 3
  tmMday := 19
  tmMon := 1
  tmYear := 38
  tmWday := 3
  tmIsdst := -1

theorem mktime_seconds_2038 : ∃ res, mktime firstOf2038Tm = some res ∧ res.toNat = 2 ^ 31 := by
  have hshows : firstOf2038Tm.Shows 2000 firstOf2038 := ⟨rfl, rfl, rfl, rfl, rfl, by decide⟩
  have hdays : daysToYear 1970 firstOf2038.year = 24837 := daysToYear_1970 (y := 38) (by decide)
  obtain ⟨res, hres, hseconds, -⟩ := mktime_seconds hshows (by decide) (by decide)
  refine ⟨res, hres, ?_⟩
  rw [hseconds, CivilTime.seconds, CivilTime.days, hdays]
  rfl

end Mktime

end Csos
