import Csos.Time

/-!
# Local time

`time_read` carries from the hours up to the century. `readDay`, `readMonth`
and `readYear` are the date that it makes, in numbers that do not wrap;
`CivilTime.later` is the one that the calendar has. February ends with its 28th day in every year,
and the month after December has the number 13, so the two agree unless
the hours lead over one of these ends, or begin behind the first.
-/

namespace Csos

open Lib

/-! ## The registers -/

/-- A number below 100 in BCD. -/
def bcd (n : Nat) : UInt8 := UInt8.ofNat (n / 10 * 16 + n % 10)

/-- The registers hold the date, all the time. The one of the day of the
week is left open. -/
structure Clock.Holds (clock : Clock) (t : CivilTime) : Prop where
  second : ∀ n, clock n cmosSecond = bcd t.second
  minute : ∀ n, clock n cmosMinute = bcd t.minute
  hour : ∀ n, clock n cmosHour = bcd t.hour
  day : ∀ n, clock n cmosDay = bcd t.day
  month : ∀ n, clock n cmosMonth = bcd t.month
  year : ∀ n, clock n cmosYear = bcd (t.year % 100)
  century : ∀ n, clock n cmosCentury = bcd (t.year / 100)

/-- A field of `tm` that holds a number in BCD. -/
def bcdField (n : Nat) : Int32 := Int32.ofNat (bcd n).toNat

theorem fromBcd_bcdField : ∀ n < 100, fromBcd (bcdField n) = Int32.ofNat n := by decide

/-- `time_read_bcd` leaves the fields as the registers have them. -/
structure Tm.InBcd (time : Tm) (t : CivilTime) : Prop where
  sec : time.tmSec = bcdField t.second
  min : time.tmMin = bcdField t.minute
  hour : time.tmHour = bcdField t.hour
  mday : time.tmMday = bcdField t.day
  mon : time.tmMon = bcdField t.month
  year : time.tmYear = bcdField (t.year % 100)

section Registers

variable {clock : Clock} {t : CivilTime} {time : Tm}

/-- The first round reads the date. -/
theorem timeReadBcd_ends (h : clock.Holds t) (time : Tm) :
    ∃ bcd : Tm, bcd.InBcd t
      ∧ Lib.Ends (timeReadBcdRound clock) (0, time) (bcd, bcdField (t.year / 100)) := by
  have hfield : ∀ {n addr m}, clock n addr = bcd m → cmosRead clock n addr = bcdField m :=
    fun heq => by rw [cmosRead, heq, bcdField]
  let wday := cmosRead clock 4 cmosWeekday
  refine ⟨⟨bcdField t.second, bcdField t.minute, bcdField t.hour, bcdField t.day,
    bcdField t.month, bcdField (t.year % 100), wday, time.tmIsdst⟩, ⟨rfl, rfl, rfl, rfl, rfl, rfl⟩,
    Lib.Ends.of_leave ?_⟩
  simp only [timeReadBcdRound, hfield (h.second _), hfield (h.minute _), hfield (h.hour _),
    hfield (h.day _), hfield (h.month _), hfield (h.year _), hfield (h.century _), ne_eq,
    not_true_eq_false, if_false]
  rfl

end Registers

/-! ## The carries -/

section Carries

variable {time : Tm} {h d m y c : Nat}

theorem carryHour_fields (hhour : time.tmHour = Int32.ofNat h) (hday : time.tmMday = Int32.ofNat d)
    (hlt : h < 48) :
    (carryHour time).tmHour = Int32.ofNat (h % 24)
      ∧ (carryHour time).tmMday = Int32.ofNat (if 24 ≤ h then d + 1 else d)
      ∧ (carryHour time).tmSec = time.tmSec ∧ (carryHour time).tmMin = time.tmMin
      ∧ (carryHour time).tmMon = time.tmMon ∧ (carryHour time).tmYear = time.tmYear := by
  have hge : time.tmHour ≥ 24 ↔ 24 ≤ h := by
    rw [hhour]
    exact Int32.ofNat_le_iff_le (by decide) (by omega)
  rw [carryHour]
  by_cases hover : 24 ≤ h
  · rw [if_pos (hge.mpr hover), if_pos hover]
    refine ⟨?_, ?_, rfl, rfl, rfl, rfl⟩
    · rw [hhour, Int32.ofNat_mod (by omega) (by decide)]
      rfl
    · rw [hday, Int32.ofNat_add]
      rfl
  · rw [if_neg (mt hge.mp hover), if_neg hover, Nat.mod_eq_of_lt (Nat.not_le.mp hover)]
    exact ⟨hhour, hday, rfl, rfl, rfl, rfl⟩

theorem carryMday_fields {mdays : Nat} (hday : time.tmMday = Int32.ofNat d)
    (hmon : time.tmMon = Int32.ofNat m) (hlt : d < 100) (hmdays : mdays < 100) :
    (carryMday time (Int32.ofNat mdays)).tmMday
        = Int32.ofNat (if mdays < d then d - mdays else d)
      ∧ (carryMday time (Int32.ofNat mdays)).tmMon = Int32.ofNat (if mdays < d then m + 1 else m)
      ∧ (carryMday time (Int32.ofNat mdays)).tmSec = time.tmSec
      ∧ (carryMday time (Int32.ofNat mdays)).tmMin = time.tmMin
      ∧ (carryMday time (Int32.ofNat mdays)).tmHour = time.tmHour
      ∧ (carryMday time (Int32.ofNat mdays)).tmYear = time.tmYear := by
  have hgt : time.tmMday > Int32.ofNat mdays ↔ mdays < d := by
    rw [hday]
    exact Int32.ofNat_lt_iff_lt (by omega) (by omega)
  rw [carryMday]
  by_cases hover : mdays < d
  · rw [if_pos (hgt.mpr hover), if_pos hover, if_pos hover]
    refine ⟨?_, ?_, rfl, rfl, rfl, rfl⟩
    · rw [hday, Int32.ofNat_sub _ _ (Nat.le_of_lt hover)]
    · rw [hmon, Int32.ofNat_add]
      rfl
  · rw [if_neg (mt hgt.mp hover), if_neg hover, if_neg hover]
    exact ⟨hday, hmon, rfl, rfl, rfl, rfl⟩

theorem carryMon_fields (hmon : time.tmMon = Int32.ofNat m) (hyear : time.tmYear = Int32.ofNat y)
    (hlt : m < 100) :
    (carryMon time).tmYear = Int32.ofNat (if 12 < m then y + 1 else y)
      ∧ (carryMon time).tmSec = time.tmSec ∧ (carryMon time).tmMin = time.tmMin
      ∧ (carryMon time).tmHour = time.tmHour ∧ (carryMon time).tmMday = time.tmMday
      ∧ (carryMon time).tmMon = time.tmMon := by
  have hgt : time.tmMon > 12 ↔ 12 < m := by
    rw [hmon]
    exact Int32.ofNat_lt_iff_lt (by decide) (by omega)
  rw [carryMon]
  by_cases hover : 12 < m
  · rw [if_pos (hgt.mpr hover), if_pos hover]
    refine ⟨?_, rfl, rfl, rfl, rfl, rfl⟩
    rw [hyear, Int32.ofNat_add]
    rfl
  · rw [if_neg (mt hgt.mp hover), if_neg hover]
    exact ⟨hyear, rfl, rfl, rfl, rfl, rfl⟩

theorem carryYear_fields (hyear : time.tmYear = Int32.ofNat y) (hlt : y < 200) :
    (carryYear time (Int32.ofNat c)).2 = Int32.ofNat (c + y / 100)
      ∧ (carryYear time (Int32.ofNat c)).1.tmYear = Int32.ofNat (y % 100)
      ∧ (carryYear time (Int32.ofNat c)).1.tmSec = time.tmSec
      ∧ (carryYear time (Int32.ofNat c)).1.tmMin = time.tmMin
      ∧ (carryYear time (Int32.ofNat c)).1.tmHour = time.tmHour
      ∧ (carryYear time (Int32.ofNat c)).1.tmMday = time.tmMday
      ∧ (carryYear time (Int32.ofNat c)).1.tmMon = time.tmMon := by
  have hgt : time.tmYear > 99 ↔ 99 < y := by
    rw [hyear]
    exact Int32.ofNat_lt_iff_lt (by decide) (by omega)
  rw [carryYear]
  by_cases hover : 99 < y
  · have hone : y / 100 = 1 := by omega
    rw [if_pos (hgt.mpr hover), hone]
    refine ⟨?_, ?_, rfl, rfl, rfl, rfl, rfl⟩
    · rw [Int32.ofNat_add]
      rfl
    · rw [hyear, Int32.ofNat_mod (by omega) (by decide)]
      rfl
  · rw [if_neg (mt hgt.mp hover), Nat.div_eq_of_lt (by omega), Nat.mod_eq_of_lt (by omega)]
    exact ⟨rfl, hyear, rfl, rfl, rfl, rfl, rfl⟩

theorem carryWday_fields (time : Tm) :
    (carryWday time).tmHour = time.tmHour ∧ (carryWday time).tmMday = time.tmMday
      ∧ (carryWday time).tmSec = time.tmSec ∧ (carryWday time).tmMin = time.tmMin
      ∧ (carryWday time).tmMon = time.tmMon ∧ (carryWday time).tmYear = time.tmYear := by
  rw [carryWday]
  split <;> exact ⟨rfl, rfl, rfl, rfl, rfl, rfl⟩

end Carries

/-! ## The date -/

/-- The table is that of an ordinary year. -/
theorem timeMonthDays_at : ∀ m ≤ 12, 1 ≤ m →
    tmTableAt timeMonthDays (Int32.ofNat m) = some (Int32.ofNat (monthDays 2001 m)) := by decide

/-- The days of the month before `time_read` looks at its length. -/
def readDays (t : CivilTime) (hours : Nat) : Nat :=
  if 24 ≤ t.hour + hours then t.day + 1 else t.day

/-- The day that `time_read` makes of the date, the month and the year. -/
def readDay (t : CivilTime) (hours : Nat) : Nat :=
  if monthDays 2001 t.month < readDays t hours then readDays t hours - monthDays 2001 t.month
  else readDays t hours

def readMonth (t : CivilTime) (hours : Nat) : Nat :=
  if monthDays 2001 t.month < readDays t hours then t.month + 1 else t.month

def readYear (t : CivilTime) (hours : Nat) : Nat :=
  if 12 < readMonth t hours then t.year + 1 else t.year

section Date

variable {t : CivilTime} {bcd : Tm} {hours : Nat}

theorem readDays_le (t : CivilTime) (hours : Nat) : readDays t hours ≤ 32 := by
  have hday := Nat.le_trans t.day_le (monthDays_le _ _)
  rw [readDays]
  split <;> omega

theorem readDay_le (t : CivilTime) (hours : Nat) : readDay t hours ≤ 32 := by
  have hdays := readDays_le t hours
  rw [readDay]
  split <;> omega

theorem readMonth_le (t : CivilTime) (hours : Nat) : readMonth t hours ≤ 13 := by
  have hmonth := t.month_le
  rw [readMonth]
  split <;> omega

theorem timeReadHours_fields (h : bcd.InBcd t) (hhours : hours ≤ 14) :
    (timeReadHours bcd (Int32.ofNat hours)).tmSec = Int32.ofNat t.second
      ∧ (timeReadHours bcd (Int32.ofNat hours)).tmMin = Int32.ofNat t.minute
      ∧ (timeReadHours bcd (Int32.ofNat hours)).tmHour = Int32.ofNat ((t.hour + hours) % 24)
      ∧ (timeReadHours bcd (Int32.ofNat hours)).tmMday = Int32.ofNat (readDays t hours)
      ∧ (timeReadHours bcd (Int32.ofNat hours)).tmMon = Int32.ofNat t.month
      ∧ (timeReadHours bcd (Int32.ofNat hours)).tmYear = bcdField (t.year % 100) := by
  have hhour := t.hour_lt
  have hmin := t.minute_lt
  have hsec := t.second_lt
  have hmonth := t.month_le
  have hday := Nat.le_trans t.day_le (monthDays_le _ _)
  let time : Tm := { bcd with
    tmSec := fromBcd bcd.tmSec, tmMin := fromBcd bcd.tmMin
    tmHour := fromBcd bcd.tmHour + Int32.ofNat hours, tmWday := fromBcd bcd.tmWday
    tmMday := fromBcd bcd.tmMday }
  have heq : timeReadHours bcd (Int32.ofNat hours) = { carryWday (carryHour time) with
      tmMon := fromBcd (carryWday (carryHour time)).tmMon } := rfl
  have hsec₁ : time.tmSec = Int32.ofNat t.second := by
    rw [← fromBcd_bcdField t.second (by omega), ← h.sec]
  have hmin₁ : time.tmMin = Int32.ofNat t.minute := by
    rw [← fromBcd_bcdField t.minute (by omega), ← h.min]
  have hhour₁ : time.tmHour = Int32.ofNat (t.hour + hours) := by
    rw [Int32.ofNat_add, ← fromBcd_bcdField t.hour (by omega), ← h.hour]
  have hday₁ : time.tmMday = Int32.ofNat t.day := by
    rw [← fromBcd_bcdField t.day (by omega), ← h.mday]
  obtain ⟨hhour₂, hday₂, hsec₂, hmin₂, hmon₂, hyear₂⟩ := carryHour_fields hhour₁ hday₁ (by omega)
  obtain ⟨hhour₃, hday₃, hsec₃, hmin₃, hmon₃, hyear₃⟩ := carryWday_fields (carryHour time)
  have hmon₄ : fromBcd (carryWday (carryHour time)).tmMon = Int32.ofNat t.month := by
    have hmon₁ : time.tmMon = bcdField t.month := h.mon
    rw [hmon₃, hmon₂, hmon₁, fromBcd_bcdField t.month (by omega)]
  have hyear₁ : time.tmYear = bcdField (t.year % 100) := h.year
  rw [heq]
  exact ⟨hsec₃.trans (hsec₂.trans hsec₁), hmin₃.trans (hmin₂.trans hmin₁), hhour₃.trans hhour₂,
    hday₃.trans hday₂, hmon₄, hyear₃.trans (hyear₂.trans hyear₁)⟩

theorem timeReadDate_fields {time : Tm} (hday : time.tmMday = Int32.ofNat (readDays t hours))
    (hmon : time.tmMon = Int32.ofNat t.month) (hyear : time.tmYear = bcdField (t.year % 100))
    (hlt : t.year < 10000) :
    ∃ time' : Tm, timeReadDate time (bcdField (t.year / 100))
          (Int32.ofNat (monthDays 2001 t.month))
        = (time', Int32.ofNat (readYear t hours / 100))
      ∧ time'.tmSec = time.tmSec ∧ time'.tmMin = time.tmMin ∧ time'.tmHour = time.tmHour
      ∧ time'.tmMday = Int32.ofNat (readDay t hours)
      ∧ time'.tmMon = Int32.ofNat (readMonth t hours)
      ∧ time'.tmYear = Int32.ofNat (readYear t hours % 100) := by
  obtain ⟨hday₁, hmon₁, hsec₁, hmin₁, hhour₁, hyear₁⟩ := carryMday_fields hday hmon
    (Nat.lt_of_le_of_lt (readDays_le t hours) (by decide))
    (Nat.lt_of_le_of_lt (monthDays_le 2001 t.month) (by decide))
  let time₁ : Tm := { carryMday time (Int32.ofNat (monthDays 2001 t.month)) with
    tmYear := fromBcd (carryMday time (Int32.ofNat (monthDays 2001 t.month))).tmYear }
  have hmon₁' : time₁.tmMon = Int32.ofNat (readMonth t hours) := hmon₁
  have hyear₁' : time₁.tmYear = Int32.ofNat (t.year % 100) := by
    rw [← fromBcd_bcdField (t.year % 100) (Nat.mod_lt _ (by decide)), ← hyear]
    exact congrArg fromBcd hyear₁
  obtain ⟨hyear₂, hsec₂, hmin₂, hhour₂, hday₂, hmon₂⟩ := carryMon_fields hmon₁' hyear₁'
    (Nat.lt_of_le_of_lt (readMonth_le t hours) (by decide))
  obtain ⟨n, hn⟩ : ∃ n, n = if 12 < readMonth t hours then t.year % 100 + 1 else t.year % 100 :=
    ⟨_, rfl⟩
  have hcarried : t.year / 100 + n / 100 = readYear t hours / 100
      ∧ n % 100 = readYear t hours % 100 ∧ n < 200 := by
    rw [readYear, hn]
    split <;> omega
  obtain ⟨hcentury, hwithin, hn_lt⟩ := hcarried
  rw [← hn] at hyear₂
  let time₂ : Tm := { carryMon time₁ with tmIsdst := -1 }
  have heq : timeReadDate time (bcdField (t.year / 100)) (Int32.ofNat (monthDays 2001 t.month))
      = carryYear time₂ (Int32.ofNat (t.year / 100)) := by
    rw [← fromBcd_bcdField (t.year / 100) (by omega)]
    rfl
  obtain ⟨hcentury₃, hyear₃, hsec₃, hmin₃, hhour₃, hday₃, hmon₃⟩ :=
    @carryYear_fields time₂ n (t.year / 100) hyear₂ hn_lt
  rw [hcentury] at hcentury₃
  rw [hwithin] at hyear₃
  have hsec : time₂.tmSec = time.tmSec := hsec₂.trans hsec₁
  have hmin : time₂.tmMin = time.tmMin := hmin₂.trans hmin₁
  have hhour : time₂.tmHour = time.tmHour := hhour₂.trans hhour₁
  refine ⟨(carryYear time₂ (Int32.ofNat (t.year / 100))).1, ?_, hsec₃.trans hsec,
    hmin₃.trans hmin, hhour₃.trans hhour, hday₃.trans (hday₂.trans hday₁),
    hmon₃.trans (hmon₂.trans hmon₁), hyear₃⟩
  rw [heq, ← hcentury₃]

/-- `time_read` makes the date `readYear`, `readMonth` and `readDay`. -/
theorem timeReadLocal_eq (h : bcd.InBcd t) (hlt : t.year < 10000) (hhours : hours ≤ 14) :
    ∃ time' : Tm, timeReadLocal bcd (bcdField (t.year / 100)) (Int32.ofNat hours)
        = some (time', Int32.ofNat (readYear t hours / 100))
      ∧ time'.tmSec = Int32.ofNat t.second ∧ time'.tmMin = Int32.ofNat t.minute
      ∧ time'.tmHour = Int32.ofNat ((t.hour + hours) % 24)
      ∧ time'.tmMday = Int32.ofNat (readDay t hours)
      ∧ time'.tmMon = Int32.ofNat (readMonth t hours)
      ∧ time'.tmYear = Int32.ofNat (readYear t hours % 100) := by
  obtain ⟨hsec, hmin, hhour, hday, hmon, hyear⟩ := timeReadHours_fields h hhours
  obtain ⟨time', hdate, hsec', hmin', hhour', hrest⟩ := timeReadDate_fields hday hmon hyear hlt
  refine ⟨time', ?_, hsec'.trans hsec, hmin'.trans hmin, hhour'.trans hhour, hrest⟩
  rw [timeReadLocal, hmon, timeMonthDays_at t.month t.month_le t.one_le_month, Option.bind_eq_bind,
    Option.bind_some, hdate]
  rfl

end Date

/-! ## The calendar -/

/-- The carries of `time_read` find the date: February does not go on to
its 29th day, and the year does not end. -/
def CarriesRight (t : CivilTime) (hours : Nat) : Prop :=
  ¬ (t.month = 2 ∧ t.day = 29)
    ∧ (24 ≤ t.hour + hours →
      ¬ (t.month = 2 ∧ t.day = 28 ∧ IsLeap t.year) ∧ ¬ (t.month = 12 ∧ t.day = 31))

instance (t : CivilTime) (hours : Nat) : Decidable (CarriesRight t hours) :=
  inferInstanceAs (Decidable (_ ∧ _))

section Calendar

variable {t : CivilTime} {hours : Nat}

/-- On the same day, `time_read` is wrong on the 29th of February. -/
theorem readDate_same_iff (h : t.hour + hours < 24) :
    readYear t hours = t.year ∧ readMonth t hours = t.month ∧ readDay t hours = t.day
      ↔ ¬ (t.month = 2 ∧ t.day = 29) := by
  have hordinary := @monthDays_ordinary t.year t.month t.month_le
  have hday := t.day_le
  have hmonth := t.month_le
  rw [readYear, readDay, readMonth, readDays, if_neg (Nat.not_le.mpr h)]
  by_cases hover : monthDays 2001 t.month < t.day
  · -- only the 29th of February is behind the end of an ordinary month
    have hfeb : t.month = 2 := by
      by_contra hne
      rw [if_neg fun h => hne h.1] at hordinary
      omega
    rw [hfeb] at hordinary hover hday ⊢
    have hdays : monthDays 2001 2 = 28 := rfl
    refine iff_of_false (fun hsame => ?_) (not_not_intro ⟨rfl, ?_⟩)
    · rw [if_pos hover] at hsame
      exact absurd hsame.2.1 (by decide)
    · split at hordinary <;> omega
  · rw [if_neg hover, if_neg hover, if_neg (Nat.not_lt.mpr hmonth)]
    refine iff_of_true ⟨rfl, rfl, rfl⟩ ?_
    rintro ⟨hfeb, hlast⟩
    rw [hfeb, hlast] at hover
    exact hover (by decide)

/-- No carry goes wrong from this day to the next. -/
def DayCarries (t : CivilTime) : Prop :=
  ¬ (t.month = 2 ∧ t.day = 29) ∧ ¬ (t.month = 2 ∧ t.day = 28 ∧ IsLeap t.year)
    ∧ ¬ (t.month = 12 ∧ t.day = 31)

/-- Inside a month, the next day is wrong behind the 28th of February. -/
theorem readDate_within (h : 24 ≤ t.hour + hours) (hin : t.day < monthDays t.year t.month) :
    readYear t hours = t.year ∧ readMonth t hours = t.month ∧ readDay t hours = t.day + 1
      ↔ DayCarries t := by
  have hordinary := @monthDays_ordinary t.year t.month t.month_le
  have hfeb : t.month = 2 → monthDays 2001 t.month = 28 := fun heq => by rw [heq]; rfl
  have hdec : t.month = 12 → monthDays 2001 t.month = 31 := fun heq => by rw [heq]; rfl
  have hle := t.month_le
  rw [readYear, readDay, readMonth, readDays, if_pos h]
  by_cases hover : monthDays 2001 t.month < t.day + 1
  · have hleap : t.month = 2 ∧ IsLeap t.year := by
      by_contra hne
      rw [if_neg hne] at hordinary
      omega
    have := hfeb hleap.1
    rw [if_pos hleap] at hordinary
    refine iff_of_false (fun hsame => ?_) fun hright => hright.2.1 ⟨hleap.1, by omega, hleap.2⟩
    rw [if_pos hover] at hsame
    exact absurd hsame.2.1 (Nat.succ_ne_self _)
  · rw [if_neg hover, if_neg hover, if_neg (Nat.not_lt.mpr hle)]
    refine iff_of_true ⟨rfl, rfl, rfl⟩ ⟨?_, ?_, ?_⟩
    · rintro ⟨hm, hd⟩
      have := hfeb hm
      omega
    · rintro ⟨hm, hd, -⟩
      have := hfeb hm
      omega
    · rintro ⟨hm, hd⟩
      have := hdec hm
      omega

/-- At the end of a month, it is wrong behind the 29th of February. -/
theorem readDate_month (h : 24 ≤ t.hour + hours) (hlast : t.day = monthDays t.year t.month)
    (hlt : t.month < 12) :
    readYear t hours = t.year ∧ readMonth t hours = t.month + 1 ∧ readDay t hours = 1
      ↔ DayCarries t := by
  have hordinary := @monthDays_ordinary t.year t.month t.month_le
  have hfeb : t.month = 2 → monthDays 2001 t.month = 28 := fun heq => by rw [heq]; rfl
  have hover : monthDays 2001 t.month < t.day + 1 := by omega
  rw [readYear, readDay, readMonth, readDays, if_pos h, if_pos hover, if_pos hover,
    if_neg (by omega)]
  by_cases hleap : t.month = 2 ∧ IsLeap t.year
  · have := hfeb hleap.1
    rw [if_pos hleap] at hordinary
    exact iff_of_false (fun hsame => by omega) fun hright => hright.1 ⟨hleap.1, by omega⟩
  · rw [if_neg hleap] at hordinary
    refine iff_of_true ⟨rfl, rfl, by omega⟩ ⟨?_, ?_, ?_⟩
    · rintro ⟨hm, hd⟩
      have := hfeb hm
      omega
    · rintro ⟨hm, -, hl⟩
      exact hleap ⟨hm, hl⟩
    · rintro ⟨hm, -⟩
      omega

/-- At the end of the year the month is never set back. -/
theorem readDate_year (h : 24 ≤ t.hour + hours) (hlast : t.day = monthDays t.year t.month)
    (heq : t.month = 12) : readMonth t hours ≠ 1 ∧ ¬ DayCarries t := by
  have hdec : monthDays t.year t.month = 31 ∧ monthDays 2001 t.month = 31 := by
    rw [heq]
    exact ⟨rfl, rfl⟩
  refine ⟨?_, fun hright => hright.2.2 ⟨heq, hlast.trans hdec.1⟩⟩
  rw [readMonth, readDays, if_pos h, if_pos (by omega), heq]
  decide

theorem readDate_next_iff (h : 24 ≤ t.hour + hours) :
    readYear t hours = t.tomorrow.year ∧ readMonth t hours = t.tomorrow.month
        ∧ readDay t hours = t.tomorrow.day
      ↔ DayCarries t := by
  rcases t.tomorrow_cases with ⟨hin, hyear, hmonth, hday⟩ | ⟨hlast, hlt, hyear, hmonth, hday⟩
    | ⟨hlast, heq, hyear, hmonth, hday⟩
  · rw [hyear, hmonth, hday, readDate_within h hin]
  · rw [hyear, hmonth, hday, readDate_month h hlast hlt]
  · obtain ⟨hwrong, hnot⟩ := readDate_year h hlast heq
    rw [hmonth]
    exact iff_of_false (fun hsame => hwrong hsame.2.1) hnot

/-- The date that `time_read` makes is the later one when the carries find
it. -/
theorem readDate_iff (h : hours ≤ 24) :
    readYear t hours = (t.later hours h).year ∧ readMonth t hours = (t.later hours h).month
        ∧ readDay t hours = (t.later hours h).day
      ↔ CarriesRight t hours := by
  have hdate := CivilTime.later_date (t := t) h
  rw [CarriesRight]
  by_cases hover : 24 ≤ t.hour + hours
  · rw [if_pos hover, Prod.mk.injEq, Prod.mk.injEq] at hdate
    rw [hdate.1, hdate.2.1, hdate.2.2, readDate_next_iff hover]
    simp only [hover, forall_const, DayCarries]
  · rw [if_neg hover, Prod.mk.injEq, Prod.mk.injEq] at hdate
    rw [hdate.1, hdate.2.1, hdate.2.2, readDate_same_iff (Nat.not_le.mp hover)]
    simp only [hover, false_implies, and_true]

end Calendar

/-! ## The law -/

/-- `time_read` yields the date that is `hours` later. -/
def LocalTime (clock : Clock) (time : Tm) (t : CivilTime) (hours : Nat) : Prop :=
  ∃ (time' : Tm) (century : Int32) (u : CivilTime),
    TimeRead clock time (Int32.ofNat hours) time' century
      ∧ u.seconds 0 = t.seconds 0 + 3600 * hours
      ∧ century = Int32.ofNat (u.year / 100) ∧ time'.Shows (100 * (u.year / 100)) u

theorem int32_ofNat_inj {a b : Nat} (ha : a < 2 ^ 31) (hb : b < 2 ^ 31)
    (h : Int32.ofNat a = Int32.ofNat b) : a = b := by
  have hint := congrArg Int32.toInt h
  rw [Int32.toInt_ofNat_of_lt ha, Int32.toInt_ofNat_of_lt hb] at hint
  exact Int.ofNat_inj.mp hint

section Law

variable {clock : Clock} {t : CivilTime} {hours : Nat}

/-- What `time_read` leaves when the registers hold the date. -/
theorem timeRead_held (hheld : clock.Holds t) (hlt : t.year < 10000) (hhours : hours ≤ 14)
    (time : Tm) :
    ∃ time' : Tm, TimeRead clock time (Int32.ofNat hours) time'
          (Int32.ofNat (readYear t hours / 100))
      ∧ time'.tmSec = Int32.ofNat t.second ∧ time'.tmMin = Int32.ofNat t.minute
      ∧ time'.tmHour = Int32.ofNat ((t.hour + hours) % 24)
      ∧ time'.tmMday = Int32.ofNat (readDay t hours)
      ∧ time'.tmMon = Int32.ofNat (readMonth t hours)
      ∧ time'.tmYear = Int32.ofNat (readYear t hours % 100) := by
  obtain ⟨bcd, hbcd, hends⟩ := timeReadBcd_ends hheld time
  obtain ⟨time', hread, hfields⟩ := timeReadLocal_eq hbcd hlt hhours
  exact ⟨time', ⟨_, hends, hread⟩, hfields⟩

theorem timeRead_unique {time time₁ time₂ : Tm} {timezone c₁ c₂ : Int32}
    (h₁ : TimeRead clock time timezone time₁ c₁) (h₂ : TimeRead clock time timezone time₂ c₂) :
    time₁ = time₂ ∧ c₁ = c₂ := by
  obtain ⟨bcd₁, hends₁, hread₁⟩ := h₁
  obtain ⟨bcd₂, hends₂, hread₂⟩ := h₂
  obtain rfl := hends₁.unique hends₂
  exact Prod.mk.inj (Option.some.inj (hread₁.symm.trans hread₂))

/-- Local time is the date `hours` later exactly when the carries find it. -/
theorem timeRead_local_iff (hfirst : 2000 ≤ t.year) (hlast : t.year ≤ 2099) (hhours : hours ≤ 14)
    (hheld : clock.Holds t) (time : Tm) :
    LocalTime clock time t hours ↔ CarriesRight t hours := by
  have hle : hours ≤ 24 := Nat.le_trans hhours (by decide)
  obtain ⟨time', hread, hsec, hmin, hhour, hmday, hmon, hyear⟩ :=
    timeRead_held hheld (by omega) hhours time
  obtain ⟨hhour', hmin', hsec'⟩ := CivilTime.later_time (t := t) hle
  have hreadYear : readYear t hours ≤ t.year + 1 := by
    rw [readYear]
    split <;> omega
  rw [← readDate_iff hle]
  constructor
  · rintro ⟨time'', century, u, hread', hseconds, hcentury, hshows⟩
    obtain ⟨rfl, rfl⟩ := timeRead_unique hread hread'
    obtain rfl : u = t.later hours hle := CivilTime.seconds_inj (Nat.zero_le _) (Nat.zero_le _)
      (hseconds.trans (CivilTime.later_seconds (Nat.zero_le _) hle).symm)
    have hu := CivilTime.later_year_le (t := t) hle
    have hmonth := (t.later hours hle).month_le
    have hday := Nat.le_trans (t.later hours hle).day_le (monthDays_le _ _)
    have hm := int32_ofNat_inj (by have := readMonth_le t hours; omega) (by omega)
      (hmon.symm.trans hshows.mon)
    have hd := int32_ofNat_inj (by have := readDay_le t hours; omega) (by omega)
      (hmday.symm.trans hshows.mday)
    have hy := int32_ofNat_inj (by omega) (by omega) (hyear.symm.trans hshows.year)
    have hc := int32_ofNat_inj (by omega) (by omega) hcentury
    exact ⟨by omega, hm, hd⟩
  · rintro ⟨hy, hm, hd⟩
    refine ⟨time', _, t.later hours hle, hread, CivilTime.later_seconds (Nat.zero_le _) hle, ?_, ?_⟩
    · rw [hy]
    · refine ⟨hsec.trans (by rw [hsec']), hmin.trans (by rw [hmin']), hhour.trans (by rw [hhour']),
        hmday.trans (by rw [hd]), hmon.trans (by rw [hm]), hyear.trans ?_⟩
      rw [hy, Nat.mod_eq_sub_mul_div]

/-- A clock that stands at the date. -/
def clockAt (t : CivilTime) : Clock := fun _ addr =>
  if addr = cmosSecond then bcd t.second
  else if addr = cmosMinute then bcd t.minute
  else if addr = cmosHour then bcd t.hour
  else if addr = cmosDay then bcd t.day
  else if addr = cmosMonth then bcd t.month
  else if addr = cmosYear then bcd (t.year % 100)
  else if addr = cmosCentury then bcd (t.year / 100)
  else 1

theorem clockAt_holds (t : CivilTime) : (clockAt t).Holds t :=
  ⟨fun _ => rfl, fun _ => rfl, fun _ => rfl, fun _ => rfl, fun _ => rfl, fun _ => rfl, fun _ => rfl⟩

def blankTm : Tm := ⟨0, 0, 0, 0, 0, 0, 0, 0⟩

/-- The evening of a day of 2023, in the last hours of the month `month`. -/
def lastEvening (month : Nat) (h : 1 ≤ month ∧ month ≤ 12) : CivilTime where
  year := 2023
  month := month
  day := monthDays 2023 month
  hour := 20
  minute := 30
  second := 0
  one_le_month := h.1
  month_le := h.2
  one_le_day := monthDays_pos _ _
  day_le := Nat.le_refl _
  hour_lt := by decide
  minute_lt := by decide
  second_lt := by decide

/-- February of 2023 ends. -/
theorem timeRead_local_february :
    LocalTime (clockAt (lastEvening 2 (by decide))) blankTm (lastEvening 2 (by decide)) 8 :=
  (timeRead_local_iff (by decide) (by decide) (by decide) (clockAt_holds _) blankTm).mpr (by decide)

/-- The year 2023 ends with the month 13. -/
theorem timeRead_local_fails :
    ¬ ∀ (clock : Clock) (time : Tm) (t : CivilTime) (hours : Nat), 2000 ≤ t.year → t.year ≤ 2099 →
      hours ≤ 14 → clock.Holds t → LocalTime clock time t hours := by
  intro hall
  let t := lastEvening 12 (by decide)
  obtain ⟨time', century, u, hread, -, -, hshows⟩ :=
    hall (clockAt t) blankTm t 8 (by decide) (by decide) (by decide) (clockAt_holds t)
  obtain ⟨time'', hread', -, -, -, -, hmon, -⟩ :=
    timeRead_held (clockAt_holds t) (by decide) (by decide : 8 ≤ 14) blankTm
  obtain ⟨rfl, -⟩ := timeRead_unique hread hread'
  have hmonth := u.month_le
  have heq := int32_ofNat_inj (by omega) (by decide) (hshows.mon.symm.trans hmon)
  rw [heq] at hmonth
  exact absurd hmonth (by decide)

end Law

end Csos
