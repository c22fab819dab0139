import Eyenet.Datetime
import Mathlib.Data.String.Basic

/-!
# Timestamps compared as text

SQLite has no type for timestamps: the column type writes a `datetime` as
`YYYY-MM-DD HH:MM:SS.ffffff` and leaves its offset out, and `WHERE` and `ORDER BY` compare the text.

* `dateChars_lt_iff` — dates as text are ordered as the days.
* `storageText_lt_iff` — texts of the column type are ordered as the clocks on the wall show.
-/

namespace Eyenet.Datetime

open Framing

/-! ## The clock on the wall -/

/-- Days since the first of January of the year 1, by the date as written. -/
def ordinalDay (d : Datetime) : ℕ :=
  daysBeforeYear d.year + daysBeforeMonth d.year d.month + (d.day - 1)

/-- Microseconds since midnight, by the time as written. -/
def dayMicros (d : Datetime) : ℕ :=
  ((d.hour * 60 + d.minute) * 60 + d.second) * 1000000 + d.microsecond

/-- Microseconds since the first midnight of the year 1, by date and time as written. -/
def wall (d : Datetime) : ℕ := d.ordinalDay * 86400000000 + d.dayMicros

/-- How far the zone is ahead of UTC, in microseconds; zero without a zone. -/
def offsetMicros (d : Datetime) : ℤ :=
  match d.utcoffset with
  | none => 0
  | some off => if off.negative then -(off.micros : ℤ) else off.micros

variable {a b d : Datetime}

theorem instant_eq (d : Datetime) : d.instant = d.wall - d.offsetMicros := by
  have hwall : d.wall = (((d.ordinalDay * 24 + d.hour) * 60 + d.minute) * 60 + d.second) *
      1000000 + d.microsecond := by
    simp only [wall, dayMicros]
    omega
  rw [hwall]
  rfl

theorem dayMicros_lt (d : Datetime) : d.dayMicros < 86400000000 := by
  have hh := d.hour_bound
  have hm := d.minute_bound
  have hs := d.second_bound
  have hu := d.microsecond_bound
  rw [dayMicros]
  omega

theorem wall_lt_iff : a.wall < b.wall ↔
    a.ordinalDay < b.ordinalDay ∨ a.ordinalDay = b.ordinalDay ∧ a.dayMicros < b.dayMicros := by
  have ha := a.dayMicros_lt
  have hb := b.dayMicros_lt
  simp only [wall]
  omega

/-! ## Days -/

theorem daysBeforeMonth_succ {month : ℕ} (year : ℕ) (h : 1 ≤ month) :
    daysBeforeMonth year (month + 1) = daysBeforeMonth year month + daysInMonth year month := by
  obtain ⟨m, rfl⟩ := Nat.exists_eq_add_of_le' h
  have hrange : List.range' 1 (m + 1) = List.range' 1 m ++ [m + 1] := by
    rw [List.range'_1_concat, Nat.add_comm]
  rw [daysBeforeMonth, daysBeforeMonth, Nat.add_sub_cancel, Nat.add_sub_cancel, hrange,
    List.map_append, List.sum_append]
  simp

theorem daysBeforeMonth_mono {month month' : ℕ} (year : ℕ) (h : 1 ≤ month) (h' : month ≤ month') :
    daysBeforeMonth year month ≤ daysBeforeMonth year month' := by
  induction month', h' using Nat.le_induction with
  | base => exact le_rfl
  | succ n hn ih =>
    rw [daysBeforeMonth_succ year (h.trans hn)]
    omega

theorem daysBeforeMonth_thirteen (year : ℕ) :
    daysBeforeMonth year 13 = 337 + daysInMonth year 2 := by
  simp only [daysBeforeMonth, List.range', List.map_cons, List.map_nil, List.sum_cons,
    List.sum_nil, Nat.reduceSub, Nat.reduceAdd]
  simp [daysInMonth]
  omega

/-- The twelve months make a year. -/
theorem daysBeforeYear_succ {year : ℕ} (h : 1 ≤ year) :
    daysBeforeYear (year + 1) = daysBeforeYear year + daysBeforeMonth year 13 := by
  obtain ⟨y, rfl⟩ := Nat.exists_eq_add_of_le' h
  have h4 : (y + 1) / 4 = y / 4 + if (y + 1) % 4 = 0 then 1 else 0 := by split <;> omega
  have h100 : (y + 1) / 100 = y / 100 + if (y + 1) % 100 = 0 then 1 else 0 := by split <;> omega
  have h400 : (y + 1) / 400 = y / 400 + if (y + 1) % 400 = 0 then 1 else 0 := by split <;> omega
  have hle : y / 100 ≤ y / 4 := Nat.div_le_div_left (by omega) (by omega)
  have hcentury : (y + 1) % 100 = 0 → (y + 1) % 4 = 0 := by omega
  have hfourth : (y + 1) % 400 = 0 → (y + 1) % 100 = 0 := by omega
  have hfebruary : daysInMonth (y + 1) 2 =
      if (y + 1) % 4 = 0 ∧ ((y + 1) % 100 ≠ 0 ∨ (y + 1) % 400 = 0) then 29 else 28 := rfl
  simp only [daysBeforeYear, Nat.add_sub_cancel]
  rw [daysBeforeMonth_thirteen, hfebruary, h4, h100, h400]
  -- what is left is about the quotients and the remainders, whatever they are
  generalize y / 4 = q4 at *
  generalize y / 100 = q100 at *
  generalize y / 400 = q400 at *
  generalize (y + 1) % 4 = r4 at *
  generalize (y + 1) % 100 = r100 at *
  generalize (y + 1) % 400 = r400 at *
  split_ifs <;> omega

theorem daysBeforeYear_mono {year year' : ℕ} (h : 1 ≤ year) (h' : year ≤ year') :
    daysBeforeYear year ≤ daysBeforeYear year' := by
  induction year', h' using Nat.le_induction with
  | base => exact le_rfl
  | succ n hn ih =>
    rw [daysBeforeYear_succ (h.trans hn)]
    omega

/-- The date is before another, by year, month and day. -/
def DateBefore (a b : Datetime) : Prop :=
  a.year < b.year ∨ a.year = b.year ∧ (a.month < b.month ∨ a.month = b.month ∧ a.day < b.day)

theorem DateBefore.ordinalDay_lt (h : DateBefore a b) : a.ordinalDay < b.ordinalDay := by
  have hay := a.year_bound
  have ham := a.month_bound
  have had := a.day_bound
  have hbm := b.month_bound
  have hbd := b.day_bound
  -- the day lies before the first of the next month
  have hnext : a.ordinalDay < daysBeforeYear a.year + daysBeforeMonth a.year (a.month + 1) := by
    rw [daysBeforeMonth_succ a.year ham.1, ordinalDay]
    omega
  rcases h with hyear | ⟨hyear, hmonth | ⟨hmonth, hday⟩⟩
  · have hmonths : daysBeforeMonth a.year (a.month + 1) ≤ daysBeforeMonth a.year 13 :=
      daysBeforeMonth_mono a.year (Nat.le_add_left 1 a.month) (Nat.succ_le_succ ham.2)
    have hyears := daysBeforeYear_mono (Nat.le_add_left 1 a.year) hyear
    rw [daysBeforeYear_succ hay.1] at hyears
    simp only [ordinalDay] at hnext ⊢
    omega
  · have hmonths := daysBeforeMonth_mono b.year (Nat.le_add_left 1 a.month) hmonth
    rw [hyear] at hnext
    simp only [ordinalDay] at hnext ⊢
    omega
  · simp only [ordinalDay, hyear, hmonth]
    omega

theorem DateBefore.trichotomy (a b : Datetime) : DateBefore a b ∨ DateBefore b a ∨
    a.year = b.year ∧ a.month = b.month ∧ a.day = b.day := by
  simp only [DateBefore]
  omega

/-- The days are ordered as the dates. -/
theorem dateBefore_iff : DateBefore a b ↔ a.ordinalDay < b.ordinalDay := by
  refine ⟨DateBefore.ordinalDay_lt, fun h => ?_⟩
  rcases DateBefore.trichotomy a b with hab | hba | ⟨hyear, hmonth, hday⟩
  · exact hab
  · exact absurd hba.ordinalDay_lt h.asymm
  · simp [ordinalDay, hyear, hmonth, hday] at h

theorem ordinalDay_eq_iff : a.ordinalDay = b.ordinalDay ↔
    a.year = b.year ∧ a.month = b.month ∧ a.day = b.day := by
  refine ⟨?_, ?_⟩
  · intro h
    rcases DateBefore.trichotomy a b with hab | hba | heq
    · exact absurd hab.ordinalDay_lt h.not_lt
    · exact absurd hba.ordinalDay_lt h.not_gt
    · exact heq
  · rintro ⟨hyear, hmonth, hday⟩
    rw [ordinalDay, ordinalDay, hyear, hmonth, hday]

/-! ## The text -/

/-- `YYYY-MM-DD` -/
def dateChars (d : Datetime) : List Char :=
  padded 4 d.year ++ '-' :: (padded 2 d.month ++ '-' :: padded 2 d.day)

/-- `HH:MM:SS` -/
def timeChars (d : Datetime) : List Char :=
  padded 2 d.hour ++ ':' :: (padded 2 d.minute ++ ':' :: padded 2 d.second)

/-- What the column type writes for a timestamp. -/
def storageText (d : Datetime) : String :=
  String.ofList (d.dateChars ++ ' ' :: (d.timeChars ++ '.' :: padded 6 d.microsecond))

theorem digitChar_lt_iff :
    ∀ {i j : ℕ}, i < 10 → j < 10 → (Nat.digitChar i < Nat.digitChar j ↔ i < j) := by
  have h : ∀ i < 10, ∀ j < 10, (Nat.digitChar i < Nat.digitChar j ↔ i < j) := by decide
  intro i j hi hj
  exact h i hi j hj

theorem padded_lt_iff {w m n : ℕ} (hm : m < 10 ^ w) (hn : n < 10 ^ w) :
    padded w m < padded w n ↔ m < n :=
  numeral_lt_iff digitChar_inj digitChar_lt_iff hm hn

theorem padded_eq_iff {w m n : ℕ} (hm : m < 10 ^ w) (hn : n < 10 ^ w) :
    padded w m = padded w n ↔ m = n :=
  ⟨numeral_inj digitChar_inj hm hn, fun h => by rw [h]⟩

/-- Numbers of one width with the same separator behind them. -/
theorem padded_sep_lt_iff {w m n : ℕ} {c : Char} {x y : List Char} (hm : m < 10 ^ w)
    (hn : n < 10 ^ w) :
    padded w m ++ c :: x < padded w n ++ c :: y ↔ m < n ∨ m = n ∧ x < y := by
  rw [append_lt_append_iff (by simp [padded]), padded_lt_iff hm hn, padded_eq_iff hm hn,
    List.cons_lt_cons_iff]
  simp

theorem field_bounds (d : Datetime) : d.year < 10 ^ 4 ∧ d.month < 10 ^ 2 ∧ d.day < 10 ^ 2 ∧
    d.hour < 10 ^ 2 ∧ d.minute < 10 ^ 2 ∧ d.second < 10 ^ 2 ∧ d.microsecond < 10 ^ 6 := by
  have hy := d.year_bound
  have hm := d.month_bound
  have hday : d.day ≤ 31 := by
    have := d.day_bound.2
    unfold daysInMonth at this
    split_ifs at this <;> omega
  have hh := d.hour_bound
  have hmi := d.minute_bound
  have hs := d.second_bound
  have hu := d.microsecond_bound
  omega

@[simp] theorem length_dateChars (d : Datetime) : d.dateChars.length = 10 := by
  simp [dateChars, padded]

@[simp] theorem length_timeChars (d : Datetime) : d.timeChars.length = 8 := by
  simp [timeChars, padded]

/-- **Dates as text are ordered as the days.** -/
theorem dateChars_lt_iff : a.dateChars < b.dateChars ↔ a.ordinalDay < b.ordinalDay := by
  obtain ⟨hay, ham, had, -⟩ := a.field_bounds
  obtain ⟨hby, hbm, hbd, -⟩ := b.field_bounds
  rw [← dateBefore_iff, dateChars, dateChars, padded_sep_lt_iff hay hby,
    padded_sep_lt_iff ham hbm, padded_lt_iff had hbd]
  rfl

theorem dateChars_eq_iff : a.dateChars = b.dateChars ↔ a.ordinalDay = b.ordinalDay := by
  rw [ordinalDay_eq_iff]
  refine ⟨?_, ?_⟩
  · intro h
    obtain ⟨hay, ham, had, -⟩ := a.field_bounds
    obtain ⟨hby, hbm, hbd, -⟩ := b.field_bounds
    obtain ⟨hyear, h⟩ := padded_sep_inj hay hby h
    obtain ⟨hmonth, h⟩ := padded_sep_inj ham hbm h
    exact ⟨hyear, hmonth, (padded_eq_iff had hbd).mp h⟩
  · rintro ⟨hyear, hmonth, hday⟩
    rw [dateChars, dateChars, hyear, hmonth, hday]

/-- Seconds since midnight, by the time as written. -/
def daySeconds (d : Datetime) : ℕ := (d.hour * 60 + d.minute) * 60 + d.second

theorem dayMicros_eq (d : Datetime) : d.dayMicros = d.daySeconds * 1000000 + d.microsecond := rfl

theorem timeChars_lt_iff : a.timeChars < b.timeChars ↔ a.daySeconds < b.daySeconds := by
  obtain ⟨-, -, -, hah, ham, has, -⟩ := a.field_bounds
  obtain ⟨-, -, -, hbh, hbm, hbs, -⟩ := b.field_bounds
  have hami := a.minute_bound
  have hasec := a.second_bound
  have hbmi := b.minute_bound
  have hbsec := b.second_bound
  rw [timeChars, timeChars, padded_sep_lt_iff hah hbh, padded_sep_lt_iff ham hbm,
    padded_lt_iff has hbs, daySeconds, daySeconds]
  omega

theorem timeChars_eq_iff : a.timeChars = b.timeChars ↔ a.daySeconds = b.daySeconds := by
  have hami := a.minute_bound
  have hasec := a.second_bound
  have hbmi := b.minute_bound
  have hbsec := b.second_bound
  refine ⟨?_, ?_⟩
  · intro h
    obtain ⟨-, -, -, hah, ham, has, -⟩ := a.field_bounds
    obtain ⟨-, -, -, hbh, hbm, hbs, -⟩ := b.field_bounds
    obtain ⟨hhour, h⟩ := padded_sep_inj hah hbh h
    obtain ⟨hminute, h⟩ := padded_sep_inj ham hbm h
    rw [daySeconds, daySeconds, hhour, hminute, (padded_eq_iff has hbs).mp h]
  · intro h
    simp only [daySeconds] at h
    have hhour : a.hour = b.hour := by omega
    have hminute : a.minute = b.minute := by omega
    have hsecond : a.second = b.second := by omega
    rw [timeChars, timeChars, hhour, hminute, hsecond]

/-- **Texts of the column type are ordered as the clocks on the wall show.** -/
theorem storageText_lt_iff : a.storageText < b.storageText ↔ a.wall < b.wall := by
  obtain ⟨-, -, -, -, -, -, hau⟩ := a.field_bounds
  obtain ⟨-, -, -, -, -, -, hbu⟩ := b.field_bounds
  have htime : a.timeChars ++ '.' :: padded 6 a.microsecond <
      b.timeChars ++ '.' :: padded 6 b.microsecond ↔ a.dayMicros < b.dayMicros := by
    rw [append_lt_append_iff (by simp), timeChars_lt_iff, timeChars_eq_iff, List.cons_lt_cons_iff,
      padded_lt_iff hau hbu, dayMicros_eq, dayMicros_eq]
    simp only [Char.lt_irrefl, false_or, true_and]
    omega
  rw [String.lt_iff_toList_lt, storageText, storageText, String.toList_ofList,
    String.toList_ofList, append_lt_append_iff (by simp), dateChars_lt_iff, dateChars_eq_iff,
    List.cons_lt_cons_iff, htime, wall_lt_iff]
  simp

theorem storageText_le_iff : a.storageText ≤ b.storageText ↔ a.wall ≤ b.wall := by
  rw [← not_lt, storageText_lt_iff, not_lt]

end Eyenet.Datetime
