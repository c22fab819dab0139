import Eyenet.Framing

/-!
# Timestamps

Python's `datetime` with an optional offset from UTC. `isoformat` prints it, and the print
determines the timestamp (`isoformat_injective`); `instant` is the point in time that aware
timestamps are compared by.
-/

namespace Eyenet

open Framing

/-- The number of days of a month. -/
def daysInMonth (year month : ℕ) : ℕ :=
  if month = 2 then
    if year % 4 = 0 ∧ (year % 100 ≠ 0 ∨ year % 400 = 0) then 29 else 28
  else if month ∈ [4, 6, 9, 11] then 30 else 31

/-- The offset of a timezone from UTC, below 24 hours either way. -/
structure UtcOffset where
  /-- whether the zone is behind UTC -/
  negative : Bool
  /-- the distance from UTC in microseconds -/
  micros : ℕ
  lt_day : micros < 86400000000
  /-- UTC itself has one offset only -/
  sign_zero : micros = 0 → negative = false
  deriving DecidableEq

/-- A `datetime`: a valid date and time of day, with or without an offset. -/
structure Datetime where
  year : ℕ
  month : ℕ
  day : ℕ
  hour : ℕ
  minute : ℕ
  second : ℕ
  microsecond : ℕ
  utcoffset : Option UtcOffset
  year_bound : 1 ≤ year ∧ year ≤ 9999
  month_bound : 1 ≤ month ∧ month ≤ 12
  day_bound : 1 ≤ day ∧ day ≤ daysInMonth year month
  hour_bound : hour < 24
  minute_bound : minute < 60
  second_bound : second < 60
  microsecond_bound : microsecond < 1000000
  deriving DecidableEq

/-- An offset, if it is one. -/
def UtcOffset.ofMicros (negative : Bool) (micros : ℕ) : Option UtcOffset :=
  if h : micros < 86400000000 ∧ (micros = 0 → negative = false) then
    some ⟨negative, micros, h.1, h.2⟩
  else none

namespace Datetime

/-- `datetime(..)`; `none` where it raises. -/
def ofFields (year month day hour minute second microsecond : ℕ) (utcoffset : Option UtcOffset) :
    Option Datetime :=
  if h : (1 ≤ year ∧ year ≤ 9999) ∧ (1 ≤ month ∧ month ≤ 12) ∧
      (1 ≤ day ∧ day ≤ daysInMonth year month) ∧ hour < 24 ∧ minute < 60 ∧ second < 60 ∧
      microsecond < 1000000 then
    some ⟨year, month, day, hour, minute, second, microsecond, utcoffset, h.1, h.2.1, h.2.2.1,
      h.2.2.2.1, h.2.2.2.2.1, h.2.2.2.2.2.1, h.2.2.2.2.2.2⟩
  else none

/-- A number in `w` decimal digits, as `%0wd` prints it. -/
def padded (w n : ℕ) : List Char := numeral 10 Nat.digitChar w n

/-- The fraction of a second, left out when it is zero. -/
def formatMicros (us : ℕ) : List Char := if us = 0 then [] else '.' :: padded 6 us

/-- `_format_offset`: sign, hours, minutes, and seconds only when there are any. -/
def formatOffset : Option UtcOffset → List Char
  | none => []
  | some off =>
    let seconds := off.micros / 1000000
    let us := off.micros % 1000000
    (if off.negative then '-' else '+') :: (padded 2 (seconds / 3600) ++ ':' ::
      (padded 2 (seconds / 60 % 60) ++
        if seconds % 60 = 0 ∧ us = 0 then []
        else ':' :: (padded 2 (seconds % 60) ++ formatMicros us)))

/-- The characters of `datetime.isoformat()`. -/
def isoChars (d : Datetime) : List Char :=
  padded 4 d.year ++ '-' :: (padded 2 d.month ++ '-' :: (padded 2 d.day ++ 'T' ::
    (padded 2 d.hour ++ ':' :: (padded 2 d.minute ++ ':' :: (padded 2 d.second ++
      (formatMicros d.microsecond ++ formatOffset d.utcoffset))))))

/-- `datetime.isoformat()`. -/
def isoformat (d : Datetime) : String := String.ofList d.isoChars

/-! ## The print determines the timestamp -/

theorem digitChar_inj :
    ∀ {i j : ℕ}, i < 10 → j < 10 → Nat.digitChar i = Nat.digitChar j → i = j := by
  have h : ∀ i < 10, ∀ j < 10, Nat.digitChar i = Nat.digitChar j → i = j := by decide
  intro i j hi hj
  exact h i hi j hj

theorem padded_append_inj {w m n : ℕ} {x y : List Char} (hm : m < 10 ^ w) (hn : n < 10 ^ w)
    (h : padded w m ++ x = padded w n ++ y) : m = n ∧ x = y :=
  numeral_append_inj digitChar_inj hm hn h

/-- A padded number, a separator and the rest. -/
theorem padded_sep_inj {w m n : ℕ} {c : Char} {x y : List Char} (hm : m < 10 ^ w)
    (hn : n < 10 ^ w) (h : padded w m ++ c :: x = padded w n ++ c :: y) : m = n ∧ x = y := by
  obtain ⟨hmn, hrest⟩ := padded_append_inj hm hn h
  exact ⟨hmn, (List.cons.inj hrest).2⟩

/-- A fraction of a second is told from what follows it when that does not start with a
point. -/
theorem formatMicros_append_inj {m n : ℕ} {x y : List Char} (hm : m < 1000000)
    (hn : n < 1000000) (hx : x.head? ≠ some '.') (hy : y.head? ≠ some '.')
    (h : formatMicros m ++ x = formatMicros n ++ y) : m = n ∧ x = y := by
  rw [formatMicros, formatMicros] at h
  by_cases hm0 : m = 0
  · by_cases hn0 : n = 0
    · rw [if_pos hm0, if_pos hn0] at h
      exact ⟨hm0.trans hn0.symm, h⟩
    · rw [if_pos hm0, if_neg hn0] at h
      exact absurd (congrArg List.head? h) hx
  · by_cases hn0 : n = 0
    · rw [if_neg hm0, if_pos hn0] at h
      exact absurd (congrArg List.head? h.symm) hy
    · rw [if_neg hm0, if_neg hn0] at h
      exact padded_append_inj (w := 6) hm hn (List.cons.inj h).2

theorem formatOffset_head (off : Option UtcOffset) : (formatOffset off).head? ≠ some '.' := by
  cases off with
  | none => simp [formatOffset]
  | some off => cases h : off.negative <;> simp [formatOffset, h]

theorem formatOffset_injective : Function.Injective formatOffset := by
  intro a b h
  cases a with
  | none =>
    cases b with
    | none => rfl
    | some b => simp [formatOffset] at h
  | some a =>
    cases b with
    | none => simp [formatOffset] at h
    | some b =>
      have ha := a.lt_day
      have hb := b.lt_day
      obtain ⟨hsign, h⟩ := List.cons.inj h
      obtain ⟨hhour, h⟩ := padded_sep_inj (w := 2) (by omega) (by omega) h
      obtain ⟨hminute, h⟩ := padded_append_inj (w := 2) (by omega) (by omega) h
      have hneg : a.negative = b.negative := by
        cases hna : a.negative <;> cases hnb : b.negative <;> simp [hna, hnb] at hsign ⊢
      have hmicros : a.micros = b.micros := by
        by_cases hsa : a.micros / 1000000 % 60 = 0 ∧ a.micros % 1000000 = 0
        · by_cases hsb : b.micros / 1000000 % 60 = 0 ∧ b.micros % 1000000 = 0
          · omega
          · simp [hsa, hsb] at h
        · by_cases hsb : b.micros / 1000000 % 60 = 0 ∧ b.micros % 1000000 = 0
          · simp [hsa, hsb] at h
          · rw [if_neg hsa, if_neg hsb] at h
            obtain ⟨hsec, h⟩ :=
              padded_append_inj (w := 2) (by omega) (by omega) (List.cons.inj h).2
            rw [← List.append_nil (formatMicros _), ← List.append_nil (formatMicros (b.micros % _))]
              at h
            obtain ⟨hus, -⟩ := formatMicros_append_inj (by omega) (by omega) (by simp) (by simp) h
            omega
      cases a
      cases b
      simp_all

/-- **`isoformat` is injective.** -/
theorem isoformat_injective : Function.Injective isoformat := by
  intro a b h
  have h : a.isoChars = b.isoChars := String.ofList_injective h
  have hda : a.day ≤ 31 := by
    have := a.day_bound.2
    unfold daysInMonth at this
    split_ifs at this <;> omega
  have hdb : b.day ≤ 31 := by
    have := b.day_bound.2
    unfold daysInMonth at this
    split_ifs at this <;> omega
  have hma := a.month_bound.2
  have hmb := b.month_bound.2
  have hha := a.hour_bound
  have hhb := b.hour_bound
  have hna := a.minute_bound
  have hnb := b.minute_bound
  have hsa := a.second_bound
  have hsb := b.second_bound
  obtain ⟨hyear, h⟩ := padded_sep_inj (w := 4)
    (by have := a.year_bound.2; omega) (by have := b.year_bound.2; omega) h
  obtain ⟨hmonth, h⟩ := padded_sep_inj (w := 2) (by omega) (by omega) h
  obtain ⟨hday, h⟩ := padded_sep_inj (w := 2) (by omega) (by omega) h
  obtain ⟨hhour, h⟩ := padded_sep_inj (w := 2) (by omega) (by omega) h
  obtain ⟨hminute, h⟩ := padded_sep_inj (w := 2) (by omega) (by omega) h
  obtain ⟨hsecond, h⟩ := padded_append_inj (w := 2) (by omega) (by omega) h
  obtain ⟨hmicro, h⟩ := formatMicros_append_inj a.microsecond_bound b.microsecond_bound
    (formatOffset_head _) (formatOffset_head _) h
  have hoff := formatOffset_injective h
  cases a
  cases b
  simp_all

/-- The length of a print is bounded. -/
theorem length_isoChars (d : Datetime) : d.isoChars.length ≤ 64 := by
  have hmicros : ∀ us, (formatMicros us).length ≤ 7 := by
    intro us
    rw [formatMicros]
    split <;> simp [padded]
  have hoff : (formatOffset d.utcoffset).length ≤ 16 := by
    cases d.utcoffset with
    | none => simp [formatOffset]
    | some off =>
      have := hmicros (off.micros % 1000000)
      simp only [formatOffset, List.length_cons, List.length_append, padded, length_numeral]
      split
      · simp
      · simp only [List.length_cons, List.length_append, length_numeral]
        omega
  have := hmicros d.microsecond
  simp only [isoChars, List.length_cons, List.length_append, padded, length_numeral]
  omega

/-! ## Instants -/

/-- Days before the first of January of a year, counted from the year 1. -/
def daysBeforeYear (year : ℕ) : ℕ :=
  let y := year - 1
  y * 365 + y / 4 - y / 100 + y / 400

/-- Days before the first of a month in its year. -/
def daysBeforeMonth (year month : ℕ) : ℕ :=
  ((List.range' 1 (month - 1)).map (daysInMonth year)).sum

/-- The microseconds between `0001-01-01T00:00:00` UTC and the timestamp; one without an
offset is read as UTC. -/
def instant (d : Datetime) : ℤ :=
  let days := daysBeforeYear d.year + daysBeforeMonth d.year d.month + (d.day - 1)
  let seconds := ((days * 24 + d.hour) * 60 + d.minute) * 60 + d.second
  let offset : ℤ :=
    match d.utcoffset with
    | none => 0
    | some off => if off.negative then -(off.micros : ℤ) else off.micros
  (seconds * 1000000 + d.microsecond : ℕ) - offset

end Datetime

end Eyenet
