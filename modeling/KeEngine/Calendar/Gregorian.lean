/-
The proleptic Gregorian calendar: dates that carry their validity, the day after a date, and the
number of days between two dates as the number of steps from one to the other. The serial day number
is a closed form for it: each step adds one to it, and no two dates share it.
-/
import Mathlib

namespace Gregorian

/-! ## Dates -/

/-- Every fourth year is a leap year, of the centuries every fourth. -/
def IsLeap (year : Int) : Prop := year % 4 = 0 ∧ (year % 100 ≠ 0 ∨ year % 400 = 0)

instance (year : Int) : Decidable (IsLeap year) := inferInstanceAs (Decidable (_ ∧ _))

def daysInMonth (year : Int) (month : Nat) : Nat :=
  if month = 2 then if IsLeap year then 29 else 28
  else if month = 4 ∨ month = 6 ∨ month = 9 ∨ month = 11 then 30
  else 31

theorem daysInMonth_pos (year : Int) (month : Nat) : 1 ≤ daysInMonth year month := by
  unfold daysInMonth
  split_ifs <;> omega

@[ext]
structure Date where
  year : Int
  month : Nat
  day : Nat
  month_pos : 1 ≤ month
  month_le : month ≤ 12
  day_pos : 1 ≤ day
  day_le : day ≤ daysInMonth year month
deriving DecidableEq

namespace Date

/-- The first of January. -/
def newYear (year : Int) : Date := ⟨year, 1, 1, le_rfl, Nat.le_add_left 1 11, le_rfl, daysInMonth_pos _ _⟩

/-- The day after: in the month, else on the first of the next month, else on the first of the next year. -/
def next (d : Date) : Date :=
  if h : d.day + 1 ≤ daysInMonth d.year d.month then
    ⟨d.year, d.month, d.day + 1, d.month_pos, d.month_le, Nat.le_add_left 1 d.day, h⟩
  else if h : d.month + 1 ≤ 12 then
    ⟨d.year, d.month + 1, 1, Nat.le_add_left 1 d.month, h, le_rfl, daysInMonth_pos _ _⟩
  else newYear (d.year + 1)

/-! ## Serial day numbers -/

/-- Days in the year before a month. -/
def daysBeforeMonth (year : Int) : Nat → Nat
  | 0 => 0
  | 1 => 0
  | month + 2 => daysBeforeMonth year (month + 1) + daysInMonth year (month + 1)

/-- Days before a year, from the year 1 on. -/
def daysBeforeYear (year : Int) : Int := 365 * (year - 1) + (year - 1) / 4 - (year - 1) / 100 + (year - 1) / 400

/-- The first of January of the year 1 is day 1. -/
def serial (d : Date) : Int := daysBeforeYear d.year + daysBeforeMonth d.year d.month + d.day

theorem daysBeforeMonth_succ (year : Int) {month : Nat} (h : 1 ≤ month) :
    daysBeforeMonth year (month + 1) = daysBeforeMonth year month + daysInMonth year month := by
  obtain ⟨m, rfl⟩ := Nat.exists_eq_add_of_le' h
  rfl

/-- The months of a year, and the leap years among four hundred. -/
theorem daysBeforeYear_succ (year : Int) :
    daysBeforeYear (year + 1) = daysBeforeYear year + daysBeforeMonth year 12 + daysInMonth year 12 := by
  by_cases hleap : IsLeap year
  · have hmonths : daysBeforeMonth year 12 + daysInMonth year 12 = 366 := by
      simp [daysBeforeMonth, daysInMonth, hleap]
    unfold daysBeforeYear
    unfold IsLeap at hleap
    omega
  · have hmonths : daysBeforeMonth year 12 + daysInMonth year 12 = 365 := by
      simp [daysBeforeMonth, daysInMonth, hleap]
    unfold daysBeforeYear
    unfold IsLeap at hleap
    omega

/-- The months in years from March, whose lengths repeat every five: thirty-one, thirty, thirty-one,
thirty, thirty-one. -/
theorem daysBeforeMonth_march (year : Int) {month : Nat} (hpos : 1 ≤ month) (hle : month ≤ 12) :
    (daysBeforeMonth year month : Int) = if month ≤ 2 then (153 * ((month : Int) + 9) + 2) / 5 - 306
      else (153 * ((month : Int) - 3) + 2) / 5 + 59 + if IsLeap year then 1 else 0 := by
  interval_cases month <;> by_cases hleap : IsLeap year <;> simp [daysBeforeMonth, daysInMonth, hleap]

/-- The day after has the next number, in the month, across months and across years. -/
theorem serial_next (d : Date) : d.next.serial = d.serial + 1 := by
  have hday := d.day_le
  have hmonth := d.month_le
  unfold next
  split
  · simp only [serial]
    omega
  · rename_i hlast
    have hfull : d.day = daysInMonth d.year d.month := by omega
    split
    · simp only [serial]
      rw [daysBeforeMonth_succ d.year d.month_pos]
      omega
    · simp only [serial, newYear]
      rw [daysBeforeYear_succ]
      obtain hdecember : d.month = 12 := by omega
      rw [hfull, hdecember]
      simp only [daysBeforeMonth]
      omega

theorem serial_iterate_next (d : Date) (n : Nat) : (next^[n] d).serial = d.serial + n := by
  induction n with
  | zero => simp
  | succ n ih =>
    rw [Function.iterate_succ_apply', serial_next, ih]
    omega

/-! ## One date for a number -/

theorem daysBeforeMonth_le (year : Int) {month month' : Nat} (hpos : 1 ≤ month) (h : month < month') :
    daysBeforeMonth year month + daysInMonth year month ≤ daysBeforeMonth year month' := by
  induction month', h using Nat.le_induction with
  | base => rw [daysBeforeMonth_succ year hpos]
  | succ m hm ih =>
    rw [daysBeforeMonth_succ year (by omega)]
    omega

/-- A date of an earlier year has a smaller number. -/
theorem serial_lt_of_year {a b : Date} (h : a.year < b.year) : a.serial < b.serial := by
  have hmonths : daysBeforeMonth a.year a.month + daysInMonth a.year a.month ≤
      daysBeforeMonth a.year 12 + daysInMonth a.year 12 := by
    rcases Nat.lt_or_ge a.month 12 with hlt | hge
    · have := daysBeforeMonth_le a.year a.month_pos hlt
      omega
    · rw [le_antisymm a.month_le hge]
  have hend : a.serial ≤ daysBeforeYear (a.year + 1) := by
    have hday := a.day_le
    rw [daysBeforeYear_succ]
    unfold serial
    omega
  have hstart : daysBeforeYear (a.year + 1) ≤ daysBeforeYear b.year := by
    unfold daysBeforeYear
    omega
  have hday := b.day_pos
  unfold serial at hend ⊢
  omega

/-- A date of an earlier month of the year has a smaller number. -/
theorem serial_lt_of_month {a b : Date} (hyear : a.year = b.year) (h : a.month < b.month) : a.serial < b.serial := by
  have hmonths := daysBeforeMonth_le a.year a.month_pos h
  have hday := a.day_le
  have hday' := b.day_pos
  unfold serial
  rw [← hyear]
  omega

theorem serial_injective : Function.Injective serial := by
  intro a b h
  have hyear : a.year = b.year := by
    rcases lt_trichotomy a.year b.year with hlt | heq | hgt
    · exact absurd h (serial_lt_of_year hlt).ne
    · exact heq
    · exact absurd h.symm (serial_lt_of_year hgt).ne
  have hmonth : a.month = b.month := by
    rcases lt_trichotomy a.month b.month with hlt | heq | hgt
    · exact absurd h (serial_lt_of_month hyear hlt).ne
    · exact heq
    · exact absurd h.symm (serial_lt_of_month hyear.symm hgt).ne
  refine Date.ext hyear hmonth ?_
  unfold serial at h
  rw [hyear, hmonth] at h
  omega

/-! ## Days between dates -/

/-- `b` is `n` days after `a`, and `-n` days before when `n` is negative. -/
def DaysApart (a b : Date) (n : Int) : Prop :=
  (0 ≤ n ∧ next^[n.toNat] a = b) ∨ (n ≤ 0 ∧ next^[(-n).toNat] b = a)

/-- Counting steps is subtracting numbers. -/
theorem daysApart_iff {a b : Date} {n : Int} : DaysApart a b n ↔ b.serial - a.serial = n := by
  have hsteps : ∀ (k : Nat) (a b : Date), next^[k] a = b ↔ b.serial = a.serial + k := by
    intro k a b
    rw [← serial_iterate_next, eq_comm, serial_injective.eq_iff]
  unfold DaysApart
  rw [hsteps, hsteps]
  omega

end Date

end Gregorian
