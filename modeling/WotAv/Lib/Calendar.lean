import Mathlib.Tactic.IntervalCases
import Mathlib.Tactic.Linarith
import Mathlib.Data.Int.Order.Basic

/-!
# The proleptic Gregorian calendar

A calendar numbers the days, each one after the day before; there is one. The
day functions of ECMAScript's `Date` compute it from closed forms, and a time
value is a number of milliseconds that is not too large.
-/

namespace WotAv.Lib

def leapYear (year : Int) : Bool := year % 4 = 0 && (year % 100 ≠ 0 || year % 400 = 0)

def monthLength (year : Int) (month : Nat) : Nat :=
  if month = 2 then if leapYear year then 29 else 28 else if month ∈ [4, 6, 9, 11] then 30 else 31

structure Calendar where
  day : Int → Nat → Nat → Int
  epoch : day 1970 1 1 = 0
  nextDay : ∀ year month date, 1 ≤ month → month ≤ 12 → 1 ≤ date → date < monthLength year month →
    day year month (date + 1) = day year month date + 1
  nextMonth : ∀ year month, 1 ≤ month → month < 12 → day year (month + 1) 1 = day year month (monthLength year month) + 1
  nextYear : ∀ year, day (year + 1) 1 1 = day year 12 31 + 1

-- Days, as `Date` computes them

def dayFromYear (year : Int) : Int := 365 * (year - 1970) + (year - 1969) / 4 - (year - 1901) / 100 + (year - 1601) / 400

def dayWithinYear (year : Int) (month : Nat) : Nat :=
  [0, 31, 59, 90, 120, 151, 181, 212, 243, 273, 304, 334].getD month 0 + if leapYear year && 2 ≤ month then 1 else 0

def makeDay (year : Int) (month date : Nat) : Int := dayFromYear year + dayWithinYear year month + date - 1

theorem monthLength_pos (year : Int) (month : Nat) : 28 ≤ monthLength year month := by
  unfold monthLength
  split
  · split <;> decide
  · split <;> decide

theorem dayWithinYear_next (year : Int) {month : Nat} (h : month < 11) :
    dayWithinYear year (month + 1) = dayWithinYear year month + monthLength year (month + 1) := by
  unfold dayWithinYear monthLength
  interval_cases month <;> cases leapYear year <;> rfl

theorem dayFromYear_next (year : Int) : dayFromYear (year + 1) = dayFromYear year + if leapYear year then 366 else 365 := by
  have hfour : (year + 1 - 1969) / 4 = (year - 1969) / 4 + if year % 4 = 0 then 1 else 0 := by split <;> omega
  have hhundred : (year + 1 - 1901) / 100 = (year - 1901) / 100 + if year % 100 = 0 then 1 else 0 := by split <;> omega
  have hfourHundred : (year + 1 - 1601) / 400 = (year - 1601) / 400 + if year % 400 = 0 then 1 else 0 := by split <;> omega
  unfold dayFromYear leapYear
  rw [hfour, hhundred, hfourHundred]
  by_cases h4 : year % 4 = 0 <;> by_cases h100 : year % 100 = 0 <;> by_cases h400 : year % 400 = 0 <;>
    simp [h4, h100, h400] <;> omega

namespace Calendar

variable (c : Calendar) {year : Int} {month date : Nat}

theorem day_month (hm : 1 ≤ month) (hm' : month ≤ 12) (hd : 1 ≤ date) (hd' : date ≤ monthLength year month) :
    c.day year month date = c.day year month 1 + (date - 1 : Int) := by
  induction date, hd using Nat.le_induction with
  | base => simp
  | succ date hd ih =>
    rw [c.nextDay year month date hm hm' hd hd', ih (Nat.le_of_lt hd')]
    push_cast
    omega

theorem day_year (hm : 1 ≤ month) (hm' : month ≤ 12) :
    c.day year month 1 = c.day year 1 1 + dayWithinYear year (month - 1) := by
  induction month, hm using Nat.le_induction with
  | base => simp [dayWithinYear]
  | succ month hm ih =>
    have hlength := monthLength_pos year month
    have hnext := dayWithinYear_next year (show month - 1 < 11 by omega)
    rw [Nat.sub_add_cancel hm] at hnext
    rw [c.nextMonth year month hm hm', c.day_month hm (by omega) (by omega) le_rfl, ih (by omega), Nat.add_sub_cancel, hnext]
    push_cast
    omega

theorem day_next (year : Int) : c.day (year + 1) 1 1 = c.day year 1 1 + if leapYear year then 366 else 365 := by
  have hlast : monthLength year 12 = 31 := rfl
  rw [c.nextYear, c.day_month (by decide) (by decide) (by decide) (Nat.le_of_eq hlast.symm), c.day_year (by decide) (by decide)]
  unfold dayWithinYear
  cases leapYear year <;> simp <;> omega

theorem day_first (year : Int) : c.day year 1 1 = dayFromYear year := by
  induction year using Int.inductionOn' (b := 1970) with
  | zero =>
    rw [c.epoch]
    rfl
  | succ year _ ih => rw [c.day_next, dayFromYear_next, ih]
  | pred year _ ih =>
    have hday := c.day_next (year - 1)
    have hfrom := dayFromYear_next (year - 1)
    rw [Int.sub_add_cancel] at hday hfrom
    omega

theorem day_eq (hm : 1 ≤ month) (hm' : month ≤ 12) (hd : 1 ≤ date) (hd' : date ≤ monthLength year month) :
    c.day year month date = makeDay year (month - 1) date := by
  rw [c.day_month hm hm' hd hd', c.day_year hm hm', c.day_first, makeDay]
  omega

end Calendar

def gregorian : Calendar where
  day year month date := makeDay year (month - 1) date
  epoch := rfl
  nextDay year month date _ _ _ _ := by
    unfold makeDay
    push_cast
    omega
  nextMonth year month hm hm' := by
    have hnext := dayWithinYear_next year (show month - 1 < 11 by omega)
    rw [Nat.sub_add_cancel hm] at hnext
    unfold makeDay
    rw [Nat.add_sub_cancel, hnext]
    push_cast
    omega
  nextYear year := by
    unfold makeDay
    rw [dayFromYear_next]
    unfold dayWithinYear
    cases leapYear year <;> simp <;> omega

-- Time values

def msPerDay : Int := 86400000

def timeClip (t : Int) : Option Int := if -8640000000000000 ≤ t ∧ t ≤ 8640000000000000 then some t else none

def makeTime (hour minute second ms : Nat) : Int := hour * 3600000 + minute * 60000 + second * 1000 + ms

def makeDate (day time : Int) : Int := day * msPerDay + time

def setUTCFullYear (t : Int) (year : Int) (month date : Nat) : Option Int :=
  timeClip (makeDate (makeDay year month date) (t % msPerDay))

def setUTCHours (t : Option Int) (hour minute second ms : Nat) : Option Int :=
  t.bind fun t => timeClip (makeDate (t / msPerDay) (makeTime hour minute second ms))

theorem timeClip_some {t v : Int} (h : timeClip t = some v) : v = t := by
  unfold timeClip at h
  split at h
  · exact (Option.some.inj h).symm
  · cases h

theorem setUTC_some {year : Int} {month date hour minute second ms : Nat} {v : Int}
    (h : setUTCHours (setUTCFullYear 0 year month date) hour minute second ms = some v) :
    v = makeDay year month date * msPerDay + makeTime hour minute second ms := by
  obtain ⟨t, ht, hv⟩ := Option.bind_eq_some_iff.mp h
  have ht := timeClip_some ht
  rw [timeClip_some hv, makeDate, ht, makeDate, Int.zero_emod, Int.add_zero, Int.mul_ediv_cancel _ (by decide)]

end WotAv.Lib
