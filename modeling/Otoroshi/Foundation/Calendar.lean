/-
# Days and months

A calendar cuts time into days, and into months that are made of days. Instants are
milliseconds, and every day begins with a whole second. How long the days and months
are is left to the calendar of the platform and its time zone.
-/

import Mathlib.Tactic.Ring
import Otoroshi.Foundation.Long

namespace Otoroshi

/-- A way to cut time into periods, by the first instant after the period of an
instant. -/
structure Period where
  next : Int → Int
  lt_next : ∀ t, t < next t
  next_eq : ∀ t u, t ≤ u → u < next t → next u = next t
  whole : ∀ t, 1000 ∣ next t

namespace Period

variable (period : Period)

/-- The last second of the period, at the millisecond of the instant. -/
def lastSecond (t : Int) : Int := period.next t - 1000 + t % 1000

theorem le_lastSecond (t : Int) : t ≤ period.lastSecond t := by
  have hlt := period.lt_next t
  obtain ⟨k, hk⟩ := period.whole t
  rw [lastSecond]
  omega

theorem lastSecond_lt_next (t : Int) : period.lastSecond t < period.next t := by
  rw [lastSecond]
  omega

/-- Periods of one length, from the epoch on. -/
def every (seconds : Nat) (h : 0 < seconds) : Period where
  next t := (t / (1000 * seconds) + 1) * (1000 * seconds)
  lt_next := by
    intro t
    exact Int.lt_ediv_add_one_mul_self t (by omega)
  next_eq := by
    intro t u hle hlt
    have hpos : (0 : Int) < 1000 * seconds := by omega
    have hlow : t / (1000 * seconds) ≤ u / (1000 * seconds) := Int.ediv_le_ediv hpos hle
    have hhigh : u / (1000 * seconds) < t / (1000 * seconds) + 1 := Int.ediv_lt_of_lt_mul hpos hlt
    have hsame : u / (1000 * seconds) = t / (1000 * seconds) := by omega
    rw [hsame]
  whole := by
    intro t
    exact Int.dvd_mul_of_dvd_right (Int.dvd_mul_right 1000 seconds)

end Period

/-- Days, and months made of them. -/
structure Calendar where
  day : Period
  month : Period
  day_le_month : ∀ t, day.next t ≤ month.next t

namespace Calendar

variable (calendar : Calendar)

/-- Months of one length. With 31 days a month they are those of universal time in
January 1970. -/
def ofDays (days : Nat) (h : 0 < days) : Calendar where
  day := .every 86400 (by decide)
  month := .every (86400 * days) (by omega)
  day_le_month := by
    intro t
    have hlt : t < (t / (1000 * ↑(86400 * days)) + 1) * (1000 * ↑(86400 * days)) :=
      (Period.every (86400 * days) (by omega)).lt_next t
    have hmultiple : (t / (1000 * ↑(86400 * days)) + 1) * (1000 * ↑(86400 * days)) =
        (t / (1000 * ↑(86400 * days)) + 1) * days * (1000 * 86400) := by
      push_cast
      ring
    rw [hmultiple] at hlt
    have hday : t / (1000 * 86400) < (t / (1000 * ↑(86400 * days)) + 1) * days :=
      Int.ediv_lt_of_lt_mul (by decide) hlt
    calc
      (t / (1000 * (86400 : Nat)) + 1) * (1000 * (86400 : Nat)) ≤
          (t / (1000 * ↑(86400 * days)) + 1) * days * (1000 * 86400) :=
        Int.mul_le_mul_of_nonneg_right hday (by decide)
      _ = (t / (1000 * ↑(86400 * days)) + 1) * (1000 * ↑(86400 * days)) := hmultiple.symm

def january1970 : Calendar := ofDays 31 (by decide)

/-- `now.secondOfDay().withMaximumValue()` -/
def dayEnd (now : Int) : Int := calendar.day.lastSecond now

/-- `now.dayOfMonth().withMaximumValue().secondOfDay().withMaximumValue()` -/
def monthEnd (now : Int) : Int := calendar.month.lastSecond now

end Calendar

/-- The seconds to an end, read from the clock once more: `(toEnd / 1000).toInt`. -/
def secondsUntil (endAt now : Int) : Int := longToInt ((wrapLong (endAt - now)).tdiv 1000)

/-- To the last second of the period of an instant there are whole seconds. -/
theorem Period.secondsUntil_mul (period : Period) {now : Int}
    (hlength : period.next now - now < 1000 * 2 ^ 31) :
    secondsUntil (period.lastSecond now) now * 1000 = period.lastSecond now - now ∧
      isLong (period.lastSecond now - now) = true := by
  have hle := period.le_lastSecond now
  have hlt := period.lastSecond_lt_next now
  obtain ⟨k, hwhole⟩ := period.whole now
  obtain ⟨seconds, hseconds⟩ : ∃ seconds, period.lastSecond now - now = seconds * 1000 := by
    use k - 1 - now / 1000
    rw [lastSecond]
    omega
  have hlong : isLong (seconds * 1000) = true := by
    rw [isLong, Bool.and_eq_true, decide_eq_true_eq, decide_eq_true_eq]
    omega
  have hint : longToInt seconds = seconds := Int.bmod_eq_of_le (by omega) (by omega)
  rw [secondsUntil, hseconds, wrapLong_of_isLong hlong, Int.mul_tdiv_cancel _ (by decide), hint]
  exact ⟨rfl, hlong⟩

/-- More than two seconds before the next period there are whole seconds left to the last
second, and they end no more than two seconds before the next period. -/
theorem Period.secondsUntil_lastSecond (period : Period) {t now next : Int}
    (hnext : period.next t = next) (hearly : now + 2000 ≤ next)
    (hlength : next - now < 1000 * 2 ^ 31) :
    0 < secondsUntil (period.lastSecond t) now ∧
      next < now + secondsUntil (period.lastSecond t) now * 1000 + 2000 := by
  have hlow := Int.emod_nonneg t (show (1000 : Int) ≠ 0 by decide)
  have hhigh := Int.emod_lt_of_pos t (show (0 : Int) < 1000 by decide)
  obtain ⟨left, hleft⟩ : ∃ left, period.lastSecond t - now = left := ⟨_, rfl⟩
  have hsum : left = next - 1000 + t % 1000 - now := by
    rw [← hleft, lastSecond, hnext]
  have hlong : isLong left = true := by
    rw [isLong, Bool.and_eq_true, decide_eq_true_eq, decide_eq_true_eq]
    omega
  have hint : longToInt (left / 1000) = left / 1000 := by
    exact Int.bmod_eq_of_le (by omega) (by omega)
  rw [secondsUntil, hleft, wrapLong_of_isLong hlong, Int.tdiv_eq_ediv_of_nonneg (by omega), hint]
  omega

end Otoroshi
