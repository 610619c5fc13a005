import DexIndex.Time.Timestamp
import Mathlib.Tactic.Ring
import Mathlib.Tactic.SplitIfs

/-!
# Spans within range

A span is held in nanoseconds, up to a longest one either way (`Span.ofNanos?`). All dates lie
within some two hundred million days, so that two instants are never too far apart: with arithmetic
that stops at a span out of range, the time between them is the same (`Timestamp.since?_eq_some`).
-/

namespace DexIndex

/-- The longest span: so many milliseconds as a signed number of 64 bits can count. -/
def Span.longestNanos : Int := 9223372036854775807 * 1000000

/-- A number of nanoseconds as a span, if it can be held. -/
def Span.ofNanos? (n : Int) : Option Int :=
  if -longestNanos ≤ n ∧ n ≤ longestNanos then some n else none

theorem Span.ofNanos?_eq_some {n : Int} (hle : -longestNanos ≤ n) (hge : n ≤ longestNanos) :
    ofNanos? n = some n :=
  if_pos ⟨hle, hge⟩

theorem Span.ofNanos?_eq_none {n : Int} (h : longestNanos < n) : ofNanos? n = none :=
  if_neg fun hn => absurd hn.2 (by omega)

/-- No date lies further from the first day than the years times the days of a leap year. -/
theorem Date.dayNumber_mem (d : Date) : -96000000 ≤ d.dayNumber ∧ d.dayNumber ≤ 96000000 := by
  obtain ⟨year, month, day, ⟨hfirst, hlast⟩, ⟨hmonth, hmonth'⟩, ⟨hday, hday'⟩⟩ := d
  have hdays : daysInMonth year month ≤ 31 := by
    unfold daysInMonth
    split_ifs <;> omega
  simp only [firstYear, lastYear] at hfirst hlast
  simp only [dayNumber]
  split_ifs <;> omega

namespace Timestamp
variable (later earlier : Timestamp)

/-! ### The time between two instants, in parts -/

/-- The nanoseconds of the days between the dates. -/
def nanosOfDays : Int :=
  (later.date.dayNumber - earlier.date.dayNumber) * 86400 * 1000000000

/-- The nanoseconds between the times of day, with a leap second that lies between them. -/
def nanosInDay : Int :=
  let a := later.secondOfDay
  let b := earlier.secondOfDay
  let leap : Int :=
    if b < a then if 1000000000 ≤ earlier.nano then 1 else 0
    else if a < b then if 1000000000 ≤ later.nano then -1 else 0
    else 0
  (a - b + leap) * 1000000000 + (later.nano - earlier.nano)

theorem since_eq_add :
    later.since earlier = nanosOfDays later earlier + nanosInDay later earlier := by
  simp only [since, nanosOfDays, nanosInDay]
  ring

/-- As `since`, where each part and their sum must be spans. -/
def since? : Option Int := do
  let days ← Span.ofNanos? (nanosOfDays later earlier)
  let inDay ← Span.ofNanos? (nanosInDay later earlier)
  Span.ofNanos? (days + inDay)

theorem nanosOfDays_mem :
    -(192000000 * 86400 * 1000000000) ≤ nanosOfDays later earlier ∧
      nanosOfDays later earlier ≤ 192000000 * 86400 * 1000000000 := by
  have hlater := later.date.dayNumber_mem
  have hearlier := earlier.date.dayNumber_mem
  simp only [nanosOfDays]
  omega

theorem secondOfDay_lt (t : Timestamp) : t.secondOfDay < 86400 := by
  have hhour := t.hour_lt
  have hminute := t.minute_lt
  have hsecond := t.second_lt
  simp only [secondOfDay]
  omega

theorem nanosInDay_mem :
    -(86403 * 1000000000) ≤ nanosInDay later earlier ∧
      nanosInDay later earlier ≤ 86403 * 1000000000 := by
  have hlater := later.secondOfDay_lt
  have hearlier := earlier.secondOfDay_lt
  have hnano := later.nano_lt
  have hnano' := earlier.nano_lt
  simp only [nanosInDay]
  split_ifs <;> omega

theorem since?_eq_some : later.since? earlier = some (later.since earlier) := by
  have hdays := nanosOfDays_mem later earlier
  have hinDay := nanosInDay_mem later earlier
  have hlongest : Span.longestNanos = 9223372036854775807 * 1000000 := rfl
  rw [since?, Span.ofNanos?_eq_some (by omega) (by omega), since_eq_add]
  simp only [Option.bind_eq_bind, Option.bind_some]
  rw [Span.ofNanos?_eq_some (by omega) (by omega), Option.bind_some]
  exact Span.ofNanos?_eq_some (by omega) (by omega)

end Timestamp

end DexIndex
