import Mathlib.Algebra.Ring.Int.Defs

/-!
# The day that it is

`base/utils/time.h` and `base/utils/time.cpp` find the local day of a timestamp three times.
`is_today_from_timestamp` and `get_today_timestamp_at_hour` count the days of
`timestamp - timezone`; `today_zero_timestamp` divides the timezone alone.

`int64_t` division rounds towards zero.  An `int64_t` expression that overflows has no value.
-/

namespace Jengine.Utils

/-- The value of an `int64_t` expression. -/
def int64 (n : Int) : Option Int := if -2 ^ 63 ≤ n ∧ n < 2 ^ 63 then some n else none

/-- `SECONDS_OF_ONE_HOUR`. -/
def secondsOfOneHour : Int := 3600

/-- `SECONDS_OF_ONE_DAY`. -/
def secondsOfOneDay : Int := secondsOfOneHour * 24

/-- `is_today_from_timestamp`, at the time `nowts`. -/
def isTodayFromTimestamp (nowts timezone timestamp : Int) : Option Int := do
  let now ← int64 (nowts - timezone)
  let then' ← int64 (timestamp - timezone)
  return if now.tdiv secondsOfOneDay = then'.tdiv secondsOfOneDay then 1 else 0

/-- `today_zero_timestamp`, at the time `nowts`. -/
def todayZeroTimestamp (nowts timezone : Int) : Option Int := do
  let days ← int64 (nowts - timezone.tdiv secondsOfOneDay)
  int64 (days * secondsOfOneDay)

/-- `get_today_timestamp_at_hour`. -/
def getTodayTimestampAtHour (timezone timestamp : Int) (hour : UInt32) : Option Int := do
  let local' ← int64 (timestamp - timezone)
  let zero ← int64 (local'.tdiv secondsOfOneDay * secondsOfOneDay)
  let hours ← int64 (hour.toNat * secondsOfOneHour)
  let time ← int64 (zero + hours)
  int64 (time + timezone)

/-! ### What the day is -/

/-- A time that the functions can count the days of. -/
structure Countable (timezone t : Int) : Prop where
  lo : -2 ^ 63 ≤ t
  hi : t < 2 ^ 63
  nonneg : 0 ≤ t - timezone
  fits : t - timezone < 2 ^ 63

/-- The three functions agree on the day. -/
def Agree (nowts timezone : Int) : Prop :=
  ∃ zero, todayZeroTimestamp nowts timezone = some zero ∧
    getTodayTimestampAtHour timezone nowts 0 = some zero ∧
    nowts - 86400 < zero ∧ zero ≤ nowts ∧
    ∀ t, Countable timezone t → ∃ b, isTodayFromTimestamp nowts timezone t = some b ∧
      (b ≠ 0 ↔ zero ≤ t ∧ t < zero + 86400)

/-- Midnight of the local day. -/
def midnight (timezone t : Int) : Int := (t - timezone) / 86400 * 86400 + timezone

theorem int64_of_mem {n : Int} (hlo : -2 ^ 63 ≤ n) (hhi : n < 2 ^ 63) : int64 n = some n :=
  if_pos ⟨hlo, hhi⟩

theorem int64_eq_some {n m : Int} : int64 n = some m ↔ n = m ∧ -2 ^ 63 ≤ n ∧ n < 2 ^ 63 := by
  unfold int64
  split
  · rename_i h
    rw [Option.some.injEq, and_iff_left h]
  · rename_i h
    exact iff_of_false (Option.some_ne_none m).symm fun h' => h h'.2

theorem secondsOfOneDay_eq : secondsOfOneDay = 86400 := by decide

section

variable {nowts timezone : Int}

theorem tdiv_day {n : Int} (h : 0 ≤ n) : n.tdiv secondsOfOneDay = n / 86400 := by
  rw [secondsOfOneDay_eq, Int.tdiv_eq_ediv_of_nonneg h]

/-- The hour of the day is counted from midnight. -/
theorem getTodayTimestampAtHour_zero (hzone : -2 ^ 63 ≤ timezone)
    (h : Countable timezone nowts) :
    getTodayTimestampAtHour timezone nowts 0 = some (midnight timezone nowts) := by
  obtain ⟨hlo, hhi, hnonneg, hfits⟩ := h
  have hday : (nowts - timezone).tdiv secondsOfOneDay * secondsOfOneDay =
      (nowts - timezone) / 86400 * 86400 := by
    rw [tdiv_day hnonneg, secondsOfOneDay_eq]
  have hhours : int64 ((0 : UInt32).toNat * secondsOfOneHour) = some 0 := by decide
  simp only [getTodayTimestampAtHour, int64_of_mem (by omega : -2 ^ 63 ≤ nowts - timezone) hfits,
    Option.bind_eq_bind, Option.bind_some, hday, hhours, Int.add_zero]
  rw [int64_of_mem (by omega) (by omega), Option.bind_some, int64_of_mem (by omega) (by omega),
    Option.bind_some, int64_of_mem (by omega) (by omega)]
  rfl

/-- `is_today_from_timestamp` is right: it takes the times from midnight to midnight. -/
theorem isTodayFromTimestamp_iff (hnow : Countable timezone nowts) {t : Int}
    (ht : Countable timezone t) :
    ∃ b, isTodayFromTimestamp nowts timezone t = some b ∧
      (b ≠ 0 ↔ midnight timezone nowts ≤ t ∧ t < midnight timezone nowts + 86400) := by
  obtain ⟨-, -, hnow0, hnow⟩ := hnow
  obtain ⟨-, -, ht0, ht⟩ := ht
  simp only [isTodayFromTimestamp, int64_of_mem (by omega : -2 ^ 63 ≤ nowts - timezone) hnow,
    int64_of_mem (by omega : -2 ^ 63 ≤ t - timezone) ht, Option.bind_eq_bind, Option.bind_some,
    tdiv_day hnow0, tdiv_day ht0]
  refine ⟨_, rfl, ?_⟩
  unfold midnight
  split
  · exact iff_of_true Int.one_ne_zero (by omega)
  · exact iff_of_false (fun h => h rfl) (by omega)

/-- **The three functions agree iff the timezone is a whole number of days, and taking it from the
    seconds gives the number of the day; they never do after the first second of the epoch.** -/
theorem agree_iff (hlo : -2 ^ 63 ≤ timezone) (hnow : Countable timezone nowts) :
    (Agree nowts timezone ↔
      86400 ∣ timezone ∧ nowts - timezone / 86400 = nowts / 86400) ∧
      (0 < nowts → ¬Agree nowts timezone) := by
  have hget := getTodayTimestampAtHour_zero hlo hnow
  have hdays : Agree nowts timezone ↔
      86400 ∣ timezone ∧ nowts - timezone / 86400 = nowts / 86400 := by
    constructor
    · rintro ⟨zero, hzero, hsame, -⟩
      rw [hget, Option.some.injEq] at hsame
      subst hsame
      simp only [todayZeroTimestamp, Option.bind_eq_bind, Option.bind_eq_some_iff, int64_eq_some,
        secondsOfOneDay_eq] at hzero
      obtain ⟨days, ⟨rfl, -⟩, hzero, -⟩ := hzero
      unfold midnight at hzero
      have hdvd : 86400 ∣ timezone := by omega
      rw [Int.tdiv_eq_ediv_of_dvd hdvd] at hzero
      omega
    · rintro ⟨hdvd, hday⟩
      refine ⟨midnight timezone nowts, ?_, hget, ?_, ?_, fun t ht =>
        isTodayFromTimestamp_iff hnow ht⟩
      · obtain ⟨hlo', hhi, hnonneg, hfits⟩ := hnow
        have hmul : nowts / 86400 * 86400 = midnight timezone nowts := by
          unfold midnight
          omega
        rw [todayZeroTimestamp, secondsOfOneDay_eq, Int.tdiv_eq_ediv_of_dvd hdvd, hday,
          Option.bind_eq_bind, int64_of_mem (by omega) (by omega), Option.bind_some, hmul]
        unfold midnight at *
        exact int64_of_mem (by omega) (by omega)
      · unfold midnight
        omega
      · unfold midnight
        omega
  refine ⟨hdays, fun hpos => ?_⟩
  rw [hdays]
  have hnonneg := hnow.nonneg
  rintro ⟨hdvd, hday⟩
  omega

/-- They agree in the first second of the epoch and do not in November 2023, an hour west of
    Greenwich. -/
theorem agree_epoch : Agree 0 0 ∧ ¬ Agree 1700000000 3600 :=
  ⟨(agree_iff (by decide) ⟨by decide, by decide, by decide, by decide⟩).1.mpr
      ⟨by decide, by decide⟩,
    (agree_iff (by decide) ⟨by decide, by decide, by decide, by decide⟩).2 (by decide)⟩

end

/-- In November 2023, eight hours east of Greenwich. -/
theorem not_agree_china : todayZeroTimestamp 1700000000 (-28800) = some 146880000000000 ∧
    ¬Agree 1700000000 (-28800) := by
  have hzero : todayZeroTimestamp 1700000000 (-28800) = some 146880000000000 := by decide
  refine ⟨hzero, ?_⟩
  rintro ⟨zero, hsome, -, -, hle, -⟩
  rw [hzero, Option.some.injEq] at hsome
  omega

end Jengine.Utils
