import Libprocess.Clock.Timers

/-!
# Timeouts

A `Timeout` is a time that is a duration away from now.  `Timeout::in` guards the addition, with a
subtraction that has the same range as the addition, and the assignment of a duration has no guard.
-/

namespace Libprocess.Timers

/-- A 64-bit number of nanoseconds. -/
structure Duration.Representable (duration : Int) : Prop where
  low : -2 ^ 63 ≤ duration
  high : duration < 2 ^ 63

section Arithmetic

variable {left right : Int}

theorem Duration.plus_of_representable (fits : Duration.Representable (left + right)) :
    Duration.plus left right = left + right := by
  have low := fits.low
  have high := fits.high
  unfold Duration.plus
  exact Int.bmod_eq_of_le_mul_two (by omega) (by omega)

/-- A sum that is too large wraps around. -/
theorem Duration.plus_of_large (large : 2 ^ 63 ≤ left + right)
    (bounded : left + right < 2 ^ 63 + 2 ^ 64) :
    Duration.plus left right = left + right - 2 ^ 64 := by
  unfold Duration.plus
  rw [← Int.sub_bmod_right]
  exact Int.bmod_eq_of_le_mul_two (by omega) (by omega)

theorem Duration.minus_eq : Duration.minus left right = Duration.plus left (-right) := by
  rw [Duration.minus, Duration.plus, Int.sub_eq_add_neg]

end Arithmetic

namespace Clock

variable {clock : Clock} {process : Option ProcessId} {duration : Int} {reading : Time}

/-- `Timeout::operator=(const Duration&)` -/
def timeoutAfter (clock : Clock) (process : Option ProcessId) (duration : Duration)
    (reading : Time) : Clock × Time :=
  let block := clock.now process reading
  (block.1, Duration.plus block.2 duration)

/-- The time that is `duration` away, as far as there are times. -/
def saturated (now duration : Int) : Int := min (now + duration) Time.max

theorem saturated_eq (now duration : Int) :
    saturated now duration = min (now + duration) (2 ^ 63 - 1) := rfl

/-- The clock shows the same time when it is read again. -/
theorem now_now (clock : Clock) (process : Option ProcessId) (reading : Time) :
    ((clock.now process reading).1.now process reading).2 = (clock.now process reading).2 := by
  cases process with
  | none => rfl
  | some process =>
      cases paused : clock.paused with
      | false => simp [now, paused]
      | true =>
          cases found : clock.currents process with
          | none | some time => simp [now, paused, found]

/-- The guard compares without an overflow as long as the duration is not negative, and refuses
every negative duration. -/
theorem guard_iff {now : Int} (epoch : 0 ≤ now) (representable : Duration.Representable duration) :
    now < Duration.minus Duration.max duration ↔ 0 ≤ duration ∧ now + duration < 2 ^ 63 - 1 := by
  have low := representable.low
  have high := representable.high
  have difference : Duration.minus Duration.max duration =
      if duration < 0 then 2 ^ 63 - 1 + -duration - 2 ^ 64 else 2 ^ 63 - 1 + -duration := by
    rw [Duration.minus_eq, Duration.max]
    split
    · exact Duration.plus_of_large (by omega) (by omega)
    · exact Duration.plus_of_representable ⟨by omega, by omega⟩
  rw [difference]
  split
  · omega
  · omega

/-- What `Timeout::in` returns, with the time at which it reads the clock again. -/
theorem timeoutIn_saturates_iff {now later : Int} {first second : Time}
    (reads : (clock.now process first).2 = now)
    (readsAgain : ((clock.now process first).1.now process second).2 = later)
    (epoch : 0 ≤ now) (forward : now ≤ later) (bounded : later < 2 ^ 63)
    (representable : Duration.Representable duration) :
    (clock.timeoutIn process duration first second).2 = saturated later duration ↔
      0 ≤ duration ∧ (now + duration < Time.max → later + duration ≤ Time.max) := by
  have low := representable.low
  have high := representable.high
  have guarded := guard_iff epoch representable
  rw [saturated_eq, timeoutIn]
  simp only [reads, readsAgain]
  change @Eq Int _ _ ↔ 0 ≤ duration ∧ (now + duration < 2 ^ 63 - 1 → later + duration ≤ 2 ^ 63 - 1)
  split
  · rename_i passes
    obtain ⟨positive, small⟩ := guarded.mp passes
    by_cases fits : later + duration < 2 ^ 63
    · rw [Duration.plus_of_representable ⟨by omega, fits⟩]
      omega
    · rw [Duration.plus_of_large (by omega) (by omega)]
      omega
  · rename_i fails
    have refused := mt guarded.mpr fails
    change @Eq Int (2 ^ 63 - 1) _ ↔ _
    omega

theorem timeoutAfter_saturates_iff {now : Int} (reads : (clock.now process reading).2 = now)
    (epoch : 0 ≤ now) (bounded : now < 2 ^ 63) (representable : Duration.Representable duration) :
    (clock.timeoutAfter process duration reading).2 = saturated now duration ↔
      now + duration ≤ Time.max := by
  have low := representable.low
  have high := representable.high
  rw [saturated_eq, timeoutAfter]
  simp only [reads]
  change @Eq Int _ _ ↔ now + duration ≤ 2 ^ 63 - 1
  by_cases fits : now + duration < 2 ^ 63
  · rw [Duration.plus_of_representable ⟨by omega, fits⟩]
    omega
  · rw [Duration.plus_of_large (by omega) (by omega)]
    omega

/-- `Timeout::in` gives the time that is `duration` away, or the largest one, exactly for the
durations that are not negative.  The assignment does exactly where nothing overflows. -/
theorem timeouts_saturate_iff (epoch : 0 ≤ (clock.now process reading).2)
    (bounded : (clock.now process reading).2 ≤ Time.max)
    (representable : Duration.Representable duration) :
    ((clock.timeoutIn process duration reading reading).2 =
        saturated (clock.now process reading).2 duration ↔ 0 ≤ duration) ∧
    ((clock.timeoutAfter process duration reading).2 =
        saturated (clock.now process reading).2 duration ↔
      (clock.now process reading).2 + duration ≤ Time.max) := by
  have fits : (clock.now process reading).2 < 2 ^ 63 := Int.lt_of_le_sub_one bounded
  refine ⟨?_, timeoutAfter_saturates_iff rfl epoch fits representable⟩
  rw [timeoutIn_saturates_iff rfl (clock.now_now process reading) epoch (le_refl _) fits
    representable]
  simp only [and_iff_left_iff_imp]
  exact fun _ small => le_of_lt small

/-- Ten nanoseconds after the fifth one. -/
theorem timeouts_saturate_iff_ten :
    ((Clock.new.timeoutIn none 10 5 5).2 = saturated (Clock.new.now none 5).2 10 ↔
      (0 : Int) ≤ 10) ∧
    ((Clock.new.timeoutAfter none 10 5).2 = saturated (Clock.new.now none 5).2 10 ↔
      (Clock.new.now none 5).2 + 10 ≤ Time.max) :=
  timeouts_saturate_iff (by decide) (by decide) ⟨by decide, by decide⟩

/-- A negative duration never expires, and the largest one has expired when it is assigned. -/
theorem not_timeouts_saturate :
    (Clock.new.timeoutIn none (-1) 0 0).2 = Time.max ∧
    saturated (Clock.new.now none 0).2 (-1) = -1 ∧
    (Clock.new.timeoutAfter none Duration.max 1).2 = -2 ^ 63 ∧
    saturated (Clock.new.now none 1).2 Duration.max = Time.max := by
  decide

end Clock

end Libprocess.Timers
