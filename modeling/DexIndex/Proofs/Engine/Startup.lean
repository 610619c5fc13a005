import DexIndex.Engine
import DexIndex.Proofs.Results
import DexIndex.Proofs.Time.Range

/-!
# Starting within the range of spans

A valid configuration starts an engine on an empty store just if its near-head threshold is a span
of whole seconds that can be held (`Engine.start_within_range`). The threshold is cut off at the
largest number of seconds that 64 bits with a sign can count (`Config.clampedThreshold?`), but a
span already ends at a thousandth of that, so that a longer one is not saved by the cut. An engine
that has started decides whether to flush with no span out of range
(`FlushSchedule.checkedTrigger`).
-/

namespace DexIndex

namespace Config
variable {c : Config}

/-- The near-head threshold in nanoseconds, where more seconds than a signed number of 64 bits can
count are that number of seconds. -/
def clampedThreshold? (c : Config) : Option Int :=
  Span.ofNanos? (min c.nearHeadThresholdSecs.toNat (2 ^ 63 - 1) * 1000000000 : Nat)

theorem clampedThreshold?_of_le (h : c.nearHeadThresholdSecs.toNat ≤ maxThresholdSecs) :
    c.clampedThreshold? = some (c.nearHeadThresholdSecs.toNat * 1000 * 1000000 : Int) := by
  have hmax : maxThresholdSecs = 9223372036854775 := rfl
  have hlongest : Span.longestNanos = 9223372036854775807 * 1000000 := rfl
  rw [clampedThreshold?, Nat.min_eq_left (by omega), Span.ofNanos?_eq_some (by omega) (by omega)]
  exact congrArg some (by omega)

/-- A threshold that is cut off is as little a span as one that is too long by a second. -/
theorem clampedThreshold?_of_lt (h : maxThresholdSecs < c.nearHeadThresholdSecs.toNat) :
    c.clampedThreshold? = none := by
  have hmax : maxThresholdSecs = 9223372036854775 := rfl
  have hlongest : Span.longestNanos = 9223372036854775807 * 1000000 := rfl
  exact Span.ofNanos?_eq_none (by omega)

theorem clampedThreshold?_eq (c : Config) :
    c.clampedThreshold? = c.nearHeadThresholdMs?.map (· * 1000000) := by
  unfold nearHeadThresholdMs?
  split
  · next h => exact clampedThreshold?_of_le h
  · next h => exact clampedThreshold?_of_lt (Nat.lt_of_not_le h)

theorem validate_eq (c : Config) : c.validate =
    if c.programIds.isEmpty then .error .noProgramIds
    else if c.flushInterval = 0 then .error .invalidFlushInterval
    else if c.flushTimeoutMs = 0 then .error .invalidFlushTimeout
    else if c.flushMaxRetries = 0 then .error .invalidMaxRetries
    else if c.backoffMultiplier < 1.0 then .error .invalidBackoffMultiplier
    else if c.subscriberBuffer = 0 then .error .invalidSubscriberBuffer
    else c.programs.map fun _ => () := rfl

theorem flushInterval_pos_of_validate (h : c.validate = .ok ()) : 0 < c.flushInterval := by
  refine UInt64.pos_iff_ne_zero.mpr fun h0 => ?_
  rw [validate_eq, if_pos h0] at h
  split at h <;> cases h

theorem exists_programs_of_validate (h : c.validate = .ok ()) :
    ∃ programs, c.programs = .ok programs := by
  cases hp : c.programs with
  | ok programs => exact ⟨programs, rfl⟩
  | error e =>
    rw [validate_eq, hp] at h
    split_ifs at h
    cases h

end Config

namespace FlushSchedule

theorem make_of_pos {interval : UInt64} (h : 0 < interval) (thresholdMs : Int) :
    make interval thresholdMs = ⟨interval, thresholdMs, h⟩ :=
  dif_pos h

/-- As `trigger?`, where dividing by no slots and spans out of range stop the program. -/
def checkedTrigger (s : FlushSchedule) (slot : UInt64) (slotTime now : Timestamp) :
    Option (Option FlushTrigger) := do
  let threshold ← Span.ofNanos? (s.thresholdMs * 1000000)
  if s.interval = 0 then none
  else if slot % s.interval = 0 then some (some .interval)
  else
    let age ← now.since? slotTime
    return if age < threshold then some .nearHead else none

theorem checkedTrigger_eq {s : FlushSchedule} {n : Int}
    (h : Span.ofNanos? n = some (s.thresholdMs * 1000000)) (slot : UInt64)
    (slotTime now : Timestamp) :
    s.checkedTrigger slot slotTime now = some (s.trigger? slot slotTime now) := by
  have hinterval : s.interval ≠ 0 := UInt64.pos_iff_ne_zero.mp s.interval_pos
  have hspan : Span.ofNanos? (s.thresholdMs * 1000000) = some (s.thresholdMs * 1000000) := by
    rw [Span.ofNanos?] at h
    split at h
    · next hn => exact Option.some.inj h ▸ if_pos hn
    · cases h
  simp only [checkedTrigger, hspan, Timestamp.since?_eq_some, Option.bind_eq_bind, Option.bind_some,
    if_neg hinterval, trigger?]
  split <;> rfl

end FlushSchedule

namespace Engine
variable {c : Config}

/-- An engine that has started with the settings of a configuration and decides after each slot with
no span out of range. -/
structure Ready (e : Engine) (c : Config) : Prop where
  policy : e.writer.policy = c.flushPolicy
  interval : e.writer.schedule.interval = c.flushInterval
  threshold : e.writer.schedule.thresholdMs = c.nearHeadThresholdSecs.toNat * 1000
  span : c.clampedThreshold? = some (e.writer.schedule.thresholdMs * 1000000)
  decides : ∀ slot slotTime now, e.writer.schedule.checkedTrigger slot slotTime now =
    some (e.writer.schedule.trigger? slot slotTime now)

/-- On an empty store only the threshold is left to stop a valid configuration. -/
theorem start_empty {programs : List PublicKey} (hc : c.validate = .ok ())
    (hp : c.programs = .ok programs) :
    start c (.ofTable .empty) =
      match c.nearHeadThresholdMs? with
      | none => .error (.thresholdOutOfRange, .ofTable .empty)
      | some threshold =>
        .ok {
          programs
          writer := .resume (.make c.flushInterval threshold) c.flushPolicy none
          live := .start c.subscriberBuffer.toNat
          ledger := .ofStore (.ofTable .empty)
          sink := none
          lastSlot := none } := by
  have hcheckpoint : storedCheckpoint (.ofStore (.ofTable .empty)) =
      (.ok none, .ofStore (.ofTable .empty)) := rfl
  have howners : (Ledger.ofStore (.ofTable .empty)).loadOwners =
      (.ok 0, .ofStore (.ofTable .empty)) := rfl
  simp only [start, hc, hp, hcheckpoint, howners]
  rfl

theorem exists_ready_of_le (hc : c.validate = .ok ())
    (h : c.nearHeadThresholdSecs.toNat ≤ Config.maxThresholdSecs) :
    ∃ e, start c (.ofTable .empty) = .ok e ∧ e.Ready c := by
  obtain ⟨programs, hp⟩ := Config.exists_programs_of_validate hc
  have hms : c.nearHeadThresholdMs? = some (c.nearHeadThresholdSecs.toNat * 1000 : Int) := if_pos h
  have hschedule := FlushSchedule.make_of_pos (Config.flushInterval_pos_of_validate hc)
    (c.nearHeadThresholdSecs.toNat * 1000)
  have hspan := Config.clampedThreshold?_of_le h
  rw [start_empty hc hp, hms]
  refine ⟨_, rfl, ⟨rfl, ?_, ?_, ?_, ?_⟩⟩
  all_goals simp only [Writer.resume, hschedule]
  · exact hspan
  · exact FlushSchedule.checkedTrigger_eq hspan

theorem start_ne_ok_of_lt (h : Config.maxThresholdSecs < c.nearHeadThresholdSecs.toNat) (s : Store)
    (e : Engine) : start c s ≠ .ok e := by
  have hms : c.nearHeadThresholdMs? = none := if_neg (Nat.not_le.mpr h)
  unfold start
  rw [hms]
  split
  · nofun
  · nofun
  · split
    · nofun
    · split <;> nofun

/-- A valid configuration starts an engine on some store just if its threshold is a span that can be
held; then it does so on an empty one, and the engine is ready for every slot. A longer threshold
stops the program. -/
theorem start_within_range {c : Config} (hc : c.validate = .ok ()) :
    c.clampedThreshold? = c.nearHeadThresholdMs?.map (· * 1000000) ∧
      ((∃ s e, start c s = .ok e) ↔ c.nearHeadThresholdSecs.toNat ≤ Config.maxThresholdSecs) ∧
      (c.nearHeadThresholdSecs.toNat ≤ Config.maxThresholdSecs →
        ∃ e, start c (.ofTable .empty) = .ok e ∧ e.Ready c) ∧
      (Config.maxThresholdSecs < c.nearHeadThresholdSecs.toNat →
        c.clampedThreshold? = none ∧
        start c (.ofTable .empty) = .error (.thresholdOutOfRange, .ofTable .empty)) := by
  refine ⟨c.clampedThreshold?_eq, ⟨fun ⟨s, e, he⟩ => ?_, fun h => ?_⟩, exists_ready_of_le hc,
    fun h => ⟨?_, ?_⟩⟩
  · exact Nat.le_of_not_lt fun hlt => start_ne_ok_of_lt hlt s e he
  · obtain ⟨e, he, _⟩ := exists_ready_of_le hc h
    exact ⟨_, e, he⟩
  · exact Config.clampedThreshold?_of_lt h
  · obtain ⟨programs, hp⟩ := Config.exists_programs_of_validate hc
    have hms : c.nearHeadThresholdMs? = none := if_neg (Nat.not_le.mpr h)
    rw [start_empty hc hp, hms]

/-- A configuration for one program with a threshold of so many seconds. -/
def thresholdConfig (secs : UInt64) : Config :=
  { Config.default with
    programIds := ["11111111111111111111111111111111"]
    nearHeadThresholdSecs := secs }

theorem validate_thresholdConfig (secs : UInt64) :
    (thresholdConfig secs).validate = .ok () := by
  have hvalid : (thresholdConfig 0).validate.toOption = some () := by decide +kernel
  -- the threshold is not checked
  have hsame : (thresholdConfig secs).validate = (thresholdConfig 0).validate := rfl
  rw [hsame]
  exact Results.toOption_eq_some.mp hvalid

/-- The longest threshold with which an engine starts, and the next one. -/
theorem start_within_range_at_longest :
    (thresholdConfig 9223372036854775).validate = .ok () ∧
      (thresholdConfig 9223372036854776).validate = .ok () ∧
      (∃ e, start (thresholdConfig 9223372036854775) (.ofTable .empty) = .ok e ∧
        e.Ready (thresholdConfig 9223372036854775)) ∧
      start (thresholdConfig 9223372036854776) (.ofTable .empty) =
        .error (.thresholdOutOfRange, .ofTable .empty) := by
  have hlongest := validate_thresholdConfig 9223372036854775
  have hnext := validate_thresholdConfig 9223372036854776
  refine ⟨hlongest, hnext, (start_within_range hlongest).2.2.1 (by decide), ?_⟩
  exact ((start_within_range hnext).2.2.2 (by decide)).2

end Engine

end DexIndex
