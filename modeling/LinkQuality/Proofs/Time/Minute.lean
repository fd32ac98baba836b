import LinkQuality.Proofs.Metric.Minute
import LinkQuality.Proofs.Time.Calendar
import Mathlib.Order.Bounds.Defs

/-!
# The minute as a floor

Among the whole minutes that are not after a timestamp there is a latest one, and that is its
minute (`Timestamp.isGreatest_minute`). Whole minutes are recognised on the clock, by second and
nanosecond both zero. In seconds they are the multiples of sixty, also before 1970, and between two
neighbouring ones a clock shows one day, hour and minute (`Timestamp.sameMinute_iff`). So the
timestamps that have one minute in common are just those whose clocks agree down to the minute.

A leap second counts as the second before it here, with nanoseconds enough for two. It comes after
every other nanosecond of its second and before the whole minute that follows, so its minute is the
one it ends. A second that is overlong in the middle of a minute stays in that minute too; only of
one at its end can it be said that a whole minute follows.
-/

namespace LinkQuality.Timestamp

/-- **A whole minute**, as a clock shows it. -/
def IsWhole (t : Timestamp) : Prop := t.fields.second = 0 ∧ t.nanos = 0

/-- **Two timestamps of one calendar minute**: clocks show the same day, hour and minute. -/
structure SameMinute (t u : Timestamp) : Prop where
  date_eq : t.date = u.date
  hour_eq : t.fields.hour = u.fields.hour
  minute_eq : t.fields.minute = u.fields.minute

variable {t u : Timestamp}

/-! ## Whole minutes -/

/-- The second that a clock shows is what the minutes leave over. -/
theorem second_fields (t : Timestamp) : (t.fields.second : Int) = t.seconds % 60 := by
  simp only [fields]
  omega

theorem isWhole_iff : t.IsWhole ↔ t.seconds % 60 = 0 ∧ t.nanos = 0 := by
  have hsecond := t.second_fields
  rw [IsWhole]
  omega

theorem isWhole_minute (t : Timestamp) : t.minute.IsWhole := by
  rw [isWhole_iff, minute_seconds, minute_nanos]
  omega

theorem minute_le (t : Timestamp) : t.minute ≤ t := by
  rw [le_def, minute_seconds, minute_nanos]
  omega

/-- A whole minute that is not after a timestamp is not after its minute. -/
theorem IsWhole.le_minute (hw : t.IsWhole) (h : t ≤ u) : t ≤ u.minute := by
  rw [isWhole_iff] at hw
  rw [le_def] at h ⊢
  rw [minute_seconds, minute_nanos]
  omega

/-- **The minute is the latest whole one that is not after a timestamp.** -/
theorem isGreatest_minute (t : Timestamp) : IsGreatest {w | w.IsWhole ∧ w ≤ t} t.minute :=
  ⟨⟨t.isWhole_minute, t.minute_le⟩, fun _ hw => hw.1.le_minute hw.2⟩

/-- **Minutes come in the order of their timestamps.** -/
theorem minute_mono (h : t ≤ u) : t.minute ≤ u.minute :=
  t.isWhole_minute.le_minute (Timestamp.le_trans t.minute_le h)

/-- A timestamp always has a minute, and need not stand for itself. -/
theorem minute?_eq_some (t : Timestamp) : t.minute? = some t.minute := by
  obtain ⟨m, hm, -⟩ := minute?_eq t
  rw [minute, hm, Option.getD_some]

/-- What a clock shows at the minute of a timestamp. -/
theorem fields_minute (t : Timestamp) :
    t.minute.fields = { t.fields with second := 0, nanos := 0 } := by
  simp only [fields, minute_seconds, minute_nanos, Fields.mk.injEq, and_true]
  omega

/-! ## Calendar minutes -/

theorem minute_eq_iff : t.minute = u.minute ↔ t.seconds / 60 = u.seconds / 60 := by
  constructor
  · intro h
    have hseconds := congrArg seconds h
    rw [minute_seconds, minute_seconds] at hseconds
    omega
  · intro h
    refine ext_parts ?_ (t.minute_nanos.trans u.minute_nanos.symm)
    rw [minute_seconds, minute_seconds]
    omega

/-- Days are named once, so the same date is the same day. -/
theorem date_eq_iff : t.date = u.date ↔ t.seconds / 86400 = u.seconds / 86400 := by
  refine ⟨fun h => ?_, fun h => congrArg Date.ofDays h⟩
  have hdays := congrArg Date.toDays h
  rwa [date, date, Date.toDays_ofDays, Date.toDays_ofDays] at hdays

/-- Day, hour and minute of a clock are the minutes since 1970, counted by days. -/
theorem sameMinute_iff : t.SameMinute u ↔ t.seconds / 60 = u.seconds / 60 := by
  constructor
  · rintro ⟨hdate, hhour, hminute⟩
    rw [date_eq_iff] at hdate
    simp only [fields] at hhour hminute
    omega
  · intro h
    have hday : t.seconds / 86400 = u.seconds / 86400 := by omega
    refine ⟨date_eq_iff.mpr hday, ?_, ?_⟩
    · simp only [fields]
      omega
    · simp only [fields]
      omega

/-- **The minute of a timestamp is the floor to the calendar minute.**

* There always is one, so the timestamp never stands for itself.
* It is the latest whole minute that is not after the timestamp.
* The minute of a minute is that minute, and minutes come in the order of their timestamps.
* Two timestamps have the same minute just if they lie in one calendar minute.
* A leap second lies in the minute it ends: the next one begins a second after it.
* Nanoseconds do not matter, overlong ones neither: a clock that shows others is set to the same
  minute. -/
theorem minute_floors (t : Timestamp) :
    t.minute? = some t.minute ∧
      IsGreatest {w | w.IsWhole ∧ w ≤ t} t.minute ∧
      t.minute.minute = t.minute ∧
      (∀ u, t ≤ u → t.minute ≤ u.minute) ∧
      (∀ u, t.minute = u.minute ↔ t.SameMinute u) ∧
      (t.IsRegular → 1000000000 ≤ t.nanos → t.minute.seconds + 60 = t.seconds + 1) ∧
      ∀ nanos, (Fields.withSecond? { t.fields with nanos } 0).bind (·.withNanos? 0) =
        some t.minute.fields := by
  refine ⟨t.minute?_eq_some, t.isGreatest_minute, t.minute_minute, fun _ => minute_mono,
    fun _ => minute_eq_iff.trans sameMinute_iff.symm, fun hregular hleap => ?_, fun nanos => ?_⟩
  · have hlast := hregular hleap
    rw [minute_seconds]
    omega
  · have hseconds : Fields.seconds { t.fields with nanos } = t.seconds := t.seconds_fields
    rw [fields_minute]
    exact Fields.withSecond?_withNanos? t.second_fields_lt (hseconds ▸ t.seconds_ge)
      (hseconds ▸ t.seconds_le)

/-- A leap second before 1970, and the first second of that year. -/
theorem minute_floors_leap :
    let leap : Timestamp := ⟨-1, 1500000000, by decide, by decide, by decide⟩
    let first : Timestamp := ⟨0, 0, by decide, by decide, by decide⟩
    leap ≤ first ∧ leap.minute ≤ first.minute ∧ leap.minute.seconds + 60 = 0 := by
  intro leap first
  have hle : leap ≤ first := by decide
  obtain ⟨-, -, -, hmono, -, hleap, -⟩ := minute_floors leap
  exact ⟨hle, hmono first hle, hleap (by decide) (by decide)⟩

end LinkQuality.Timestamp
