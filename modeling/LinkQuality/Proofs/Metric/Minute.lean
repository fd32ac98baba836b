import LinkQuality.Metric.History

/-!
# Minutes and their order

Timestamps are ordered by second and then by nanosecond, and the minute of a timestamp is the
latest whole minute that is not after it. There always is one: the earliest timestamp there can
be is a whole minute, so setting second and nanosecond to zero never leaves the calendar.

Summing up by the minute therefore lists whole minutes only, each once and in ascending order,
whatever samples it is given and in whatever order (`pairwise_time_summarise`).
-/

namespace LinkQuality

namespace Timestamp

/-! ## The order -/

theorem lt_def {a b : Timestamp} :
    a < b ↔ a.seconds < b.seconds ∨ a.seconds = b.seconds ∧ a.nanos < b.nanos := Iff.rfl

theorem le_def {a b : Timestamp} :
    a ≤ b ↔ a.seconds < b.seconds ∨ a.seconds = b.seconds ∧ a.nanos ≤ b.nanos := Iff.rfl

/-- Seconds and nanoseconds make up a timestamp. -/
theorem ext_parts {a b : Timestamp} (hs : a.seconds = b.seconds) (hn : a.nanos = b.nanos) :
    a = b := by
  cases a
  cases b
  simp only at hs hn
  subst hs hn
  rfl

protected theorem lt_irrefl (a : Timestamp) : ¬ a < a := by
  rw [lt_def]
  omega

protected theorem lt_trans {a b c : Timestamp} (hab : a < b) (hbc : b < c) : a < c := by
  rw [lt_def] at *
  omega

protected theorem lt_of_le_of_lt {a b c : Timestamp} (hab : a ≤ b) (hbc : b < c) : a < c := by
  rw [lt_def] at *
  rw [le_def] at hab
  omega

protected theorem lt_of_lt_of_le {a b c : Timestamp} (hab : a < b) (hbc : b ≤ c) : a < c := by
  rw [lt_def] at *
  rw [le_def] at hbc
  omega

protected theorem le_of_lt {a b : Timestamp} (h : a < b) : a ≤ b := by
  rw [lt_def] at h
  rw [le_def]
  omega

protected theorem le_trans {a b c : Timestamp} (hab : a ≤ b) (hbc : b ≤ c) : a ≤ c := by
  rw [le_def] at *
  omega

protected theorem le_refl (a : Timestamp) : a ≤ a := by
  rw [le_def]
  omega

/-- Of two timestamps the first is not after the second, or it is. -/
protected theorem not_le {a b : Timestamp} : ¬ a ≤ b ↔ b < a := by
  rw [le_def, lt_def]
  omega

/-- A timestamp that is neither before another nor the same is after it. -/
protected theorem lt_of_not_lt_of_ne {a b : Timestamp} (h : ¬ a < b) (hne : a ≠ b) : b < a := by
  rw [lt_def] at *
  by_cases hs : a.seconds = b.seconds
  · have hn : a.nanos ≠ b.nanos := fun hn => hne (ext_parts hs hn)
    omega
  · omega

/-! ## The minute of a timestamp -/

end Timestamp

/-- **Second and nanosecond can be set to zero**, whatever a clock in the range has shown there: the
range begins with a whole minute, and does not end with one. -/
theorem Fields.withSecond?_withNanos? {f : Fields} (hsecond : f.second < 60)
    (hlow : -8334601228800 ≤ f.seconds) (hhigh : f.seconds ≤ 8210266876799) :
    (f.withSecond? 0).bind (·.withNanos? 0) = some { f with second := 0, nanos := 0 } := by
  rw [Fields.seconds, Int.ofNat_eq_natCast] at hlow hhigh
  have hrange (nanos : Nat) :
      inRange? { f with second := 0, nanos } = some { f with second := 0, nanos } := by
    rw [inRange?, if_pos]
    simp only [Fields.seconds, Int.ofNat_eq_natCast]
    omega
  rw [withSecond?, if_pos (by decide), hrange, Option.bind_some, withNanos?, if_pos (by decide),
    hrange]

namespace Timestamp

/-- The fields of the clock count the seconds of a timestamp. -/
theorem seconds_fields (t : Timestamp) : t.fields.seconds = t.seconds := by
  simp only [Fields.seconds, fields, Int.ofNat_eq_natCast]
  omega

theorem second_fields_lt (t : Timestamp) : t.fields.second < 60 := Nat.mod_lt _ (by decide)

/-- The start of the minute is the last multiple of sixty seconds. -/
theorem minute?_eq (t : Timestamp) :
    ∃ m, t.minute? = some m ∧ m.seconds = t.seconds - t.seconds % 60 ∧ m.nanos = 0 := by
  have hlow := t.seconds_ge
  have hhigh := t.seconds_le
  have hseconds : Fields.seconds { t.fields with second := 0, nanos := 0 } =
      t.seconds - t.seconds % 60 := by
    simp only [Fields.seconds, fields, Int.ofNat_eq_natCast]
    omega
  have hparts : -8334601228800 ≤ t.seconds - t.seconds % 60 ∧
      t.seconds - t.seconds % 60 ≤ 8210266876799 ∧ 0 < 2000000000 := by
    omega
  have hfields := Fields.withSecond?_withNanos? t.second_fields_lt
    (t.seconds_fields.symm ▸ hlow) (t.seconds_fields.symm ▸ hhigh)
  refine ⟨⟨t.seconds - t.seconds % 60, 0, hparts.1, hparts.2.1, hparts.2.2⟩, ?_, rfl, rfl⟩
  have hsplit : t.minute? = ((t.fields.withSecond? 0).bind (·.withNanos? 0)).bind ofFields? :=
    (Option.bind_assoc ..).symm
  rw [hsplit, hfields, Option.bind_some, ofFields?, dif_pos (hseconds ▸ hparts)]
  simp only [hseconds]

theorem minute_seconds (t : Timestamp) : t.minute.seconds = t.seconds - t.seconds % 60 := by
  obtain ⟨m, hm, hs, -⟩ := minute?_eq t
  rw [minute, hm, Option.getD_some, hs]

theorem minute_nanos (t : Timestamp) : t.minute.nanos = 0 := by
  obtain ⟨m, hm, -, hn⟩ := minute?_eq t
  rw [minute, hm, Option.getD_some, hn]

/-- The minute of a minute is that minute. -/
@[simp] theorem minute_minute (t : Timestamp) : t.minute.minute = t.minute := by
  refine ext_parts ?_ ?_
  · rw [minute_seconds, minute_seconds]
    omega
  · rw [minute_nanos, minute_nanos]

end Timestamp

/-! ## Tables by the minute -/

namespace MinuteTable

variable {τ : Type}

/-- The minutes of a table, in its order. -/
def minutes (table : MinuteTable τ) : List Timestamp := table.map (·.1)

/-- Recording a sample brings in no minute but its own. -/
theorem mem_minutes_record {start : τ} {step : τ → Sample → τ} {minute m : Timestamp} {s : Sample}
    {table : MinuteTable τ} (h : m ∈ (record start step minute s table).minutes) :
    m = minute ∨ m ∈ table.minutes := by
  induction table with
  | nil => exact .inl (by simpa [record, minutes] using h)
  | cons entry rest ih =>
    rw [record] at h
    split at h
    · simpa [minutes] using h
    · split at h
      · exact .inr (by simpa [minutes] using h)
      · rcases List.mem_cons.mp h with rfl | h
        · exact .inr (List.mem_cons_self ..)
        · exact (ih h).imp id (List.mem_cons_of_mem _)

/-- **Recording a sample keeps the minutes ascending**, each of them once. -/
theorem pairwise_minutes_record (start : τ) (step : τ → Sample → τ) (minute : Timestamp)
    (s : Sample) {table : MinuteTable τ} (h : table.minutes.Pairwise (· < ·)) :
    (record start step minute s table).minutes.Pairwise (· < ·) := by
  induction table with
  | nil => exact List.pairwise_singleton _ _
  | cons entry rest ih =>
    obtain ⟨hfirst, hrest⟩ := List.pairwise_cons.mp h
    rw [record]
    split
    next hlt =>
      refine List.pairwise_cons.mpr ⟨fun m hm => ?_, h⟩
      rcases List.mem_cons.mp hm with rfl | hm
      · exact hlt
      · exact Timestamp.lt_trans hlt (hfirst m hm)
    next hlt =>
      split
      next => exact h
      next hne =>
        refine List.pairwise_cons.mpr ⟨fun m hm => ?_, ih hrest⟩
        rcases mem_minutes_record hm with rfl | hm
        · exact Timestamp.lt_of_not_lt_of_ne hlt hne
        · exact hfirst m hm

/-- **The minutes of samples are whole, and listed in ascending order.** -/
theorem minutes_ofSamples (start : τ) (step : τ → Sample → τ) (samples : List Sample) :
    (ofSamples start step samples).minutes.Pairwise (· < ·) ∧
      ∀ m ∈ (ofSamples start step samples).minutes, m.minute = m := by
  suffices h : ∀ table : MinuteTable τ,
      (table.minutes.Pairwise (· < ·) ∧ ∀ m ∈ table.minutes, m.minute = m) →
      let result := samples.foldl (fun table s => record start step s.time.minute s table) table
      result.minutes.Pairwise (· < ·) ∧ ∀ m ∈ result.minutes, m.minute = m from
    h [] ⟨List.Pairwise.nil, fun _ hm => absurd hm List.not_mem_nil⟩
  induction samples with
  | nil => exact fun _ h => h
  | cons s samples ih =>
    rintro table ⟨hascending, hwhole⟩
    refine ih _ ⟨pairwise_minutes_record start step _ s hascending, fun m hm => ?_⟩
    rcases mem_minutes_record hm with rfl | hm
    · exact Timestamp.minute_minute s.time
    · exact hwhole m hm

end MinuteTable

/-- The times of the summaries are the minutes of the table. -/
theorem map_time_summarise (samples : List Sample) :
    (summarise samples).map Summary.time =
      (MinuteTable.ofSamples Tally.empty Tally.record samples).minutes := by
  rw [summarise, List.map_map]
  rfl

/-- **Summaries are listed in ascending order of time**, one for each minute. -/
theorem pairwise_time_summarise (samples : List Sample) :
    (summarise samples).Pairwise (·.time < ·.time) := by
  have h := (MinuteTable.minutes_ofSamples Tally.empty Tally.record samples).1
  rw [← map_time_summarise] at h
  exact List.pairwise_map.mp h

/-- Every summary is that of a whole minute. -/
theorem minute_time_of_mem_summarise {samples : List Sample} {s : Summary}
    (h : s ∈ summarise samples) : s.time.minute = s.time := by
  refine (MinuteTable.minutes_ofSamples Tally.empty Tally.record samples).2 s.time ?_
  rw [← map_time_summarise]
  exact List.mem_map_of_mem h

end LinkQuality
