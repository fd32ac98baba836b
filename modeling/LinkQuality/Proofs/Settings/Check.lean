import LinkQuality.Settings.Check

/-!
# What accepted settings satisfy

A check is a row of demands of which the first that is not met is reported. To be accepted is to
meet them all, in whatever order (`Settings.check_eq_ok_iff`), and of the two stores only the
enabled one has demands to meet (`SinkSettings.Sound`).
-/

namespace LinkQuality

variable {condition : Bool} {fault : SettingsError}

theorem requires_eq_ok_iff : requires condition fault = .ok () ↔ condition = true := by
  cases condition <;> simp [requires]

/-- Where a demand is followed by others, all of them are to be met. -/
theorem bind_eq_ok_iff {first : Except SettingsError Unit}
    {rest : Unit → Except SettingsError Unit} :
    (first >>= rest) = .ok () ↔ first = .ok () ∧ rest () = .ok () := by
  cases first with
  | error e =>
    change Except.error e = .ok () ↔ Except.error e = .ok () ∧ _
    simp
  | ok u =>
    change rest u = .ok () ↔ _
    simp

/-- **What is demanded of the cache.** -/
structure CacheSettings.Sound (s : CacheSettings) : Prop where
  capacity_ne : s.capacity ≠ 0
  sweepInterval_ne : s.sweepInterval ≠ .zero

/-- **What is demanded of the writer.** -/
structure WriterSettings.Sound (s : WriterSettings) : Prop where
  queueCapacity_ne : s.queueCapacity ≠ 0
  batchSize_ne : s.batchSize ≠ 0
  flushInterval_ne : s.flushInterval ≠ .zero
  maxAttempts_ne : s.maxAttempts ≠ 0
  one_le_multiplier : 1 ≤ s.retryMultiplier
  isFinite_multiplier : s.retryMultiplier.isFinite = true
  base_le_longest : s.retryBaseDelay ≤ s.maxRetryDelay
  transactionTimeout_ne : s.transactionTimeout ≠ .zero

/-- **What is demanded of a ClickHouse server** that is enabled. -/
structure ClickHouseSettings.Sound (s : ClickHouseSettings) : Prop where
  endpoint_ne : s.endpoint ≠ ""
  table_ne : s.table ≠ ""

/-- **What is demanded of an HTTP service** that is enabled. -/
structure HttpSettings.Sound (s : HttpSettings) : Prop where
  address_ne : s.address ≠ ""
  timeout_ne : s.timeout ≠ .zero
  compression_mem : s.compression ∈ compressions

/-- **What is demanded of the choice of the store**, and of the store that is chosen. -/
structure SinkSettings.Sound (s : SinkSettings) : Prop where
  enabled_ne : s.clickHouse.enabled ≠ s.http.enabled
  clickHouse : s.clickHouse.enabled = true → s.clickHouse.Sound
  http : s.http.enabled = true → s.http.Sound

theorem Span.isZero_eq_false_iff {s : Span} : s.isZero = false ↔ s ≠ .zero := by
  obtain ⟨n⟩ := s
  simp [isZero, zero]

theorem CacheSettings.check_eq_ok_iff {s : CacheSettings} : s.check = .ok () ↔ s.Sound := by
  simp only [check, bind_eq_ok_iff, requires_eq_ok_iff, decide_eq_true_iff, Bool.not_eq_true',
    Span.isZero_eq_false_iff]
  exact ⟨fun ⟨h1, h2⟩ => ⟨h1, h2⟩, fun h => ⟨h.1, h.2⟩⟩

theorem WriterSettings.check_eq_ok_iff {s : WriterSettings} : s.check = .ok () ↔ s.Sound := by
  simp only [check, bind_eq_ok_iff, requires_eq_ok_iff, decide_eq_true_iff, Bool.not_eq_true',
    Span.isZero_eq_false_iff, Bool.and_eq_true]
  constructor
  · rintro ⟨hqueue, hbatch, hflush, hattempts, ⟨hone, hfinite⟩, hdelays, htimeout⟩
    exact ⟨hqueue, hbatch, hflush, hattempts, hone, hfinite, hdelays, htimeout⟩
  · rintro ⟨hqueue, hbatch, hflush, hattempts, hone, hfinite, hdelays, htimeout⟩
    exact ⟨hqueue, hbatch, hflush, hattempts, ⟨hone, hfinite⟩, hdelays, htimeout⟩

theorem ClickHouseSettings.check_eq_ok_iff {s : ClickHouseSettings} :
    s.check = .ok () ↔ s.Sound := by
  simp only [check, bind_eq_ok_iff, requires_eq_ok_iff, decide_eq_true_iff]
  exact ⟨fun ⟨h1, h2⟩ => ⟨h1, h2⟩, fun h => ⟨h.1, h.2⟩⟩

theorem HttpSettings.check_eq_ok_iff {s : HttpSettings} : s.check = .ok () ↔ s.Sound := by
  simp only [check, bind_eq_ok_iff, requires_eq_ok_iff, decide_eq_true_iff, Bool.not_eq_true',
    Span.isZero_eq_false_iff, List.contains_iff_mem]
  exact ⟨fun ⟨h1, h2, h3⟩ => ⟨h1, h2, h3⟩, fun h => ⟨h.1, h.2, h.3⟩⟩

theorem SinkSettings.check_eq_ok_iff {s : SinkSettings} : s.check = .ok () ↔ s.Sound := by
  rw [check]
  cases hclickHouse : s.clickHouse.enabled <;> cases hhttp : s.http.enabled
  case false.true =>
    rw [HttpSettings.check_eq_ok_iff]
    exact ⟨fun h => ⟨by simp [hclickHouse, hhttp], by simp [hclickHouse], fun _ => h⟩,
      fun h => h.http hhttp⟩
  case true.false =>
    rw [ClickHouseSettings.check_eq_ok_iff]
    exact ⟨fun h => ⟨by simp [hclickHouse, hhttp], fun _ => h, by simp [hhttp]⟩,
      fun h => h.clickHouse hclickHouse⟩
  all_goals
    refine ⟨fun h => absurd h (by simp), fun h => absurd (hclickHouse.trans hhttp.symm) ?_⟩
    exact h.enabled_ne

/-- **Settings are accepted just if every demand is met.** -/
theorem Settings.check_eq_ok_iff {s : Settings} :
    s.check = .ok () ↔ s.cache.Sound ∧ s.writer.Sound ∧ s.sink.Sound := by
  rw [check, bind_eq_ok_iff, bind_eq_ok_iff, CacheSettings.check_eq_ok_iff,
    WriterSettings.check_eq_ok_iff, SinkSettings.check_eq_ok_iff]

end LinkQuality
