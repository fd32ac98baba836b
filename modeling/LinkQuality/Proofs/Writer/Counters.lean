import LinkQuality.Proofs.Writer.Accounts

/-!
# A writer that goes on counting

A writer shows its metrics and never reads them. So one that goes on counting where another has
stopped takes the same steps as one whose metrics are fresh (`Step.withMetrics`), and what holds in
every run of the latter, of anything but metrics, holds of it as well. A writer that has come about
in this way (`Arises`) is all that others need to know of one.

What is asked of it here is when all that it has accepted has been dealt with (`Cleared`): without a
crash of the store, exactly when it has nothing in hand (`Arises.cleared_iff`).
-/

namespace LinkQuality.Writer

variable {σ : Type}

/-- **A writer that shows other metrics.** -/
def withMetrics (m : WriterMetrics Nat) (w : Writer σ) : Writer σ := { w with metrics := m }

/-! ## Metrics steer nothing -/

/-- An attempt fails for the same reason, whatever the metrics are. -/
theorem Failing.withMetrics {now : Nat} {w : Writer σ} {f : Flight} {why : Failure}
    {heard : List WriterEvent} {s : σ} (h : Failing now w f why heard s)
    (m : WriterMetrics Nat) : Failing now (w.withMetrics m) f why heard s := by
  cases h with
  | timeUp hp hd => exact .timeUp hp hd
  | beginning hp hs => exact .beginning hp hs
  | committing hp hs => exact .committing hp hs
  | rolledBack hp hs => exact .rolledBack hp hs
  | rollbackFailed hp hs => exact .rollbackFailed hp hs

/-- **Whatever its metrics are, a writer takes the same steps**, to the same but for metrics. -/
theorem Step.withMetrics {w w' : Writer σ} {actor : Actor} (h : Step w actor w')
    (m : WriterMetrics Nat) :
    ∃ v, Step (w.withMetrics m) actor v ∧ v = w'.withMetrics v.metrics := by
  cases h with
  | accept record hc hq => exact ⟨_, .accept record hc hq, rfl⟩
  | overflow record hc hq => exact ⟨_, .overflow record hc hq, rfl⟩
  | refuse hc => exact ⟨_, .refuse hc, rfl⟩
  | announce n hn => exact ⟨_, .announce n hn, rfl⟩
  | spawn hc hi => exact ⟨_, .spawn hc hi, rfl⟩
  | close => exact ⟨_, .close, rfl⟩
  | drift state => exact ⟨_, .drift state, rfl⟩
  | wake now hf hs => exact ⟨_, .wake now hf hs, rfl⟩
  | gather hf hg hc hq hb => exact ⟨_, .gather hf hg hc hq hb, rfl⟩
  | fill now hf hg hc hq hb => exact ⟨_, .fill now hf hg hc hq hb, rfl⟩
  | pass now hf hg hc hq hd hb => exact ⟨_, .pass now hf hg hc hq hd hb, rfl⟩
  | tick now hf hg hc hq hd hb => exact ⟨_, .tick now hf hg hc hq hd hb, rfl⟩
  | finish hf hg hc hb => exact ⟨_, .finish hf hg hc hb, rfl⟩
  | shut now hf hg hc hb => exact ⟨_, .shut now hf hg hc hb, rfl⟩
  | mourn hf hc hl => exact ⟨_, .mourn hf hc hl, rfl⟩
  | drain now hf hc hl hq => exact ⟨_, .drain now hf hc hl hq, rfl⟩
  | settle hf hc hl hq => exact ⟨_, .settle hf hc hl hq, rfl⟩
  | begun now hf hp hs => exact ⟨_, .begun now hf hp hs, rfl⟩
  | inserted now hf hp hs => exact ⟨_, .inserted now hf hp hs, rfl⟩
  | rollBack now hf hp hs => exact ⟨_, .rollBack now hf hp hs, rfl⟩
  | @commit now f ready s hf hp hs =>
    refine ⟨_, .commit now hf hp hs, ?_⟩
    unfold succeed
    cases f.trigger <;> rfl
  | rest now hf hw hr => exact ⟨_, .rest now hf (hw.withMetrics m) hr, rfl⟩
  | @giveUp now f why heard s hf hw hr =>
    refine ⟨_, .giveUp now hf (hw.withMetrics m) hr, ?_⟩
    unfold Writer.giveUp
    cases f.trigger <;> rfl
  | retry now hf hp => exact ⟨_, .retry now hf hp, rfl⟩
  | crash now hf hp hs => exact ⟨_, .crash now hf hp hs, rfl⟩

/-- **A writer that settings ask for has come to this**, whatever it had counted before. -/
def Arises (w : Writer σ) : Prop :=
  ∃ s store state m, Reaches (ofSettings s store state) (w.withMetrics m)

/-- It may begin with any metrics. -/
theorem arises_withMetrics (s : WriterSettings) (store : Store σ) (state : σ)
    (m : WriterMetrics Nat) : ((ofSettings s store state).withMetrics m).Arises :=
  ⟨s, store, state, .fresh, .refl _⟩

/-- **It may go on.** -/
theorem Arises.step {w w' : Writer σ} {actor : Actor} (h : Step w actor w') (hw : w.Arises) :
    w'.Arises := by
  obtain ⟨s, store, state, m, hreaches⟩ := hw
  obtain ⟨v, hstep, hv⟩ := h.withMetrics m
  refine ⟨s, store, state, v.metrics, ?_⟩
  rw [← hv]
  exact hreaches.trans hstep.reaches

/-- It may go on for long. -/
theorem Arises.reaches {w w' : Writer σ} (h : Reaches w w') (hw : w.Arises) : w'.Arises :=
  h.keeps Arises.step hw

/-- Its inner order does not depend on metrics. -/
theorem Arises.sound {w : Writer σ} (hw : w.Arises) : Sound w := by
  obtain ⟨s, store, state, m, hreaches⟩ := hw
  exact { Sound.of_reaches hreaches with }

/-! ## Dealt with -/

/-- **A writer that has nothing in hand.** -/
structure Vacant (w : Writer σ) : Prop where
  batch_eq_nil : w.batch = []
  queue_eq_nil : w.queue = []
  flight_eq_none : w.flight = none

/-- **All that a writer has accepted has been dealt with**: handed to a flush, once and in order, of
which each has ended with its batch committed or dropped, and counted so. -/
structure Cleared (w : Writer σ) : Prop where
  handedOver_eq : w.handedOver = w.accepted
  settled_eq : w.settled.map Settlement.handover = w.handovers
  fate_eq : ∀ l ∈ w.settled, l.fate = .committed ∨ l.fate = .dropped
  accounted : w.Accounted

/-- **All has been dealt with exactly when nothing is in hand**, if no call of the store has brought
anyone down. -/
theorem cleared_iff_of_reaches {s : WriterSettings} {store : Store σ} {state : σ} {w : Writer σ}
    (h : Reaches (ofSettings s store state) w) (hcrash : w.hasCrashed = false) :
    w.Cleared ↔ w.Vacant := by
  have haccepted := accepted_of_reaches h
  have hsequential : w.handovers =
      w.settled.map Settlement.handover ++ (w.flight.map Flight.handover).toList :=
    sequential_of_reaches h
  constructor
  · intro hw
    rw [← hw.handedOver_eq, List.append_assoc, List.append_right_eq_self,
      List.append_eq_nil_iff] at haccepted
    rw [hw.settled_eq, List.self_eq_append_right] at hsequential
    refine ⟨haccepted.1, haccepted.2, ?_⟩
    cases hf : w.flight with
    | none => rfl
    | some f => simp [hf] at hsequential
  · rintro ⟨hbatch, hqueue, hflight⟩
    have hbacklog : w.backlog = 0 := by
      rw [backlog, (Sound.of_reaches h).inFlight_eq, hqueue, hbatch]
      rfl
    have hadds := (addsUp_of_reaches h hcrash).accepted_eq
    rw [hbacklog, flushing, hflight] at hadds
    rw [hbatch, hqueue, List.append_nil, List.append_nil] at haccepted
    rw [hflight, Option.map_none, Option.toList_none, List.append_nil] at hsequential
    refine ⟨haccepted, hsequential.symm, fun l hl => ?_, hbacklog, hadds⟩
    have hany : w.settled.any (·.fate = .lost) = false :=
      (witnessed_of_reaches h).symm.trans hcrash
    have hlost : l.fate ≠ .lost := by simpa using List.any_eq_false.mp hany l hl
    cases hfate : l.fate with
    | committed => exact .inl rfl
    | dropped => exact .inr rfl
    | lost => exact absurd hfate hlost

/-- So it is whatever had been counted before. -/
theorem Arises.cleared_iff {w : Writer σ} (hw : w.Arises) (hcrash : w.hasCrashed = false) :
    w.Cleared ↔ w.Vacant := by
  obtain ⟨s, store, state, m, hreaches⟩ := hw
  have hiff := cleared_iff_of_reaches hreaches hcrash
  refine ⟨fun h => ?_, fun h => ?_⟩
  · obtain ⟨hbatch, hqueue, hflight⟩ := hiff.mp
      ⟨h.handedOver_eq, h.settled_eq, h.fate_eq, h.accounted.1, h.accounted.2⟩
    exact ⟨hbatch, hqueue, hflight⟩
  · obtain ⟨hhandedOver, hsettled, hfate, haccounted⟩ := hiff.mpr
      ⟨h.batch_eq_nil, h.queue_eq_nil, h.flight_eq_none⟩
    exact ⟨hhandedOver, hsettled, hfate, haccounted.1, haccounted.2⟩

/-- **A writer that has been stopped has dealt with everything**, if no call of the store has
brought anyone down. -/
theorem Arises.cleared_of_stopped {w : Writer σ} (hw : w.Arises) (hs : w.consumer = .stopped)
    (hcrash : w.hasCrashed = false) : w.Cleared := by
  refine (hw.cleared_iff hcrash).mpr ?_
  obtain ⟨s, store, state, m, hreaches⟩ := hw
  have hrests := rests_of_reaches hreaches (by rw [books, withMetrics, hs]; rfl)
  have hspent := spent_of_stopped hreaches hs hcrash
  exact ⟨hspent.batch_eq_nil, hspent.queue_eq_nil, Option.map_eq_none_iff.mp hrests.1⟩

end LinkQuality.Writer
