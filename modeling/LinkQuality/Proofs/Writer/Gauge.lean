import LinkQuality.Proofs.Writer.Counters

/-!
# The gauge of the backlog

The metrics of a writer have a gauge for the records that wait. It is not set wherever their number
changes: a consumer that hands its batch to a flush, and a stop that drains the queue, leave the
gauge behind until they are done. It is set when a record is accepted, after each turn of the
consumer that leaves it gathering, and at the end of a stop.

That is just often enough. Whoever finds no flush under way and no stop that has yet to come to its
end (`Calm`) reads the true number (`Candid`), and each step keeps it so (`Candid.step`). A flush
that ends either sets the gauge, or ends in the middle of a stop; so does a consumer that was told
to end, and the stop sets the gauge last of all. Only a crash is an exception: the flush is gone and
nobody is left to set anything.
-/

namespace LinkQuality

/-- A crash is in the books for good. -/
theorem Entry.crashed_eq_false {b b' : Books} {record : Option Record} (h : Entry b record b')
    (hb : b'.crashed = false) : b.crashed = false := by
  cases h with
  | settle => exact (Bool.or_eq_false_iff.mp hb).1
  | _ => exact hb

namespace Writer

variable {σ : Type} {w w' : Writer σ}

/-- So a writer without a crash behind it had none before its last step. -/
theorem Sound.hasCrashed_eq_false {actor : Actor} (hw : Sound w) (h : Step w actor w')
    (hcrash : w'.hasCrashed = false) : w.hasCrashed = false :=
  (entry_of_step hw h).crashed_eq_false hcrash

/-! ## At rest -/

/-- **Nothing is under way**: no flush, and no stop that has yet to come to its end. -/
structure Calm (w : Writer σ) : Prop where
  flight_eq_none : w.flight = none
  open_or_stopped : w.closed = false ∨ w.consumer = .stopped

/-- **The gauge tells the truth when nothing is under way.** -/
def Candid (w : Writer σ) : Prop := w.Calm → w.metrics.queueDepth = w.backlog

/-- A writer that is closed and not yet at rest has nothing to be candid about. -/
theorem candid_of_closing (hc : w.closed = true) (hs : w.consumer ≠ .stopped) : w.Candid :=
  fun h => (h.open_or_stopped.elim (fun ho => absurd (hc.symm.trans ho) nofun) hs).elim

/-- Nor has one with a flush under way. -/
theorem candid_of_flight (hf : w.flight ≠ none) : w.Candid :=
  fun h => absurd h.flight_eq_none hf

/-- What follows a flush makes up for what the gauge has missed, or has yet to. -/
theorem candid_resume {now : Nat} {trigger : Trigger} (hp : w.Places trigger) :
    (w.resume now trigger).Candid := by
  cases trigger with
  | size | timer => exact fun _ => rfl
  | shutdown => exact candid_of_closing hp.1 nofun
  | drain =>
    refine candid_of_closing hp.1 fun hs => ?_
    rcases hp.2 with h | h <;> exact absurd (h.symm.trans hs) nofun

/-- **Each step without a crash keeps the gauge true.** -/
theorem Candid.step {actor : Actor} (h : Step w actor w') (hw : Sound w)
    (hcrash : w'.hasCrashed = false) (hc : w.Candid) : w'.Candid := by
  cases h with
  -- the gauge is set
  | accept | gather | pass | settle => exact fun _ => rfl
  -- neither the gauge nor the backlog is touched
  | overflow | refuse | announce | drift => exact fun h => hc ⟨h.1, h.2⟩
  | spawn hopen hi => exact fun h => hc ⟨h.1, .inl hopen⟩
  | wake now hf hs => exact fun h => hc ⟨hf, .inl (h.2.resolve_right nofun)⟩
  | close => exact fun h => hc ⟨h.1, .inr (h.2.resolve_left nofun)⟩
  -- the consumer ends, or its end is noticed, in the middle of a stop
  | finish hf hg hclosed hb => exact candid_of_closing hclosed nofun
  | mourn hf hclosed hl => exact candid_of_closing hclosed nofun
  -- a flush is under way
  | fill | tick | shut | drain | begun | inserted | rollBack | rest | retry =>
    exact candid_of_flight nofun
  -- a flush ends
  | commit now hf hp hs => exact candid_resume (hw.flight_places _ hf)
  | giveUp now hf hwhy hr => exact candid_resume (hw.flight_places _ hf)
  -- nobody is left to set the gauge, but the history shows why
  | crash => simp [hasCrashed, Writer.crash, hear] at hcrash

/-! ## Every run -/

/-- A run without a crash keeps it true. -/
theorem Candid.reaches (h : Reaches w w') (hw : Sound w) (hcrash : w'.hasCrashed = false)
    (hc : w.Candid) : w'.Candid := by
  have hall : Sound w' ∧ (w'.hasCrashed = false → w'.Candid) := by
    refine h.keeps (P := fun v => Sound v ∧ (v.hasCrashed = false → v.Candid)) ?_
      ⟨hw, fun _ => hc⟩
    rintro u v actor hstep ⟨hu, hcandid⟩
    exact ⟨hu.step hstep, fun hv => (hcandid (hu.hasCrashed_eq_false hstep hv)).step hstep hu hv⟩
  exact hall.2 hcrash

/-- A writer with a gauge at zero begins with the truth. -/
theorem candid_withMetrics (s : WriterSettings) (store : Store σ) (state : σ)
    {m : WriterMetrics Nat} (hm : m.queueDepth = 0) :
    ((ofSettings s store state).withMetrics m).Candid :=
  fun _ => hm

/-- A writer at rest shows that none waits. -/
theorem Candid.queueDepth_eq_zero (hc : w.Candid) (hw : w.Arises) (hs : w.consumer = .stopped)
    (hcrash : w.hasCrashed = false) : w.metrics.queueDepth = 0 := by
  have hcleared := hw.cleared_of_stopped hs hcrash
  have hvacant := (hw.cleared_iff hcrash).mp hcleared
  have hcalm : w.Calm := ⟨hvacant.flight_eq_none, .inr hs⟩
  exact (hc hcalm).trans hcleared.accounted.backlog_eq_zero

/-- **The gauge of the backlog tells the truth.** In every run in which no call of the store has
brought anyone down it shows the records that wait, whenever no flush is under way and no stop has
yet to come to its end. After a stop it shows none. The metrics may be those of a writer that was
there before, as long as their gauge was left at zero. -/
theorem queueDepth_eq_backlog_after (s : WriterSettings) (store : Store σ) (state : σ)
    {m : WriterMetrics Nat} (hm : m.queueDepth = 0) (deeds : List (Deed σ)) :
    let w := ((ofSettings s store state).withMetrics m).after deeds
    w.hasCrashed = false →
      (w.flight = none → w.closed = false ∨ w.consumer = .stopped →
          w.metrics.queueDepth = w.backlog) ∧
        (w.consumer = .stopped → w.metrics.queueDepth = 0) ∧
        ∀ now, w.closed = false → (w.stop now).2.hasCrashed = false →
          (w.stop now).2.consumer = .stopped ∧ (w.stop now).2.metrics.queueDepth = 0 := by
  intro w hcrash
  have harises := arises_withMetrics s store state m
  have hreaches : Reaches ((ofSettings s store state).withMetrics m) w := reaches_after deeds _
  have hw : w.Arises := harises.reaches hreaches
  have hcandid : w.Candid :=
    (candid_withMetrics s store state hm).reaches hreaches harises.sound hcrash
  refine ⟨fun hf hidle => hcandid ⟨hf, hidle⟩,
    fun hs => hcandid.queueDepth_eq_zero hw hs hcrash, fun now hopen hstop => ?_⟩
  have hrest : (w.stop now).2.consumer = .stopped := (stop_atRest hw.sound hopen now).1
  have hlater : (w.stop now).2.Candid := hcandid.reaches (reaches_stop now w) hw.sound hstop
  exact ⟨hrest, hlater.queueDepth_eq_zero (hw.reaches (reaches_stop now w)) hrest hstop⟩

/-- Half way, with one record in the queue and one with the consumer, the gauge shows two; after a
stop it shows none. -/
theorem queueDepth_eq_halfway :
    let w := ((ofSettings {} Store.prompt ()).withMetrics .fresh).after halfway
    w.metrics.queueDepth = w.backlog ∧ w.backlog = 2 ∧ (w.stop 0).2.metrics.queueDepth = 0 := by
  intro w
  have hrun := queueDepth_eq_backlog_after {} Store.prompt () (m := .fresh) rfl halfway
    (by decide +kernel)
  refine ⟨hrun.1 (by decide +kernel) (by decide +kernel), by decide +kernel, ?_⟩
  exact (hrun.2.2 0 (by decide +kernel) (by decide +kernel)).2

end Writer

end LinkQuality
