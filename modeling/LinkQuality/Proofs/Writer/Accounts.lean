import LinkQuality.Proofs.Writer.Conservation

/-!
# The counts of a writer

A writer counts the records it accepts, and for each flush that ends, the batch and its records.
The counts agree with the history (`Books.Counted`), and so they add up: what was accepted was
committed, or dropped, or lost with whoever carried its flush, or waits, or is in the flush under
way (`accepted_eq_add`).

A loss is counted nowhere. When the consumer dies in a flush, the number it last reported to hold
is taken for what died with it, but that number is back at zero before a flush begins. So a stop
that finds the consumer dead always reports that nothing was lost, and the counts are short by
exactly the batch that was (`accepted_eq_add_of_crash`).
-/

namespace LinkQuality

/-- A store that brings down whoever asks it first, and from then on answers well. -/
def Store.treacherous : Store Bool where
  name := "treacherous"
  accept state _ := (some 0, state)
  answer state _ := (if state then .done else .crashed, true)

/-- The batches of the flushes that have ended in a given way. -/
def batchesWith (settled : List Settlement) (fate : Fate) : List (List Record) :=
  (settled.filter (·.fate = fate)).map Settlement.batch

/-- One more flush adds its batch to those that ended the same way. -/
@[simp] theorem batchesWith_concat (settled : List Settlement) (s : Settlement) (fate : Fate) :
    batchesWith (settled ++ [s]) fate =
      batchesWith settled fate ++ if s.fate = fate then [s.batch] else [] := by
  unfold batchesWith
  split <;> simp_all

/-- Every flush ends in one of three ways. -/
theorem length_flatten_map_batch (settled : List Settlement) :
    (settled.map Settlement.batch).flatten.length =
      (batchesWith settled .committed).flatten.length +
        (batchesWith settled .dropped).flatten.length +
          (batchesWith settled .lost).flatten.length := by
  induction settled with
  | nil => rfl
  | cons s settled ih =>
    rw [List.map_cons, List.flatten_cons, List.length_append, ih]
    cases hs : s.fate <;> simp [batchesWith, hs] <;> omega

namespace Books

/-! ## The counts agree with the history -/

/-- **The counts agree with the history.** -/
structure Counted (b : Books) : Prop where
  accepted_eq : b.stats.accepted = b.accepted.length
  recordsCommitted_eq :
    b.stats.recordsCommitted = (batchesWith b.settled .committed).flatten.length
  batchesCommitted_eq : b.stats.batchesCommitted = (batchesWith b.settled .committed).length
  droppedAfterRetries_eq :
    b.stats.droppedAfterRetries = (batchesWith b.settled .dropped).flatten.length
  flushFailures_eq : b.stats.flushFailures = (batchesWith b.settled .dropped).length

/-- Each flush that ends is counted once, and as what it was. -/
theorem Counted.entry {b b' : Books} {record : Option Record} (h : Entry b record b')
    (hq : b.Sequential) (hb : b.Counted) : b'.Counted := by
  cases h with
  | nothing | handOver | leave | retire | report => exact { hb with }
  | turnAway => exact { hb with }
  | accept record hp => exact { hb with accepted_eq := by simp [accept, hb.accepted_eq] }
  | @settle trigger batch fate hf hp =>
    have hsettled := hq.settled_settle hf fate
    have hstats : (b.settle trigger batch fate).stats = b.stats.settle batch.length fate := rfl
    have haccepted : (b.settle trigger batch fate).accepted = b.accepted := rfl
    cases fate <;> constructor <;>
      simp [hsettled, hstats, haccepted, WriterStats.settle, hb.accepted_eq,
        hb.recordsCommitted_eq, hb.batchesCommitted_eq, hb.droppedAfterRetries_eq,
        hb.flushFailures_eq]

/-- The records accepted are those of the flushes that have ended, of the one under way, and
those that wait. -/
theorem length_accepted {b : Books} (hq : b.Sequential) (hc : b.Conserves) :
    b.accepted.length =
      (b.settled.map Settlement.batch).flatten.length + (b.flying.toList.flatMap (·.2)).length +
        b.waiting.length := by
  have hbatches : (b.settled.map Settlement.handover).flatMap (·.2) =
      (b.settled.map Settlement.batch).flatten := by
    rw [List.flatMap_map, List.flatMap_def]
    rfl
  rw [← hc, hq, List.flatMap_append, hbatches, List.length_append, List.length_append]

/-! ## What dies with the consumer -/

/-- The flushes that died with the consumer. -/
def deaths (b : Books) : List Settlement :=
  b.settled.filter fun s => s.fate = .lost ∧ s.trigger ≠ .drain

/-- **The consumer dies at most once**, and when that is noticed the loss is put at nothing. -/
def Mourns (b : Books) : Prop :=
  match b.presence with
  | .present => b.deaths = [] ∧ b.losses = []
  | .dead => b.deaths.length = 1 ∧ b.losses = []
  | .gone | .atRest => b.deaths.length ≤ 1 ∧ b.losses = .replicate b.deaths.length 0

/-- The end of a flush is a death if it is lost and the consumer carried it. -/
theorem deaths_settle {b : Books} {trigger : Trigger} {batch : List Record} {fate : Fate}
    (hq : b.Sequential) (hf : b.flying = some (trigger, batch)) :
    (b.settle trigger batch fate).deaths =
      b.deaths ++ if fate = .lost ∧ trigger ≠ .drain then [⟨trigger, batch, fate⟩] else [] := by
  unfold deaths
  rw [hq.settled_settle hf fate, List.filter_append]
  split <;> simp_all

/-- The end of a flush keeps the reckoning of deaths. -/
theorem Mourns.settle {b : Books} {trigger : Trigger} {batch : List Record} {fate : Fate}
    (hq : b.Sequential) (hf : b.flying = some (trigger, batch)) (hp : trigger.Allowed b.presence)
    (hb : b.Mourns) : (b.settle trigger batch fate).Mourns := by
  have hpresence : (b.settle trigger batch fate).presence = b.presence.after fate trigger := rfl
  have hlosses : (b.settle trigger batch fate).losses = b.losses := rfl
  unfold Mourns at hb ⊢
  rw [deaths_settle hq hf, hpresence, hlosses]
  cases htrigger : trigger with
  | drain =>
    -- a flush of what was left over is no death, even if it is lost
    rcases (htrigger ▸ hp : Trigger.drain.Allowed b.presence) with hp | hp <;>
      cases fate <;> simp_all [Presence.after]
  | size | timer | shutdown =>
    -- the consumer was there until now, so this is its first death
    have hp : b.presence = .present := by simpa [Trigger.Allowed, htrigger] using hp
    cases fate <;> simp_all [Presence.after]

/-- A death is noticed once, and nobody dies who is not there. -/
theorem Mourns.entry {b b' : Books} {record : Option Record} (h : Entry b record b')
    (hq : b.Sequential) (hb : b.Mourns) : b'.Mourns := by
  cases h with
  | nothing | turnAway | accept | handOver => exact hb
  | settle fate hf hp => exact hb.settle hq hf hp
  | leave hp hf =>
    simp only [Mourns, hp] at hb
    show b.deaths.length ≤ 1 ∧ b.losses = .replicate b.deaths.length 0
    rw [hb.1, hb.2]
    exact ⟨Nat.zero_le 1, rfl⟩
  | retire hp hf hw =>
    show b.deaths.length ≤ 1 ∧ b.losses = .replicate b.deaths.length 0
    rcases hp with hp | hp
    · simp only [Mourns, hp] at hb
      rw [hb.1, hb.2]
      exact ⟨Nat.zero_le 1, rfl⟩
    · simpa only [Mourns, hp] using hb
  | report hp =>
    simp only [Mourns, hp] at hb
    show b.deaths.length ≤ 1 ∧ b.losses ++ [0] = .replicate b.deaths.length 0
    rw [hb.1, hb.2]
    exact ⟨Nat.le_refl 1, rfl⟩

/-- No flush is empty. -/
def Laden (b : Books) : Prop := ∀ h ∈ b.handovers, h.2 ≠ []

/-- No batch is handed over empty. -/
theorem Laden.entry {b b' : Books} {record : Option Record} (h : Entry b record b')
    (hb : b.Laden) : b'.Laden := by
  cases h with
  | nothing | turnAway | accept | settle | leave | retire | report => exact hb
  | handOver hf hw hn hp => exact List.forall_mem_append.mpr ⟨hb, by simpa using hn⟩

end Books

namespace Writer

variable {σ : Type}

/-- The counts of a writer agree with its history. -/
theorem counted_of_reaches {s : WriterSettings} {store : Store σ} {state : σ} {w : Writer σ}
    (h : Reaches (ofSettings s store state) w) : w.books.Counted :=
  law_of_reaches ⟨rfl, rfl, rfl, rfl, rfl⟩ (fun he hq hb => hb.entry he hq) h

/-- **The records accepted add up**: to those committed, dropped and lost, those that wait, and
those in the flush under way. -/
theorem accepted_eq_add {s : WriterSettings} {store : Store σ} {state : σ} {w : Writer σ}
    (h : Reaches (ofSettings s store state) w) :
    w.stats.accepted =
      w.stats.recordsCommitted + w.stats.droppedAfterRetries +
        (batchesWith w.settled .lost).flatten.length + w.backlog + w.flushing.length := by
  have hcounted := counted_of_reaches h
  have haccepted : w.stats.accepted = w.accepted.length := hcounted.accepted_eq
  have hcommitted : w.stats.recordsCommitted = (batchesWith w.settled .committed).flatten.length :=
    hcounted.recordsCommitted_eq
  have hdropped : w.stats.droppedAfterRetries = (batchesWith w.settled .dropped).flatten.length :=
    hcounted.droppedAfterRetries_eq
  have hwaiting : (w.batch ++ w.queue).length = w.backlog := by
    rw [backlog, (Sound.of_reaches h).inFlight_eq, List.length_append, Nat.add_comm]
  have hflying : (w.books.flying.toList.flatMap (·.2)).length = w.flushing.length := by
    unfold books flushing
    cases w.flight <;> simp [Flight.handover]
  calc w.stats.accepted
      = (w.settled.map Settlement.batch).flatten.length + w.flushing.length + w.backlog := by
        rw [haccepted, ← hwaiting, ← hflying]
        exact Books.length_accepted (sequential_of_reaches h) (conserves_of_reaches h)
    _ = _ := by
        rw [length_flatten_map_batch, ← hcommitted, ← hdropped]
        omega

/-! ## Runs without a crash -/

/-- **The counts of a writer add up**, with those of a run that has taken in `records`. -/
structure AddsUp (w : Writer σ) (records : List Record) : Prop where
  accepted_eq_length : w.stats.accepted = records.length
  accepted_eq :
    w.stats.accepted =
      w.stats.recordsCommitted + w.stats.droppedAfterRetries + w.backlog + w.flushing.length
  recordsCommitted_eq :
    w.stats.recordsCommitted = (batchesWith w.settled .committed).flatten.length
  batchesCommitted_eq : w.stats.batchesCommitted = (batchesWith w.settled .committed).length
  droppedAfterRetries_eq :
    w.stats.droppedAfterRetries = (batchesWith w.settled .dropped).flatten.length
  flushFailures_eq : w.stats.flushFailures = (batchesWith w.settled .dropped).length

/-- **Every record accepted is committed or counted as dropped**, and none waits. -/
structure Accounted (w : Writer σ) : Prop where
  backlog_eq_zero : w.backlog = 0
  accepted_eq : w.stats.accepted = w.stats.recordsCommitted + w.stats.droppedAfterRetries

/-- Without a crash no batch is lost. -/
theorem batchesWith_lost {s : WriterSettings} {store : Store σ} {state : σ} {w : Writer σ}
    (h : Reaches (ofSettings s store state) w) (hcrash : w.hasCrashed = false) :
    batchesWith w.settled .lost = [] := by
  have hany : w.settled.any (·.fate = .lost) = false :=
    (witnessed_of_reaches h).symm.trans hcrash
  have hfilter : w.settled.filter (·.fate = .lost) = [] := by
    rw [List.filter_eq_nil_iff]
    exact List.any_eq_false.mp hany
  rw [batchesWith, hfilter]
  rfl

/-- Without a crash the counts add up at every moment. -/
theorem addsUp_of_reaches {s : WriterSettings} {store : Store σ} {state : σ} {w : Writer σ}
    (h : Reaches (ofSettings s store state) w) (hcrash : w.hasCrashed = false) :
    w.AddsUp w.accepted := by
  have hcounted := counted_of_reaches h
  refine ⟨hcounted.1, ?_, hcounted.2, hcounted.3, hcounted.4, hcounted.5⟩
  rw [accepted_eq_add h, batchesWith_lost h hcrash]
  rfl

/-- Without a crash a writer at rest has accounted for every record. -/
theorem accounted_of_stopped {s : WriterSettings} {store : Store σ} {state : σ} {w : Writer σ}
    (h : Reaches (ofSettings s store state) w) (hcrash : w.hasCrashed = false)
    (hs : w.consumer = .stopped) : w.Accounted := by
  have hflight : w.flight = none :=
    Option.map_eq_none_iff.mp (rests_of_reaches h (by rw [books, hs]; rfl)).1
  have hspent := spent_of_stopped h hs hcrash
  have hbacklog : w.backlog = 0 := by
    rw [backlog, (Sound.of_reaches h).inFlight_eq, hspent.queue_eq_nil, hspent.batch_eq_nil]
    rfl
  have hadds := (addsUp_of_reaches h hcrash).accepted_eq
  rw [hbacklog, flushing, hflight] at hadds
  exact ⟨hbacklog, hadds⟩

/-- **The counts of a writer are conserved.** At every moment of a run in which no call of the
store has brought anyone down, the records accepted are those committed, those dropped, those
that wait and those in the flush under way, and each count is that of the flushes that ended so.
Once the writer has come to rest, none waits; and a stop brings it there. -/
theorem addsUp_after (s : WriterSettings) (store : Store σ) (state : σ) (deeds : List (Deed σ)) :
    let records := (ofSettings s store state).admitted deeds
    let w := (ofSettings s store state).after deeds
    w.hasCrashed = false →
      w.AddsUp records ∧ (w.consumer = .stopped → w.Accounted) ∧
        ∀ now, w.closed = false → (w.stop now).2.hasCrashed = false →
          (w.stop now).2.consumer = .stopped ∧ (w.stop now).2.Accounted := by
  intro records w hcrash
  have hreaches : Reaches (ofSettings s store state) w := reaches_after deeds _
  have haccepted : w.accepted = records := accepted_after (sound_ofSettings s store state) deeds
  refine ⟨haccepted ▸ addsUp_of_reaches hreaches hcrash,
    fun hs => accounted_of_stopped hreaches hcrash hs, fun now hc hstop => ?_⟩
  have hrest := (stop_atRest (Sound.of_reaches hreaches) hc now).1
  exact ⟨hrest, accounted_of_stopped (hreaches.trans (reaches_stop now w)) hstop hrest⟩

/-- Half way there is one record with the consumer and one in the queue; in the end both have
been committed. -/
theorem addsUp_halfway :
    ((ofSettings {} Store.prompt ()).after halfway).AddsUp [.smooth "a", .smooth "b"] ∧
      ((ofSettings {} Store.prompt ()).after (halfway ++ windingUp)).Accounted ∧
      (((ofSettings {} Store.prompt ()).after halfway).stop 0).2.Accounted := by
  have hhalf := addsUp_after {} Store.prompt () halfway (by decide +kernel)
  have hwhole := addsUp_after {} Store.prompt () (halfway ++ windingUp) (by decide +kernel)
  exact ⟨hhalf.1, hwhole.2.1 (by decide +kernel),
    (hhalf.2.2 0 (by decide +kernel) (by decide +kernel)).2⟩

/-! ## Runs in which the consumer dies -/

/-- **A stop has run to its end**: the writer is at rest, and no flush of what was left over
brought the stop itself down. -/
structure Returned (w : Writer σ) : Prop where
  stopped : w.consumer = .stopped
  drained : ∀ s ∈ w.settled, s.trigger = .drain → s.fate ≠ .lost

/-- **The batch of a flush is in no count**: it died with the consumer, nothing was reported to be
lost with it, and the records accepted exceed those committed and dropped by its size. -/
structure Bereft (w : Writer σ) (l : Settlement) : Prop where
  lost_eq : w.settled.filter (·.fate = .lost) = [l]
  trigger_ne_drain : l.trigger ≠ .drain
  batch_ne_nil : l.batch ≠ []
  reportedLosses_eq : w.reportedLosses = [0]
  backlog_eq_zero : w.backlog = 0
  accepted_eq :
    w.stats.accepted =
      w.stats.recordsCommitted + w.stats.droppedAfterRetries + l.batch.length

/-- Where a stop has run to its end, what was lost died with the consumer. -/
theorem Returned.filter_lost {w : Writer σ} (hr : w.Returned) :
    w.settled.filter (·.fate = .lost) = w.books.deaths := by
  refine List.filter_congr fun s hs => ?_
  have hdrained := hr.drained s hs
  rw [decide_eq_decide]
  exact ⟨fun hlost => ⟨hlost, fun hdrain => hdrained hdrain hlost⟩, And.left⟩

/-- A stop that has run to its end leaves nothing waiting. -/
theorem Returned.idle {s : WriterSettings} {store : Store σ} {state : σ} {w : Writer σ}
    (hr : w.Returned) (h : Reaches (ofSettings s store state) w) :
    w.backlog = 0 ∧ w.flushing = [] := by
  have hrests := rests_of_reaches h (by rw [books, hr.stopped]; rfl)
  have hflight : w.flight = none := Option.map_eq_none_iff.mp hrests.1
  have hwaiting : w.batch ++ w.queue = [] := by
    refine hrests.2.resolve_right ?_
    rintro ⟨l, hl, hdrain, hlost⟩
    exact hr.drained l hl hdrain hlost
  refine ⟨?_, by rw [flushing, hflight]; rfl⟩
  rw [backlog, (Sound.of_reaches h).inFlight_eq, Nat.add_comm, ← List.length_append, hwaiting]
  rfl

/-- Where a stop has run to its end after a crash, one batch is in no count. -/
theorem Returned.bereft {s : WriterSettings} {store : Store σ} {state : σ} {w : Writer σ}
    (hr : w.Returned) (h : Reaches (ofSettings s store state) w) (hcrash : w.hasCrashed = true) :
    ∃ l, w.Bereft l := by
  have hmourns : w.books.Mourns :=
    law_of_reaches (P := Books.Mourns) ⟨rfl, rfl⟩ (fun he hq hb => hb.entry he hq) h
  have hladen : w.books.Laden :=
    law_of_reaches (P := Books.Laden) nofun (fun he _ hb => hb.entry he) h
  have hpresence : w.books.presence = .atRest := by rw [books, hr.stopped]; rfl
  simp only [Books.Mourns, hpresence] at hmourns
  have hany : w.settled.any (·.fate = .lost) = true := (witnessed_of_reaches h).symm.trans hcrash
  obtain ⟨l, hl⟩ : ∃ l, w.books.deaths = [l] := by
    obtain ⟨s, hs, hlost⟩ := List.any_eq_true.mp hany
    have hmem : s ∈ w.books.deaths := by
      rw [← hr.filter_lost]
      exact List.mem_filter.mpr ⟨hs, hlost⟩
    exact List.length_eq_one_iff.mp
      (Nat.le_antisymm hmourns.1 (List.length_pos_iff.mpr (List.ne_nil_of_mem hmem)))
  have hfilter := hr.filter_lost.trans hl
  have hmem : l ∈ w.books.deaths := by
    rw [hl]
    exact List.mem_singleton_self l
  obtain ⟨hsettled, hdied⟩ := List.mem_filter.mp hmem
  have hhanded : l.handover ∈ w.books.handovers := by
    rw [sequential_of_reaches h]
    exact List.mem_append_left _ (List.mem_map_of_mem hsettled)
  obtain ⟨hbacklog, hflushing⟩ := hr.idle h
  refine ⟨l, hfilter, (of_decide_eq_true hdied).2, hladen _ hhanded, ?_, hbacklog, ?_⟩
  · have hlosses : w.reportedLosses = _ := hmourns.2
    rw [hlosses, hl]
    rfl
  · have hadd := accepted_eq_add h
    rw [hbacklog, hflushing, batchesWith, hfilter] at hadd
    simpa using hadd

/-- A writer of which a batch is in no count does not account for every record. -/
theorem Bereft.not_accounted {w : Writer σ} {l : Settlement} (hl : w.Bereft l) :
    ¬ w.Accounted := by
  intro h
  have hpos := List.length_pos_iff.mpr hl.batch_ne_nil
  have hshort := hl.accepted_eq
  rw [h.accepted_eq] at hshort
  omega

/-- When a stop has run to its end, every record is accounted for exactly without a crash. -/
theorem Returned.accounted_iff {s : WriterSettings} {store : Store σ} {state : σ} {w : Writer σ}
    (hr : w.Returned) (h : Reaches (ofSettings s store state) w) :
    w.Accounted ↔ w.hasCrashed = false := by
  refine ⟨fun haccounted => ?_, fun hcrash => accounted_of_stopped h hcrash hr.stopped⟩
  by_contra hcrash
  obtain ⟨l, hl⟩ := hr.bereft h (by simpa using hcrash)
  exact hl.not_accounted haccounted

/-- **Exactly without a crash do the counts account for every record.** When a stop has run to its
end, the records accepted are those committed and dropped if no call of the store has brought
anyone down. If one has, a batch died with the consumer, and its records are in no count. A stop
runs to its end unless it is itself brought down. -/
theorem accounted_iff_after (s : WriterSettings) (store : Store σ) (state : σ)
    (deeds : List (Deed σ)) :
    let w := (ofSettings s store state).after deeds
    (w.Returned →
        (w.Accounted ↔ w.hasCrashed = false) ∧ (w.hasCrashed = true → ∃ l, w.Bereft l)) ∧
      ∀ now, w.closed = false →
        (∀ l ∈ (w.stop now).2.settled, l.trigger = .drain → l.fate ≠ .lost) →
        (w.stop now).2.Returned ∧
          ((w.stop now).2.Accounted ↔ (w.stop now).2.hasCrashed = false) ∧
          ((w.stop now).2.hasCrashed = true → ∃ l, (w.stop now).2.Bereft l) := by
  intro w
  have hreaches : Reaches (ofSettings s store state) w := reaches_after deeds _
  refine ⟨fun hr => ⟨hr.accounted_iff hreaches, hr.bereft hreaches⟩, fun now hc hdrained => ?_⟩
  have hend := hreaches.trans (reaches_stop now w)
  have hr : (w.stop now).2.Returned :=
    ⟨(stop_atRest (Sound.of_reaches hreaches) hc now).1, hdrained⟩
  exact ⟨hr, hr.accounted_iff hend, hr.bereft hend⟩

/-- A batch of one record that is handed over at once. -/
def single : List (Deed Bool) :=
  [.move .start, .move (.turn 0), .write (some (.smooth "a")), .move (.turn 0), .move (.turn 0)]

/-- A store that brings down whoever asks it first leaves one record in no count. -/
theorem bereft_after_single :
    ∃ l, (((ofSettings { batchSize := 1 } Store.treacherous false).after single).stop 0).2.Bereft
      l := by
  have hrun := accounted_iff_after { batchSize := 1 } Store.treacherous false single
  exact (hrun.2 0 (by decide +kernel) (by decide +kernel)).2.2 (by decide +kernel)

/-- There one record was accepted, none is committed or counted as dropped, and none is reported
to be lost. -/
theorem not_accounted_after_single :
    let w := (((ofSettings { batchSize := 1 } Store.treacherous false).after single).stop 0).2
    w.consumer = .stopped ∧ w.stats.accepted = 1 ∧
      w.stats.accepted ≠ w.stats.recordsCommitted + w.stats.droppedAfterRetries ∧
      w.reportedLosses ≠ [w.stats.accepted] := by
  decide +kernel

end Writer

end LinkQuality
