import LinkQuality.Proofs.Writer.Step

/-!
# The inner order of a writer

Which states a writer can be in at all: what the consumer reports is what it holds, only a
consumer that gathers holds anything, and while a flush is under way it holds nothing – what it
had gathered is with the flush. A flush that was set off by the consumer finds it gathering, and
one of what was left over finds it gone.

All of this is `Sound`, and every writer that settings ask for stays sound in every run
(`Sound.of_reaches`).
-/

namespace LinkQuality

/-- **What holds of a flush under way by itself.** -/
structure Flight.Sound (backoff : Backoff) (f : Flight) : Prop where
  batch_ne_nil : f.batch ≠ []
  attempt_pos : 0 < f.attempt
  /-- The record that is with the store and those after it are the end of the batch. -/
  suffix_of_insert : ∀ record rest ready,
    f.phase = .asking (.insert record rest) ready → record :: rest <:+ f.batch
  /-- There is no rest without another attempt. -/
  retries_of_resting : ∀ wake, f.phase = .resting wake → backoff.retries f.attempt = true

namespace Writer

variable {σ : Type}

/-- The records in a flush under way. -/
def flushing (w : Writer σ) : List Record := (w.flight.map Flight.batch).getD []

/-- Where the consumer is while a flush is under way. -/
def Places (w : Writer σ) : Trigger → Prop
  | .size | .timer => ∃ due, w.consumer = .gathering due
  | .shutdown => w.closed = true ∧ ∃ due, w.consumer = .gathering due
  | .drain => w.closed = true ∧ (w.consumer = .idle ∨ w.consumer = .ended)

/-- **The inner order of a writer.** -/
structure Sound (w : Writer σ) : Prop where
  inFlight_eq : w.inFlight = w.batch.length
  batch_lt : w.batch.length < w.limits.batchSize
  gathering_or_batch : (∃ due, w.consumer = .gathering due) ∨ w.batch = []
  closed_of_gone : w.consumer = .ended ∨ w.consumer = .stopped → w.closed = true
  batch_of_flight : w.flight.isSome = true → w.batch = []
  flight_sound : ∀ f, w.flight = some f → f.Sound w.limits.backoff
  flight_places : ∀ f, w.flight = some f → w.Places f.trigger

/-- A writer at rest is sound. -/
theorem sound_ofSettings (s : WriterSettings) (store : Store σ) (state : σ) :
    Sound (ofSettings s store state) where
  inFlight_eq := rfl
  batch_lt := (Limits.ofSettings s).batchSize_pos
  gathering_or_batch := .inr rfl
  closed_of_gone h := h.elim nofun nofun
  batch_of_flight := nofun
  flight_sound _ h := absurd h nofun
  flight_places _ h := absurd h nofun

/-! ## Parts of a step -/

/-- What the store has answered disturbs nothing. -/
theorem Sound.hear {now : Nat} {request : Request} {reply : Reply} {state : σ} {w : Writer σ}
    (hw : Sound w) : Sound (w.hear now request reply state) := { hw with }

/-- Asking the store for the next thing in a flush keeps the order. -/
theorem Sound.ask {now : Nat} {w : Writer σ} {f : Flight} {pending : Pending} (hw : Sound w)
    (hf : w.flight = some f)
    (hp : ∀ record rest, pending = .insert record rest → record :: rest <:+ f.batch) :
    Sound (w.ask now f pending) :=
  { hw with
    batch_of_flight := fun _ => hw.batch_of_flight (by rw [hf]; rfl)
    flight_sound := by
      rintro _ ⟨rfl⟩
      exact
        { hw.flight_sound f hf with
          suffix_of_insert := by
            rintro record rest _ ⟨⟩
            exact hp record rest rfl
          retries_of_resting := fun _ h => absurd h nofun }
    flight_places := by
      rintro _ ⟨rfl⟩
      exact hw.flight_places f hf }

/-- After what went well comes an insertion of the next record, if there is one. -/
theorem next_eq_insert {records : List Record} {record : Record} {rest : List Record}
    (h : Pending.next records = .insert record rest) : records = record :: rest := by
  cases records with
  | nil => exact absurd h nofun
  | cons r rs =>
    obtain ⟨rfl, rfl⟩ := Pending.insert.inj h
    rfl

/-- Handing a batch over keeps the order, if nothing is held back and the consumer is in its
place. -/
theorem Sound.handOver {now : Nat} {trigger : Trigger} {batch : List Record} {w : Writer σ}
    (hw : Sound w) (hn : w.batch = []) (hb : batch ≠ []) (hp : w.Places trigger) :
    Sound (w.handOver now trigger batch) :=
  { hw with
    batch_of_flight := fun _ => hn
    flight_sound := by
      rintro _ ⟨rfl⟩
      exact ⟨hb, Nat.one_pos, fun _ _ _ h => absurd h nofun, fun _ h => absurd h nofun⟩
    flight_places := by
      rintro _ ⟨rfl⟩
      exact hp }

/-- A writer that has just been left by a flush goes on in order. -/
theorem Sound.resume {now : Nat} {trigger : Trigger} {w : Writer σ} (hw : Sound w)
    (hf : w.flight = none) (hn : w.batch = []) (hp : w.Places trigger) :
    Sound (w.resume now trigger) := by
  cases trigger with
  | size =>
    exact
      { hw with
        gathering_or_batch := .inr hn
        closed_of_gone := fun h => h.elim nofun nofun
        flight_places := fun f hf' => absurd (hf.symm.trans hf') nofun }
  | timer => exact { hw with }
  | shutdown =>
    exact
      { hw with
        gathering_or_batch := .inr hn
        closed_of_gone := fun _ => hp.1
        flight_places := fun f hf' => absurd (hf.symm.trans hf') nofun }
  | drain => exact hw

/-- The end of a flush leaves the writer in order, whatever is counted then. -/
theorem Sound.land {now : Nat} {w : Writer σ} {f : Flight} (hw : Sound w) (hf : w.flight = some f)
    (stats : WriterStats) (metrics : WriterMetrics Nat) (history : List WriterEvent) (state : σ) :
    Sound (Writer.resume now f.trigger
      { w with flight := none, stats, metrics, history, state }) :=
  Sound.resume (w := { w with flight := none, stats, metrics, history, state })
    { hw with
      batch_of_flight := nofun
      flight_sound := fun _ h => absurd h nofun
      flight_places := fun _ h => absurd h nofun }
    rfl (hw.batch_of_flight (by rw [hf]; rfl)) (hw.flight_places f hf)

/-- The writer of which the batch has been taken is in order. -/
theorem Sound.takeBatch {w : Writer σ} (hw : Sound w) : Sound w.takeBatch :=
  { hw with
    inFlight_eq := rfl
    batch_lt := w.limits.batchSize_pos
    gathering_or_batch := .inr rfl
    batch_of_flight := fun _ => rfl }

/-- While there is no flush under way the consumer may go elsewhere, if it takes no batch with it
and ends only once the writer is closed. -/
theorem Sound.relocate {w : Writer σ} (hw : Sound w) (consumer : Consumer) (hf : w.flight = none)
    (hb : (∃ due, consumer = .gathering due) ∨ w.batch = [])
    (hc : consumer = .ended ∨ consumer = .stopped → w.closed = true) :
    Sound { w with consumer } :=
  { hw with
    gathering_or_batch := hb
    closed_of_gone := hc
    flight_places := fun _ hf' => absurd (hf.symm.trans hf') nofun }

/-- It may gather, whatever it holds. -/
theorem Sound.gathering {w : Writer σ} (hw : Sound w) (due : Nat) (hf : w.flight = none) :
    Sound { w with consumer := .gathering due } :=
  hw.relocate (.gathering due) hf (.inl ⟨due, rfl⟩) fun h => h.elim nofun nofun

/-- What is left over is flushed in batches that are never empty. -/
theorem take_queue_ne_nil {w : Writer σ} (hq : w.queue ≠ []) :
    w.queue.take w.limits.batchSize ≠ [] := by
  rw [Ne, List.take_eq_nil_iff, not_or]
  exact ⟨Nat.ne_of_gt w.limits.batchSize_pos, hq⟩

/-! ## Every step -/

/-- **Each step keeps the order.** -/
theorem Sound.step {w w' : Writer σ} {actor : Actor} (h : Step w actor w')
    (hw : Sound w) : Sound w' := by
  cases h with
  | accept | overflow | refuse | announce | drift => exact { hw with }
  | spawn hc hi =>
    refine
      { hw with
        gathering_or_batch := .inr ?_
        closed_of_gone := fun h => h.elim nofun nofun
        flight_places := fun f hf => ?_ }
    · exact hw.gathering_or_batch.resolve_left (by simp [hi])
    · have hp := hw.flight_places f hf
      unfold Places at hp
      cases ht : f.trigger <;> simp [ht, hi, hc] at hp
  | close =>
    refine { hw with closed_of_gone := fun _ => rfl, flight_places := fun f hf => ?_ }
    have hp := hw.flight_places f hf
    unfold Places at hp ⊢
    cases ht : f.trigger <;> simp only [ht] at hp ⊢
    · exact hp
    · exact hp
    · exact ⟨rfl, hp.2⟩
    · exact ⟨rfl, hp.2⟩
  | wake now hf hs => exact hw.gathering _ hf
  | gather hf hg hc hq hb =>
    exact
      { hw with
        inFlight_eq := by simp [showBacklog]
        batch_lt := by simpa [showBacklog] using hb
        gathering_or_batch := .inl ⟨_, hg⟩
        batch_of_flight := fun h => by simp [showBacklog, hf] at h }
  | fill now hf hg hc hq hb =>
    exact Sound.handOver (w := { w.takeBatch with queue := _ }) { hw.takeBatch with } rfl
      (by simp) ⟨_, hg⟩
  | pass now hf hg hc hq hd hb =>
    exact { hw.gathering _ hf with }
  | tick now hf hg hc hq hd hb => exact (hw.takeBatch.gathering _ hf).handOver rfl hb ⟨_, rfl⟩
  | finish hf hg hc hb => exact hw.takeBatch.relocate .ended hf (.inr rfl) fun _ => hc
  | shut now hf hg hc hb => exact hw.takeBatch.handOver rfl hb ⟨hc, _, hg⟩
  | mourn hf hc hl => exact { hw.takeBatch.relocate .ended hf (.inr rfl) fun _ => hc with }
  | drain now hf hc hl hq =>
    exact Sound.handOver (w := { w.takeBatch with queue := _ }) { hw.takeBatch with } rfl
      (take_queue_ne_nil hq) ⟨hc, hl⟩
  | settle hf hc hl hq =>
    exact { hw.takeBatch.relocate .stopped hf (.inr rfl) fun _ => hc with }
  | begun now hf hp hs =>
    refine hw.hear.ask hf fun record rest hr => ?_
    exact ⟨[], (next_eq_insert hr).symm⟩
  | inserted now hf hp hs =>
    refine hw.hear.ask hf fun record rest hr => ?_
    have hsuf := (hw.flight_sound _ hf).suffix_of_insert _ _ _ hp
    rw [next_eq_insert hr] at hsuf
    exact (List.suffix_cons _ _).trans hsuf
  | rollBack now hf hp hs => exact hw.hear.ask hf fun _ _ h => absurd h nofun
  | commit now hf hp hs => exact hw.land hf _ _ _ _
  | @rest now f why heard s hf hw' hr =>
    refine
      { hw with
        batch_of_flight := fun _ => hw.batch_of_flight (by rw [hf]; rfl)
        flight_sound := fun g hg => ?_
        flight_places := fun g hg => ?_ }
    · obtain rfl := Option.some.inj hg
      exact
        { hw.flight_sound f hf with
          suffix_of_insert := fun _ _ _ h => absurd h nofun
          retries_of_resting := fun _ _ => hr }
    · obtain rfl := Option.some.inj hg
      exact hw.flight_places f hf
  | giveUp now hf hw' hr => exact hw.land hf _ _ _ _
  | @retry now f wake hf hp =>
    refine
      { hw with
        batch_of_flight := fun _ => hw.batch_of_flight (by rw [hf]; rfl)
        flight_sound := fun g hg => ?_
        flight_places := fun g hg => ?_ }
    · obtain rfl := Option.some.inj hg
      exact ⟨(hw.flight_sound f hf).batch_ne_nil, Nat.succ_pos _,
        fun _ _ _ h => absurd h nofun, fun _ h => absurd h nofun⟩
    · obtain rfl := Option.some.inj hg
      exact hw.flight_places f hf
  | @crash now f pending ready s hf hp hs =>
    have hn : w.batch = [] := hw.batch_of_flight (by rw [hf]; rfl)
    have hpl := hw.flight_places f hf
    refine
      { hw with
        gathering_or_batch := .inr hn
        closed_of_gone := fun h => ?_
        batch_of_flight := fun _ => hn
        flight_sound := fun _ h => absurd h nofun
        flight_places := fun _ h => absurd h nofun }
    cases ht : f.trigger with
    | drain => exact (ht ▸ hpl : w.Places .drain).1
    | size | timer | shutdown => simp [Writer.crash, ht] at h

/-- **Every writer that settings ask for is sound in every run.** -/
theorem Sound.of_reaches {s : WriterSettings} {store : Store σ} {state : σ} {w : Writer σ}
    (h : Reaches (ofSettings s store state) w) : Sound w :=
  h.keeps Sound.step (sound_ofSettings s store state)

/-- Whatever is done with a writer keeps the order. -/
theorem Sound.perform {w : Writer σ} (hw : Sound w) (d : Deed σ) : Sound (w.perform d) :=
  (reaches_perform d w).keeps Sound.step hw

/-- So does every run. -/
theorem Sound.after {w : Writer σ} (hw : Sound w) (deeds : List (Deed σ)) : Sound (w.after deeds) :=
  (reaches_after deeds w).keeps Sound.step hw

end Writer

end LinkQuality
