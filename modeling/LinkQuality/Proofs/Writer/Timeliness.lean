import LinkQuality.Proofs.Writer.Clock
import LinkQuality.Proofs.Writer.Conservation
import LinkQuality.Store.Scripted

/-!
# No part of a batch waits longer than the interval

The timer of the consumer is set in four places: when the consumer begins, when the timer is handled
on time, when it is handled late, and after a full batch. Each of them sets it to a time within the
interval from the moment it is set (`Dated.gathering_or_due_le`), and the clock only moves forward.
So the timer is never due later than an interval from now (`InReach.step`), however late flushes
have made it.

While the consumer holds a part of a batch it does not touch the timer, and a record that waits in
the queue, though it comes before the timer, only makes the batch larger. So what it holds goes out
when the timer is due at the latest (`Held.step`), as nothing but a turn of the consumer takes it
away, and if nobody interferes it does go out (`Held.exists_goOn`). Timers fire on whole
milliseconds, and that is all that is added to the interval.
-/

namespace LinkQuality

namespace Span

/-- The whole milliseconds that cover a time within a span from now are within those that cover
the span. -/
theorem ceilMillis_le {due now : Nat} {span : Span}
    (h : due ≤ now * 1000000 + span.nanoseconds) :
    ceilMillis ⟨due⟩ ≤ now + span.ceilMillis := by
  simp only [ceilMillis]
  omega

/-- What is due in a span is due when the whole milliseconds that cover it are over. -/
theorem le_ceilMillis_mul (due : Nat) : due ≤ ceilMillis ⟨due⟩ * 1000000 := by
  simp only [ceilMillis]
  omega

end Span

namespace Clocked

variable {σ : Type} {x y z : Clocked σ}

/-! ## The timer -/

/-- **The timer of the consumer is due within the interval from now.** -/
structure InReach (x : Clocked σ) : Prop where
  sound : x.writer.Sound
  due_le : ∀ due, x.writer.consumer = .gathering due →
    due ≤ x.now * 1000000 + x.writer.limits.interval.nanoseconds

/-- At first there is no timer. -/
theorem inReach_ofSettings (s : WriterSettings) (store : Store σ) (state : σ) :
    (ofSettings s store state).InReach :=
  ⟨Writer.sound_ofSettings s store state, nofun⟩

/-- **Each step keeps the timer within the interval.** -/
theorem InReach.step (h : Step x y) (hx : x.InReach) : y.InReach := by
  cases h with
  | idle => exact hx
  | produce h => exact ⟨hx.sound.step h, by cases h <;> exact hx.due_le⟩
  | own h =>
    refine ⟨hx.sound.step h, ?_⟩
    cases h with
    | spawn => nofun
    | announce | close | drift => exact hx.due_le
  | turn h =>
    have hdated := Writer.Dated.turn? h
    refine ⟨hx.sound.step (Writer.step_turn? h), fun due hdue => ?_⟩
    simp only [hdated.limits_eq]
    rcases hdated.gathering_or_due_le due hdue with hdue | hdue
    · exact hx.due_le due hdue
    · exact hdue
  | lapse hle =>
    refine ⟨hx.sound, fun due hdue => (hx.due_le due hdue).trans ?_⟩
    exact Nat.add_le_add_right (Nat.mul_le_mul_right _ hle) _

/-! ## What is held -/

/-- **A batch has been handed over**, with whatever has been added to it. -/
def HandedOver (x y : Clocked σ) : Prop :=
  ∃ trigger batch, x.writer.batch <+: batch ∧
    y.writer.handovers = x.writer.handovers ++ [(trigger, batch)]

/-- **A batch is still held**, with whatever has been added to it, at a time up to `limit`. -/
structure Held (x : Clocked σ) (limit : Nat) (y : Clocked σ) : Prop where
  batch_ne_nil : x.writer.batch ≠ []
  batch_isPrefix : x.writer.batch <+: y.writer.batch
  handovers_eq : y.writer.handovers = x.writer.handovers
  now_le : y.now ≤ limit
  sound : y.writer.Sound
  /-- The timer is due by then. -/
  due_le : ∀ due, y.writer.consumer = .gathering due → Span.ceilMillis ⟨due⟩ ≤ limit

variable {limit : Nat}

/-- What is held is not nothing. -/
theorem Held.ne_nil (h : Held x limit y) : y.writer.batch ≠ [] :=
  h.batch_isPrefix.ne_nil h.batch_ne_nil

/-- Who holds something gathers. -/
theorem Held.gathering (h : Held x limit y) : ∃ due, y.writer.consumer = .gathering due :=
  h.sound.gathering_or_batch.resolve_right h.ne_nil

/-- Who holds something does so between two flushes. -/
theorem Held.flight_eq_none (h : Held x limit y) : y.writer.flight = none := by
  cases hf : y.writer.flight with
  | none => rfl
  | some f => exact absurd (h.sound.batch_of_flight (by rw [hf]; rfl)) h.ne_nil

/-- **A turn adds to what is held, or hands it over.** -/
theorem Held.turn {w : Writer σ} (h : Held x limit y) (hturn : y.writer.turn? y.now = some w) :
    (Held x limit ⟨y.now, w⟩ ∧ w.batch.length = y.writer.batch.length + 1) ∨
      HandedOver x ⟨y.now, w⟩ := by
  have hstep := Writer.step_turn? hturn
  have hsound := h.sound.step hstep
  have hflight := h.flight_eq_none
  have hne := h.ne_nil
  obtain ⟨due, hg⟩ := h.gathering
  -- the batch that goes out is what was held, and more
  have hhanded : ∀ now trigger more v, v.history = y.writer.history →
      HandedOver x ⟨y.now, Writer.handOver now trigger (y.writer.batch ++ more) v⟩ := by
    intro now trigger more v hv
    refine ⟨trigger, y.writer.batch ++ more, h.batch_isPrefix.trans (List.prefix_append ..), ?_⟩
    rw [← h.handovers_eq]
    simp [Writer.handovers, Writer.handOver, Writer.beginAttempt, Writer.ask, Writer.note, hv]
  have hwhole : ∀ now trigger v, v.history = y.writer.history →
      HandedOver x ⟨y.now, Writer.handOver now trigger y.writer.batch v⟩ := by
    intro now trigger v hv
    have hall := hhanded now trigger [] v hv
    rwa [List.append_nil] at hall
  cases hstep with
  | @gather _ record queue hf hg' hc hq hb =>
    refine .inl ⟨⟨h.batch_ne_nil, ?_, h.handovers_eq, h.now_le, hsound, h.due_le⟩, ?_⟩
    · exact h.batch_isPrefix.trans (List.prefix_append ..)
    · exact List.length_append
  | fill now hf hg' hc hq hb => exact .inr (hhanded now .size [_] _ rfl)
  | tick | shut => exact .inr (hwhole _ _ _ rfl)
  | pass _ _ _ _ _ _ hb | finish _ _ _ hb => exact absurd hb hne
  | wake _ _ hs | mourn _ _ hs => cases hg.symm.trans hs
  | drain _ _ _ hl | settle _ _ hl => rcases hl with hl | hl <;> cases hg.symm.trans hl
  | begun _ hf | inserted _ hf | rollBack _ hf | commit _ hf | rest _ hf | giveUp _ hf
  | retry _ hf | crash _ hf =>
    cases hflight.symm.trans hf

/-- The clock does not pass the timer. -/
theorem Held.lapse {now : Nat} (h : Held x limit y)
    (hwake : ∀ t, y.writer.wakeTime? = some t → now ≤ max y.now t) :
    Held x limit ⟨now, y.writer⟩ := by
  obtain ⟨due, hg⟩ := h.gathering
  have hnow := hwake (Span.ceilMillis ⟨due⟩) (by simp only [Writer.wakeTime?, h.flight_eq_none, hg])
  have hdue := h.due_le due hg
  have hle := h.now_le
  exact { h with now_le := by simp only; omega }

/-- **Whatever happens, what is held stays held or is handed over**, and the clock stands still
while it is handed over. -/
theorem Held.step (hs : Step y z) (h : Held x limit y) :
    Held x limit z ∨ HandedOver x z ∧ z.now ≤ limit := by
  cases hs with
  | idle => exact .inl h
  | produce hs =>
    have hsound := h.sound.step hs
    cases hs with
    | accept record => exact .inl { h with sound := hsound }
    | overflow record => exact .inl { h with sound := hsound }
    | refuse => exact .inl { h with sound := hsound }
  | own hs =>
    have hsound := h.sound.step hs
    cases hs with
    | spawn _ hi =>
      obtain ⟨due, hg⟩ := h.gathering
      exact absurd (hg.symm.trans hi) nofun
    | announce | close | drift => exact .inl { h with sound := hsound }
  | turn hturn => exact (h.turn hturn).imp (fun hheld => hheld.1) fun hhanded => ⟨hhanded, h.now_le⟩
  | lapse _ hwake => exact .inl (h.lapse hwake)

/-- **In every run what is held stays held or is handed over in time.** -/
theorem Held.after (happenings : List (Happening σ)) (h : Held x limit y) :
    Held x limit (y.after happenings) ∨ ∃ before later, happenings = before ++ later ∧
      HandedOver x (y.after before) ∧ (y.after before).now ≤ limit :=
  after_or_exists (Q := fun z => HandedOver x z ∧ z.now ≤ limit) Held.step happenings h

/-! ## Going on -/

/-- A consumer that waits while it holds something has a turn when its timer is due. -/
theorem Held.exists_wakeTime? (h : Held x limit y) (hnone : y.writer.turn? y.now = none) :
    ∃ t, y.writer.wakeTime? = some t ∧ y.now < t ∧ (y.writer.turn? t).isSome ∧
      Held x limit ⟨t, y.writer⟩ := by
  obtain ⟨due, hg⟩ := h.gathering
  have hflight := h.flight_eq_none
  have hwake : y.writer.wakeTime? = some (Span.ceilMillis ⟨due⟩) := by
    simp only [Writer.wakeTime?, hflight, hg]
  have hheld : Held x limit ⟨Span.ceilMillis ⟨due⟩, y.writer⟩ := by
    refine h.lapse fun t ht => ?_
    obtain rfl := Option.some.inj (hwake.symm.trans ht)
    exact Nat.le_max_right ..
  refine ⟨Span.ceilMillis ⟨due⟩, hwake, ?_, ?_, hheld⟩ <;>
    simp only [Writer.turn?, hflight, hg, Writer.gatherTurn?] at hnone ⊢
  · have hdue := Span.le_ceilMillis_mul due
    split at hnone
    · cases hnone
    · split at hnone
      · cases hnone
      · simp only [ite_eq_right_iff, reduceCtorEq, imp_false] at hnone
        omega
  · split
    · rfl
    · split
      · rfl
      · rw [if_pos (Span.le_ceilMillis_mul due)]
        rfl

/-- **Left to itself, the consumer hands over what it holds**, in time. -/
theorem Held.exists_goOn (h : Held x limit y) :
    ∃ n, HandedOver x (goOn^[n] y) ∧ (goOn^[n] y).now ≤ limit := by
  -- each turn that does not hand the batch over leaves less room in it
  refine Clocked.exists_goOn (P := Held x limit) (Q := fun z => HandedOver x z ∧ z.now ≤ limit)
    (fun w => w.limits.batchSize - w.batch.length) (fun z hz => hz.exists_wakeTime?)
    (fun z w hz hw => ?_) h
  rcases hz.turn hw with ⟨hheld, hlength⟩ | hhanded
  · have hlimits : w.limits = z.writer.limits := (Writer.Dated.turn? hw).limits_eq
    have hroom := hz.sound.batch_lt
    refine .inr ⟨hheld, ?_⟩
    rw [hlimits, hlength]
    omega
  · exact .inl ⟨hhanded, hz.now_le⟩

/-! ## Every run -/

/-- A part of a batch that is held now is held for an interval at most. -/
theorem InReach.held (hx : x.InReach) (hb : x.writer.batch ≠ []) :
    Held x (x.now + x.writer.limits.interval.ceilMillis) x where
  batch_ne_nil := hb
  batch_isPrefix := List.prefix_rfl
  handovers_eq := rfl
  now_le := Nat.le_add_right ..
  sound := hx.sound
  due_le due hdue := Span.ceilMillis_le (hx.due_le due hdue)

/-- **No part of a batch waits longer than the interval.** At every moment of every run on a clock

* the timer of a consumer that gathers is due within the interval from now;
* what the consumer holds, be it one record that it has just taken, is handed over within the
  interval from now, in whole milliseconds: until then it is held, whatever else happens, and if
  nothing but the writer and its clock goes on, it is handed over by then;
* what has been handed over has gone to an attempt that began at once. -/
theorem handedOver_in_time (s : WriterSettings) (store : Store σ) (state : σ)
    (happenings : List (Happening σ)) :
    let interval : Span := ⟨max s.flushInterval.nanoseconds 1000000⟩
    let x := (ofSettings s store state).after happenings
    let limit := x.now + interval.ceilMillis
    (∀ due, x.writer.consumer = .gathering due →
        due ≤ x.now * 1000000 + interval.nanoseconds) ∧
      (x.writer.batch ≠ [] →
        (∀ later, Held x limit (x.after later) ∨ ∃ before rest, later = before ++ rest ∧
          HandedOver x (x.after before) ∧ (x.after before).now ≤ limit) ∧
        ∃ n, HandedOver x (goOn^[n] x) ∧ (goOn^[n] x).now ≤ limit) ∧
      Writer.BegunAtOnce x.writer.history := by
  intro interval x limit
  have hreach : x.InReach :=
    keeps_after InReach.step happenings (inReach_ofSettings s store state)
  have hreaches := reaches_after happenings (ofSettings s store state)
  have hlimits : x.writer.limits = .ofSettings s := Writer.limits_of_reaches hreaches
  have hinterval : x.writer.limits.interval = interval := by rw [hlimits]; rfl
  refine ⟨fun due hdue => hinterval ▸ hreach.due_le due hdue, fun hb => ?_,
    Writer.begunAtOnce_of_reaches hreaches⟩
  have hheld : Held x limit x := by
    have hheld := hreach.held hb
    rwa [hinterval] at hheld
  exact ⟨fun later => hheld.after later, hheld.exists_goOn⟩

/-- A record has waited for its time, and its flush has taken so long that the timer comes late and
skips a multiple of the interval. Then a second record is taken. -/
def belated : List (Happening Script) :=
  [.start, .turn, .write (some (.smooth "a")), .turn, .lapse 10, .turn, .lapse 27] ++
    .replicate 4 .turn ++ [.write (some (.smooth "b")), .turn]

/-- The second record is handed over in time none the less. -/
theorem handedOver_after_late_tick :
    let x := (ofSettings { flushInterval := .ofMillis 10 } (Script.store "s")
      { scenes := [.slowBegin 27] }).after belated
    x.writer.batch.map Record.node = ["b"] ∧
      ∃ n, HandedOver x (goOn^[n] x) ∧ (goOn^[n] x).now ≤ x.now + 10 :=
  ⟨by decide +kernel, ((handedOver_in_time { flushInterval := .ofMillis 10 } (Script.store "s")
    { scenes := [.slowBegin 27] } belated).2.1 (by decide +kernel)).2⟩

/-- It is taken after 37 milliseconds and handed over after 40, when the timer is due again. -/
example :
    let x := (ofSettings { flushInterval := .ofMillis 10 } (Script.store "s")
      { scenes := [.slowBegin 27] }).after belated
    x.now = 37 ∧ x.writer.consumer = .gathering 40000000 ∧ (goOn^[2] x).now = 40 ∧
      (goOn^[2] x).writer.handovers.map (fun h => (h.1, h.2.length)) =
        [(.timer, 1), (.timer, 1)] := by
  decide +kernel

end Clocked

end LinkQuality
