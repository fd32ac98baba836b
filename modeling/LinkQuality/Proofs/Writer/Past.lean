import LinkQuality.Proofs.Writer.Step

/-!
# What a writer does is not a matter of its past

The history of a writer is there for whoever judges it. The writer itself never looks at it: it only
puts events in front of what is there. So a writer with more behind it does the same and ends up the
same, with as much more behind it.

There is one lemma for each thing a writer can do, down to the turns of its background work. All of
them say that `Writer.withPast` can be taken out; the last ones, `write_withPast` and
`move_withPast`, are what others need.
-/

namespace LinkQuality.Writer

variable {σ : Type}

/-- **A writer with more behind it**: the same, but for what had happened before. -/
def withPast (past : List WriterEvent) (w : Writer σ) : Writer σ :=
  { w with history := w.history ++ past }

variable (past : List WriterEvent) (w : Writer σ)

/-! ## Flushing -/

/-- After a commit it goes on as it would. -/
theorem succeed_withPast (now : Nat) (f : Flight) :
    (w.withPast past).succeed now f = (w.succeed now f).withPast past := by
  simp only [succeed]
  cases f.trigger <;> rfl

/-- So it does after giving a batch up. -/
theorem giveUp_withPast (now : Nat) (f : Flight) (why : Failure) :
    (w.withPast past).giveUp now f why = (w.giveUp now f why).withPast past := by
  simp only [giveUp]
  cases f.trigger <;> rfl

/-- It gives a batch up, or tries again, when it would. -/
theorem failAttempt_withPast (now : Nat) (f : Flight) (why : Failure) :
    (w.withPast past).failAttempt now f why = (w.failAttempt now f why).withPast past := by
  -- what the attempt leaves, before it is decided how to go on
  let failed : Writer σ := { w with
    metrics := w.metrics.countAttemptErrors w.store.name 1
    history := .attemptFailed now f.attempt why :: w.history }
  have hfailed := giveUp_withPast past failed now f why
  simp only [failAttempt, apply_ite (withPast past)]
  exact ite_congr rfl (fun _ => rfl) fun _ => hfailed

/-- A request that has gone well is followed by the same. -/
theorem proceed_withPast (now : Nat) (f : Flight) (pending : Pending) :
    (w.withPast past).proceed now f pending = (w.proceed now f pending).withPast past := by
  cases pending with
  | begin | insert => rfl
  | commit => exact succeed_withPast past w now f
  | rollback cause => exact failAttempt_withPast past w now f cause

/-- So is one that has been refused. -/
theorem refuse_withPast (now : Nat) (f : Flight) (pending : Pending) (why : Failure) :
    (w.withPast past).refuse now f pending why = (w.refuse now f pending why).withPast past := by
  cases pending with
  | insert => rfl
  | begin | commit => exact failAttempt_withPast past w now f _
  | rollback cause => exact failAttempt_withPast past (w.tell (.rollbackFailed why)) now f cause

/-- **The store gives the same answer**, for it has the same state. -/
theorem receive_withPast (now : Nat) (f : Flight) (pending : Pending) :
    (w.withPast past).receive now f pending = (w.receive now f pending).withPast past := by
  rcases hanswer : w.store.answer w.state (pending.request f.batch) with ⟨reply, state⟩
  have hpast : (w.withPast past).store.answer (w.withPast past).state (pending.request f.batch)
      = (reply, state) := hanswer
  let heard := w.hear now (pending.request f.batch) reply state
  simp only [receive, hanswer, hpast]
  cases reply with
  | done => exact proceed_withPast past heard now f pending
  | failed why => exact refuse_withPast past heard now f pending why
  | crashed => rfl

/-- A flush takes the same step. -/
theorem flightTurn?_withPast (now : Nat) (f : Flight) :
    (w.withPast past).flightTurn? now f = (w.flightTurn? now f).map (withPast past) := by
  simp only [flightTurn?]
  rcases f.phase with ⟨pending, ready⟩ | wake
  · simp only [apply_ite (Option.map (withPast past))]
    refine ite_congr rfl (fun _ => ?_) fun _ => ite_congr rfl (fun _ => ?_) fun _ => rfl
    · exact congrArg some (receive_withPast past w now f pending)
    · exact congrArg some (failAttempt_withPast past w now f _)
  · simp only [apply_ite (Option.map (withPast past))]
    rfl

/-! ## Gathering and draining -/

/-- A record that is gathered makes the same batch. -/
theorem gather_withPast (now : Nat) (record : Record) (queue : List Record) :
    (w.withPast past).gather now record queue = (w.gather now record queue).withPast past := by
  simp only [gather, apply_ite (withPast past)]
  rfl

/-- The timer has the same effect. -/
theorem tick_withPast (now due : Nat) :
    (w.withPast past).tick now due = (w.tick now due).withPast past := by
  simp only [tick, apply_ite (withPast past)]
  rfl

/-- A consumer that gathers takes the same step. -/
theorem gatherTurn?_withPast (now due : Nat) :
    (w.withPast past).gatherTurn? now due = (w.gatherTurn? now due).map (withPast past) := by
  simp only [gatherTurn?, apply_ite (Option.map (withPast past))]
  refine ite_congr rfl (fun _ => ?_) fun _ => ?_
  · simp only [Option.map_some, apply_ite (withPast past)]
    rfl
  · have hqueue : (w.withPast past).queue = w.queue := rfl
    rw [hqueue]
    rcases w.queue with _ | ⟨record, queue⟩
    · simp only [apply_ite (Option.map (withPast past))]
      exact ite_congr rfl (fun _ => congrArg some (tick_withPast past w now due)) fun _ => rfl
    · exact congrArg some (gather_withPast past w now record queue)

/-- A stop takes the same step. -/
theorem drainTurn_withPast (now : Nat) :
    (w.withPast past).drainTurn now = (w.drainTurn now).withPast past := by
  simp only [drainTurn, apply_ite (withPast past)]
  rfl

/-- **The background work takes the same step.** -/
theorem turn?_withPast (now : Nat) :
    (w.withPast past).turn? now = (w.turn? now).map (withPast past) := by
  have hflight : (w.withPast past).flight = w.flight := rfl
  have hconsumer : (w.withPast past).consumer = w.consumer := rfl
  simp only [turn?, hflight, hconsumer]
  rcases w.flight with _ | f
  · cases w.consumer with
    | spawned | stopped => rfl
    | gathering due => exact gatherTurn?_withPast past w now due
    | idle | ended =>
      simp only [apply_ite (Option.map (withPast past))]
      exact ite_congr rfl (fun _ => congrArg some (drainTurn_withPast past w now)) fun _ => rfl
    | crashed =>
      simp only [apply_ite (Option.map (withPast past))]
      rfl
  · exact flightTurn?_withPast past w now f

/-! ## What others do -/

/-- **A record is accepted or turned away as it would be**, with the same answer. -/
theorem write_withPast (record : Option Record) :
    (w.withPast past).write record = (w.write record).map id (withPast past) := by
  cases record with
  | none => rfl
  | some record =>
    simp only [write, apply_ite (Prod.map id (withPast past))]
    rfl

/-- A start does the same. -/
theorem start_withPast : (w.withPast past).start = w.start.withPast past := by
  simp only [start, apply_ite (withPast past)]
  rfl

/-- **Moving on, a writer does the same** whatever is behind it. -/
theorem move_withPast (m : Move σ) : (w.withPast past).move m = (w.move m).withPast past := by
  cases m with
  | start => exact start_withPast past w
  | close | drift => rfl
  | turn now =>
    simp only [move, turn?_withPast]
    cases w.turn? now <;> rfl

end LinkQuality.Writer
