import LinkQuality.Writer.Run
import Mathlib.Logic.Relation

/-!
# What can happen to a writer

A writer is written to, started and closed by others, and moved on by its background work, one
step at a time and at any time of the clock. `Step` lists what comes of one such deed, with
everything that must hold for it: a property of writers is kept by all that can happen as soon as
each line of the list keeps it, and no proof has to look into `turn?` again.

Runs come in two forms. A list of deeds is a run that can be computed (`after`), and what holds
after every list of deeds holds of every run. A chain of steps (`Reaches`) is what runs of other
parts come down to, when a writer is one of them. Running on a clock and stopping are runs of
turns (`exists_run_eq`, `exists_stop_eq`), so nothing is lost by leaving the clock open.

A hand-over is part of the step that begins the first attempt at the batch, and never stands alone
in the history (`begunAtOnce_of_reaches`): what is said of hand-overs is said of attempts.
-/

namespace LinkQuality.Writer

variable {σ : Type}

/-! ## One step -/

/-- **The present attempt of a flush fails at time `now`**, for a reason. Before that is noted the
store may have been heard, which leaves its state and events behind. -/
inductive Failing (now : Nat) (w : Writer σ) (f : Flight) :
    Failure → List WriterEvent → σ → Prop
  | timeUp {pending ready} (hp : f.phase = .asking pending ready) (hd : f.deadline ≤ now) :
    Failing now w f (timedOut w.limits) [] w.state
  | beginning {ready why s} (hp : f.phase = .asking .begin ready)
      (hs : w.store.answer w.state .begin = (.failed why, s)) :
    Failing now w f (why.during "beginning transaction") [.answered now .begin (.failed why)] s
  | committing {ready why s} (hp : f.phase = .asking .commit ready)
      (hs : w.store.answer w.state (.commit f.batch) = (.failed why, s)) :
    Failing now w f (why.during "committing transaction")
      [.answered now (.commit f.batch) (.failed why)] s
  | rolledBack {cause ready s} (hp : f.phase = .asking (.rollback cause) ready)
      (hs : w.store.answer w.state .rollback = (.done, s)) :
    Failing now w f cause [.answered now .rollback .done] s
  | rollbackFailed {cause ready why s} (hp : f.phase = .asking (.rollback cause) ready)
      (hs : w.store.answer w.state .rollback = (.failed why, s)) :
    Failing now w f cause [.told (.rollbackFailed why), .answered now .rollback (.failed why)] s

/-- The writer once it has been noted that the present attempt of a flush has failed. -/
def noteFailure (now : Nat) (f : Flight) (why : Failure) (heard : List WriterEvent) (state : σ)
    (w : Writer σ) : Writer σ :=
  { w with
    state
    metrics := w.metrics.countAttemptErrors w.store.name 1
    history := .attemptFailed now f.attempt why :: (heard ++ w.history) }

/-- The writer once it has heard an answer of the store. -/
def hear (now : Nat) (request : Request) (reply : Reply) (state : σ) (w : Writer σ) : Writer σ :=
  { w with state, history := .answered now request reply :: w.history }

/-- **Who takes a step.** -/
inductive Actor where
  /-- A producer, and the record that is taken in if one is. -/
  | producer (taken : Option Record)
  /-- The owner of the writer, or the world around it. -/
  | owner
  /-- The background work. -/
  | work

/-- The record that is taken in with a step. -/
def Actor.taken : Actor → Option Record
  | producer taken => taken
  | owner | work => none

/-- **One step of a writer**, and who takes it. -/
inductive Step (w : Writer σ) : Actor → Writer σ → Prop
  -- what producers do
  | accept (record : Record) (hc : w.closed = false) (hq : w.queue.length < w.limits.capacity) :
    Step w (.producer (some record)) (w.enqueue record)
  | overflow (record : Record) (hc : w.closed = false)
      (hq : w.limits.capacity ≤ w.queue.length) :
    Step w (.producer none) (w.overflow record)
  | refuse (hc : w.closed = true) : Step w (.producer none) (w.countRefused "closed")
  -- what owners and the world do
  | announce (n : Notice) (hn : ∀ lost, n ≠ .consumerFailed lost) : Step w .owner (w.tell n)
  | spawn (hc : w.closed = false) (hi : w.consumer = .idle) :
    Step w .owner { w with consumer := .spawned }
  | close : Step w .owner w.close
  | drift (state : σ) : Step w .owner { w with state }
  -- what the consumer does
  | wake (now : Nat) (hf : w.flight = none) (hs : w.consumer = .spawned) :
    Step w .work { w with consumer := .gathering (now * 1000000 + w.limits.interval.nanoseconds) }
  | gather {due record queue} (hf : w.flight = none) (hg : w.consumer = .gathering due)
      (hc : w.closed = false) (hq : w.queue = record :: queue)
      (hb : w.batch.length + 1 < w.limits.batchSize) :
    Step w .work (showBacklog
      { w with queue, batch := w.batch ++ [record], inFlight := w.batch.length + 1 })
  | fill (now : Nat) {due record queue} (hf : w.flight = none) (hg : w.consumer = .gathering due)
      (hc : w.closed = false) (hq : w.queue = record :: queue)
      (hb : w.limits.batchSize ≤ w.batch.length + 1) :
    Step w .work (handOver now .size (w.batch ++ [record]) { w.takeBatch with queue })
  | pass (now : Nat) {due} (hf : w.flight = none) (hg : w.consumer = .gathering due)
      (hc : w.closed = false) (hq : w.queue = []) (hd : due ≤ now * 1000000) (hb : w.batch = []) :
    Step w .work (showBacklog { w with
      consumer := .gathering (nextDue (now * 1000000) due w.limits.interval.nanoseconds) })
  | tick (now : Nat) {due} (hf : w.flight = none) (hg : w.consumer = .gathering due)
      (hc : w.closed = false) (hq : w.queue = []) (hd : due ≤ now * 1000000) (hb : w.batch ≠ []) :
    Step w .work (handOver now .timer w.batch { w.takeBatch with
      consumer := .gathering (nextDue (now * 1000000) due w.limits.interval.nanoseconds) })
  | finish {due} (hf : w.flight = none) (hg : w.consumer = .gathering due)
      (hc : w.closed = true) (hb : w.batch = []) :
    Step w .work { w.takeBatch with consumer := .ended }
  | shut (now : Nat) {due} (hf : w.flight = none) (hg : w.consumer = .gathering due)
      (hc : w.closed = true) (hb : w.batch ≠ []) :
    Step w .work (handOver now .shutdown w.batch w.takeBatch)
  -- what a stop does
  | mourn (hf : w.flight = none) (hc : w.closed = true) (hl : w.consumer = .crashed) :
    Step w .work w.mourn
  | drain (now : Nat) (hf : w.flight = none) (hc : w.closed = true)
      (hl : w.consumer = .idle ∨ w.consumer = .ended) (hq : w.queue ≠ []) :
    Step w .work (handOver now .drain (w.queue.take w.limits.batchSize)
      { w.takeBatch with queue := w.queue.drop w.limits.batchSize })
  | settle (hf : w.flight = none) (hc : w.closed = true)
      (hl : w.consumer = .idle ∨ w.consumer = .ended) (hq : w.queue = []) :
    Step w .work (showBacklog { w.takeBatch with consumer := .stopped })
  -- what a flush does
  | begun (now : Nat) {f ready s} (hf : w.flight = some f) (hp : f.phase = .asking .begin ready)
      (hs : w.store.answer w.state .begin = (.done, s)) :
    Step w .work (ask now f (.next f.batch) (w.hear now .begin .done s))
  | inserted (now : Nat) {f record rest ready s} (hf : w.flight = some f)
      (hp : f.phase = .asking (.insert record rest) ready)
      (hs : w.store.answer w.state (.insert record) = (.done, s)) :
    Step w .work (ask now f (.next rest) (w.hear now (.insert record) .done s))
  | rollBack (now : Nat) {f record rest ready why s} (hf : w.flight = some f)
      (hp : f.phase = .asking (.insert record rest) ready)
      (hs : w.store.answer w.state (.insert record) = (.failed why, s)) :
    Step w .work (ask now f (.rollback (why.during ("inserting record for node " ++ record.node)))
      (w.hear now (.insert record) (.failed why) s))
  | commit (now : Nat) {f ready s} (hf : w.flight = some f) (hp : f.phase = .asking .commit ready)
      (hs : w.store.answer w.state (.commit f.batch) = (.done, s)) :
    Step w .work (succeed now f (w.hear now (.commit f.batch) .done s))
  | rest (now : Nat) {f why heard s} (hf : w.flight = some f) (hw : Failing now w f why heard s)
      (hr : w.limits.backoff.retries f.attempt = true) :
    Step w .work (rest now f why (w.noteFailure now f why heard s))
  | giveUp (now : Nat) {f why heard s} (hf : w.flight = some f) (hw : Failing now w f why heard s)
      (hr : w.limits.backoff.retries f.attempt = false) :
    Step w .work (giveUp now f why (w.noteFailure now f why heard s))
  | retry (now : Nat) {f wake} (hf : w.flight = some f) (hp : f.phase = .resting wake) :
    Step w .work (beginAttempt now { f with attempt := f.attempt + 1 } w)
  | crash (now : Nat) {f pending ready s} (hf : w.flight = some f)
      (hp : f.phase = .asking pending ready)
      (hs : w.store.answer w.state (pending.request f.batch) = (.crashed, s)) :
    Step w .work (crash f (w.hear now (pending.request f.batch) .crashed s))

/-! ## The background work takes steps -/

/-- An attempt that fails is followed by a rest or by the end of the flush. -/
theorem step_failAttempt {now : Nat} {w v : Writer σ} {f : Flight} {why : Failure}
    {heard : List WriterEvent} {s : σ} (hf : w.flight = some f)
    (hw : Failing now w f why heard s)
    (hv : v = { w with state := s, history := heard ++ w.history }) :
    Step w .work (v.failAttempt now f why) := by
  subst hv
  unfold failAttempt
  dsimp only
  split
  next hr => exact .rest now hf hw hr
  next hr => exact .giveUp now hf hw (by simpa using hr)

/-- An answer of the store makes one step, whatever was asked and whatever is answered. -/
theorem step_receive {now : Nat} {w : Writer σ} {f : Flight} {pending : Pending}
    {ready : Option Nat} (hf : w.flight = some f) (hp : f.phase = .asking pending ready) :
    Step w .work (w.receive now f pending) := by
  rcases hs : w.store.answer w.state (pending.request f.batch) with ⟨reply, s⟩
  simp only [receive, hs]
  cases reply with
  | done =>
    cases pending with
    | begin => exact .begun now hf hp hs
    | insert record rest => exact .inserted now hf hp hs
    | commit => exact .commit now hf hp hs
    | rollback cause =>
      have hw : Failing now w f cause _ s := .rolledBack hp hs
      exact step_failAttempt hf hw rfl
  | failed why =>
    cases pending with
    | begin =>
      have hw : Failing now w f _ _ s := .beginning hp hs
      exact step_failAttempt hf hw rfl
    | insert record rest => exact .rollBack now hf hp hs
    | commit =>
      have hw : Failing now w f _ _ s := .committing hp hs
      exact step_failAttempt hf hw rfl
    | rollback cause =>
      have hw : Failing now w f cause _ s := .rollbackFailed hp hs
      exact step_failAttempt hf hw rfl
  | crashed => exact .crash now hf hp hs

/-- The next step of a flush is a step. -/
theorem step_flightTurn? {now : Nat} {w w' : Writer σ} {f : Flight} (hf : w.flight = some f)
    (h : w.flightTurn? now f = some w') : Step w .work w' := by
  unfold flightTurn? at h
  split at h
  next pending ready hp =>
    split at h
    · obtain rfl := Option.some.inj h
      exact step_receive hf hp
    · split at h
      next hd =>
        obtain rfl := Option.some.inj h
        have hw : Failing now w f _ [] w.state := .timeUp hp hd
        exact step_failAttempt hf hw rfl
      · exact absurd h nofun
  next wake hp =>
    split at h
    · obtain rfl := Option.some.inj h
      exact .retry now hf hp
    · exact absurd h nofun

/-- Taking a record out of the queue is a step, whether or not it fills the batch. -/
theorem step_gather {now due : Nat} {w : Writer σ} {record : Record} {queue : List Record}
    (hf : w.flight = none) (hg : w.consumer = .gathering due) (hc : w.closed = false)
    (hq : w.queue = record :: queue) : Step w .work (w.gather now record queue) := by
  have hlen : (w.batch ++ [record]).length = w.batch.length + 1 := List.length_append
  unfold gather
  dsimp only
  rw [hlen]
  split
  next hb =>
    have h := Step.fill now hf hg hc hq hb
    exact h
  next hb =>
    have h := Step.gather hf hg hc hq (Nat.lt_of_not_le hb)
    exact h

/-- The next step of a consumer that gathers is a step. -/
theorem step_gatherTurn? {now due : Nat} {w w' : Writer σ} (hf : w.flight = none)
    (hg : w.consumer = .gathering due) (h : w.gatherTurn? now due = some w') : Step w .work w' := by
  unfold gatherTurn? at h
  cases hc : w.closed with
  | true =>
    rw [if_pos hc] at h
    obtain rfl := Option.some.inj h
    split
    next hb => exact .finish hf hg hc (List.isEmpty_iff.mp hb)
    next hb => exact .shut now hf hg hc (by simpa using hb)
  | false =>
    rw [if_neg (by simp [hc])] at h
    split at h
    next record queue hq =>
      obtain rfl := Option.some.inj h
      exact step_gather hf hg hc hq
    next hq =>
      split at h
      next hd =>
        obtain rfl := Option.some.inj h
        unfold Writer.tick
        dsimp only
        split
        next hb => exact .pass now hf hg hc hq hd (List.isEmpty_iff.mp hb)
        next hb => exact .tick now hf hg hc hq hd (by simpa using hb)
      · exact absurd h nofun

/-- The next step of a stop is a step. -/
theorem step_drainTurn {now : Nat} {w : Writer σ} (hf : w.flight = none) (hc : w.closed = true)
    (hl : w.consumer = .idle ∨ w.consumer = .ended) : Step w .work (w.drainTurn now) := by
  unfold drainTurn
  split
  next hq => exact .settle hf hc hl (List.isEmpty_iff.mp hq)
  next hq => exact .drain now hf hc hl (by simpa using hq)

/-- **The background work takes steps.** -/
theorem step_turn? {now : Nat} {w w' : Writer σ} (h : w.turn? now = some w') : Step w .work w' := by
  unfold turn? at h
  split at h
  next f hf => exact step_flightTurn? hf h
  next hf =>
    split at h
    next hs =>
      obtain rfl := Option.some.inj h
      exact .wake now hf hs
    next due hg => exact step_gatherTurn? hf hg h
    next hi =>
      split at h
      next hc =>
        obtain rfl := Option.some.inj h
        exact step_drainTurn hf hc (.inl hi)
      · exact absurd h nofun
    next he =>
      split at h
      next hc =>
        obtain rfl := Option.some.inj h
        exact step_drainTurn hf hc (.inr he)
      · exact absurd h nofun
    next hl =>
      split at h
      next hc =>
        obtain rfl := Option.some.inj h
        exact .mourn hf hc hl
      · exact absurd h nofun
    · exact absurd h nofun

/-! ## What others do takes steps -/

/-- The record that a write takes in: the one it is given, if it says so. -/
def intake (w : Writer σ) (record : Option Record) : Option Record :=
  match (w.write record).1 with
  | .ok () => record
  | .error _ => none

/-- A write changes nothing or is a step, and takes in what it says. -/
theorem write_eq_or_step (record : Option Record) (w : Writer σ) :
    (w.write record).2 = w ∧ w.intake record = none ∨
      Step w (.producer (w.intake record)) (w.write record).2 := by
  cases record with
  | none => exact .inl ⟨rfl, rfl⟩
  | some record =>
    right
    unfold intake write
    dsimp only
    cases hc : w.closed with
    | true => exact .refuse hc
    | false =>
      by_cases hq : w.queue.length < w.limits.capacity
      · simp only [Bool.false_eq_true, if_false, if_pos hq]
        exact .accept record hc hq
      · simp only [Bool.false_eq_true, if_false, if_neg hq]
        exact .overflow record hc (Nat.le_of_not_lt hq)

/-- A start is a step, also where it starts nothing. -/
theorem step_start (w : Writer σ) : Step w .owner w.start := by
  unfold start
  split
  · exact .announce _ nofun
  next hc =>
    split
    · exact .announce _ nofun
    next hi => exact .spawn (by simpa using hc) (by simpa using hi)

/-! ## Runs -/

/-- A writer can become another one. -/
def Reaches : Writer σ → Writer σ → Prop :=
  Relation.ReflTransGen fun w w' => ∃ actor, Step w actor w'

theorem Reaches.refl (w : Writer σ) : Reaches w w := Relation.ReflTransGen.refl

theorem Reaches.trans {u v w : Writer σ} (h₁ : Reaches u v) (h₂ : Reaches v w) : Reaches u w :=
  Relation.ReflTransGen.trans h₁ h₂

/-- A step is a run. -/
theorem Step.reaches {w w' : Writer σ} {actor : Actor} (h : Step w actor w') :
    Reaches w w' :=
  Relation.ReflTransGen.single ⟨actor, h⟩

/-- **A property kept by each step is kept by every run.** -/
theorem Reaches.keeps {P : Writer σ → Prop} {w w' : Writer σ} (h : Reaches w w')
    (hP : ∀ {u v : Writer σ} {actor : Actor}, Step u actor v → P u → P v) (hw : P w) :
    P w' := by
  induction h with
  | refl => exact hw
  | tail _ hs ih =>
    obtain ⟨actor, hs⟩ := hs
    exact hP hs ih

/-- **What moves a writer** without a record coming in. -/
inductive Move (σ : Type) where
  | start
  | close
  /-- The background work takes its next step, if there is one at time `now`. -/
  | turn (now : Nat)
  /-- The store changes by itself. -/
  | drift (state : σ)

/-- **One thing that can be done with a writer.** -/
inductive Deed (σ : Type) where
  | write (record : Option Record)
  | move (m : Move σ)

/-- The writer after a move. -/
def move (w : Writer σ) : Move σ → Writer σ
  | .start => w.start
  | .close => w.close
  | .turn now => (w.turn? now).getD w
  | .drift state => { w with state }

/-- The writer after a deed. -/
def perform (w : Writer σ) : Deed σ → Writer σ
  | .write record => (w.write record).2
  | .move m => w.move m

/-- **The writer after a run**, given as the deeds in their order. Any interleaving of producers,
owners and background work is such a list, and so is any behaviour of the store: each answer can
be settled by a `drift` before the request. -/
def after (w : Writer σ) (deeds : List (Deed σ)) : Writer σ := deeds.foldl perform w

/-- The record that a deed takes in. -/
def entrant (w : Writer σ) : Deed σ → Option Record
  | .write record => w.intake record
  | .move _ => none

/-- **The records that a run takes in**, in order: those of which a write has said so. -/
def admitted : Writer σ → List (Deed σ) → List Record
  | _, [] => []
  | w, d :: deeds => (w.entrant d).toList ++ (w.perform d).admitted deeds

/-- A move changes nothing or is a step that takes nothing in. -/
theorem move_eq_or_step (m : Move σ) (w : Writer σ) :
    w.move m = w ∨ ∃ actor, actor.taken = none ∧ Step w actor (w.move m) := by
  cases m with
  | start => exact .inr ⟨.owner, rfl, step_start w⟩
  | close => exact .inr ⟨.owner, rfl, .close⟩
  | drift state => exact .inr ⟨.owner, rfl, .drift state⟩
  | turn now =>
    rw [move]
    cases h : w.turn? now with
    | none => exact .inl rfl
    | some w' => exact .inr ⟨.work, rfl, step_turn? h⟩

/-- A deed changes nothing or is a step. -/
theorem perform_eq_or_step (d : Deed σ) (w : Writer σ) :
    w.perform d = w ∧ w.entrant d = none ∨
      ∃ actor, actor.taken = w.entrant d ∧ Step w actor (w.perform d) := by
  cases d with
  | write record => exact (write_eq_or_step record w).imp id fun h => ⟨_, rfl, h⟩
  | move m => exact (move_eq_or_step m w).imp (fun h => ⟨h, rfl⟩) id

/-- A deed is a run. -/
theorem reaches_perform (d : Deed σ) (w : Writer σ) : Reaches w (w.perform d) := by
  rcases perform_eq_or_step d w with ⟨h, -⟩ | ⟨_, -, h⟩
  · rw [h]
    exact .refl w
  · exact h.reaches

/-- **A run given by its deeds is a chain of steps.** -/
theorem reaches_after (deeds : List (Deed σ)) (w : Writer σ) : Reaches w (w.after deeds) := by
  induction deeds generalizing w with
  | nil => exact .refl w
  | cons d deeds ih => exact (reaches_perform d w).trans (ih _)

/-- What follows a flush changes neither the store nor whether the writer is closed. -/
theorem resume_parts (now : Nat) (trigger : Trigger) (w : Writer σ) :
    (w.resume now trigger).store = w.store ∧ (w.resume now trigger).closed = w.closed := by
  cases trigger <;> exact ⟨rfl, rfl⟩

/-- Nor the bounds that the writer works within. -/
theorem limits_resume (now : Nat) (trigger : Trigger) (w : Writer σ) :
    (w.resume now trigger).limits = w.limits := by
  cases trigger <;> rfl

/-- It is no event. -/
theorem history_resume (now : Nat) (trigger : Trigger) (w : Writer σ) :
    (w.resume now trigger).history = w.history := by
  cases trigger <;> rfl

/-- No step changes the bounds that a writer works within. -/
theorem limits_of_step {w w' : Writer σ} {actor : Actor} (h : Step w actor w') :
    w'.limits = w.limits := by
  cases h with
  | commit | giveUp => exact limits_resume ..
  | _ => rfl

/-- Neither does a run. -/
theorem limits_of_reaches {w w' : Writer σ} (h : Reaches w w') : w'.limits = w.limits :=
  h.keeps (P := fun v => v.limits = w.limits) (fun hs hv => (limits_of_step hs).trans hv) rfl

/-- A closed writer stays closed. -/
theorem closed_of_step {w w' : Writer σ} {actor : Actor} (h : Step w actor w')
    (hc : w.closed = true) : w'.closed = true := by
  cases h with
  | close => rfl
  | commit | giveUp => exact (resume_parts ..).2.trans hc
  | _ => exact hc

/-- The background work does not close a writer. -/
theorem closed_of_work {w w' : Writer σ} (h : Step w .work w') : w'.closed = w.closed := by
  cases h with
  | commit | giveUp => exact (resume_parts ..).2
  | _ => rfl

/-- Nothing but a close closes a writer. -/
theorem closed_perform {d : Deed σ} (hd : d ≠ .move .close) (w : Writer σ) :
    (w.perform d).closed = w.closed := by
  cases d with
  | write record =>
    rw [perform]
    unfold write
    split
    · rfl
    · split
      · rfl
      · split <;> rfl
  | move m =>
    cases m with
    | start =>
      have hstart : w.start.closed = w.closed := by
        unfold start
        split
        · rfl
        · split <;> rfl
      exact hstart
    | close => exact absurd rfl hd
    | drift => rfl
    | turn now =>
      rw [perform, move]
      cases hturn : w.turn? now with
      | none => rfl
      | some w' => exact closed_of_work (step_turn? hturn)

/-- A closed writer turns every record away, whatever happens. -/
theorem write_of_closed {w : Writer σ} (hc : w.closed = true) (deeds : List (Deed σ))
    (record : Record) : ((w.after deeds).write (some record)).1 = .error .closed := by
  have hlater : (w.after deeds).closed = true := (reaches_after deeds w).keeps closed_of_step hc
  simp only [write, hlater, if_true]

/-- A run that only moves a writer. -/
def afterMoves (w : Writer σ) (moves : List (Move σ)) : Writer σ := w.after (moves.map .move)

/-- A run that only moves a writer takes nothing in. -/
theorem admitted_moves (moves : List (Move σ)) (w : Writer σ) :
    w.admitted (moves.map .move) = [] := by
  induction moves generalizing w with
  | nil => rfl
  | cons m moves ih => exact ih (w.move m)

/-! ## Running on a clock -/

/-- Driving a writer on a clock is a run of turns, at the times the clock shows. -/
theorem exists_drive_eq (limit : Option Nat) (fuel now : Nat) (w : Writer σ) :
    ∃ moves, (drive limit fuel now w).2 = w.afterMoves moves := by
  induction fuel generalizing now w with
  | zero => exact ⟨[], rfl⟩
  | succ fuel ih =>
    rw [drive]
    split
    next w' h =>
      obtain ⟨moves, hm⟩ := ih now w'
      refine ⟨.turn now :: moves, ?_⟩
      have hw : w.move (.turn now) = w' := by rw [move, h, Option.getD_some]
      rw [hm, ← hw]
      rfl
    next =>
      split
      next t _ =>
        split
        · exact ih t w
        · exact ⟨[], rfl⟩
      · exact ⟨[], rfl⟩

/-- So is running it for a span of time. -/
theorem exists_run_eq (now span : Nat) (w : Writer σ) :
    ∃ moves, w.run now span = w.afterMoves moves :=
  exists_drive_eq _ _ now w

/-- Running a writer does not close it. -/
theorem closed_run (now span : Nat) (w : Writer σ) : (w.run now span).closed = w.closed := by
  have hdrive : ∀ limit fuel now (w : Writer σ), (drive limit fuel now w).2.closed = w.closed := by
    intro limit fuel
    induction fuel with
    | zero => exact fun _ _ => rfl
    | succ fuel ih =>
      intro now w
      rw [drive]
      split
      next w' h => exact (ih now w').trans (closed_of_work (step_turn? h))
      next =>
        split
        next t _ =>
          split
          · exact ih t w
          · rfl
        · rfl
  exact hdrive ..

/-- A stop closes the writer and is a run of turns from there. -/
theorem exists_stop_eq (now : Nat) (w : Writer σ) :
    ∃ moves, (w.stop now).2 = w.afterMoves moves := by
  unfold stop
  split
  · exact ⟨[], rfl⟩
  · obtain ⟨moves, h⟩ := exists_drive_eq none (w.workBound 0) now w.close
    exact ⟨.close :: moves, h⟩

/-- After a stop a writer is closed. -/
theorem closed_stop (now : Nat) (w : Writer σ) : (w.stop now).2.closed = true := by
  unfold stop
  split
  next hc => exact hc
  next =>
    obtain ⟨moves, h⟩ := exists_drive_eq none (w.workBound 0) now w.close
    rw [h]
    exact (reaches_after _ w.close).keeps (P := (Writer.closed · = true)) closed_of_step rfl

/-- A stop is a chain of steps. -/
theorem reaches_stop (now : Nat) (w : Writer σ) : Reaches w (w.stop now).2 := by
  obtain ⟨moves, h⟩ := exists_stop_eq now w
  rw [h]
  exact reaches_after _ w

/-! ## Hand-overs -/

/-- **A hand-over is followed at once by the first attempt** at the batch, and by the request that
begins its transaction. -/
def BegunAtOnce (history : List WriterEvent) : Prop :=
  ∀ later trigger batch earlier, history = later ++ .handedOver trigger batch :: earlier →
    ∃ rest now, later = rest ++ [.asked now .begin, .attempted now 1]

/-- What fails an attempt hands nothing over. -/
theorem Failing.handedOver_not_mem {now : Nat} {w : Writer σ} {f : Flight} {why : Failure}
    {heard : List WriterEvent} {s : σ} (h : Failing now w f why heard s) (trigger : Trigger)
    (batch : List Record) : .handedOver trigger batch ∉ heard := by
  cases h <;> simp

/-- What a step adds to the history: a hand-over with all that follows it at once, or none. -/
theorem exists_events_of_step {w w' : Writer σ} {actor : Actor} (h : Step w actor w') :
    ∃ events, w'.history = events ++ w.history ∧
      ((∃ now trigger batch,
          events = [.asked now .begin, .attempted now 1, .handedOver trigger batch]) ∨
        ∀ trigger batch, .handedOver trigger batch ∉ events) := by
  cases h with
  | fill now | tick now | shut now | drain now =>
    exact ⟨[_, _, _], rfl, .inl ⟨now, _, _, rfl⟩⟩
  | spawn | close | drift | wake | gather | pass | finish | settle | refuse =>
    exact ⟨[], rfl, .inr (by simp)⟩
  | accept | overflow | announce | mourn | crash => exact ⟨[_], rfl, .inr (by simp)⟩
  | begun | inserted | rollBack | retry => exact ⟨[_, _], rfl, .inr (by simp)⟩
  | commit => exact ⟨[_, _], history_resume .., .inr (by simp)⟩
  | rest now hf hwhy hr =>
    exact ⟨_ :: _ :: _, rfl, .inr (by simp [hwhy.handedOver_not_mem])⟩
  | giveUp now hf hwhy hr =>
    exact ⟨_ :: _ :: _ :: _, history_resume .., .inr (by simp [hwhy.handedOver_not_mem])⟩

/-- More events leave it so, if a hand-over among them is followed by all that is to follow it. -/
theorem BegunAtOnce.append {history events : List WriterEvent} (h : BegunAtOnce history)
    (hevents : (∃ now trigger batch,
        events = [.asked now .begin, .attempted now 1, .handedOver trigger batch]) ∨
      ∀ trigger batch, .handedOver trigger batch ∉ events) :
    BegunAtOnce (events ++ history) := by
  intro later trigger batch earlier heq
  rcases List.append_eq_append_iff.mp heq with ⟨since, rfl, hold⟩ | ⟨since, hnew, hold⟩
  · -- the hand-over was there before
    obtain ⟨rest, now, rfl⟩ := h since trigger batch earlier hold
    exact ⟨events ++ rest, now, (List.append_assoc ..).symm⟩
  · rcases List.cons_eq_append_iff.mp hold with ⟨rfl, hold⟩ | ⟨since, rfl, -⟩
    · obtain ⟨rest, now, hrest⟩ := h [] trigger batch earlier hold.symm
      exact absurd hrest (by simp)
    · -- it is one of the new events
      rcases hevents with ⟨now, trigger', batch', hall⟩ | hnone
      · rw [hnew] at hall
        rcases later with _ | ⟨first, _ | ⟨second, _ | ⟨third, later⟩⟩⟩
        · simp at hall
        · simp at hall
        · obtain ⟨rfl, rfl, -⟩ : _ ∧ _ ∧ _ := by simpa using hall
          exact ⟨[], now, rfl⟩
        · simp at hall
      · exact absurd (hnew ▸ by simp) (hnone trigger batch)

/-- **So it is in every run.** -/
theorem begunAtOnce_of_reaches {s : WriterSettings} {store : Store σ} {state : σ} {w : Writer σ}
    (h : Reaches (ofSettings s store state) w) : BegunAtOnce w.history := by
  have hfirst : BegunAtOnce (ofSettings s store state).history := by simp [BegunAtOnce, ofSettings]
  refine h.keeps (P := fun v => BegunAtOnce v.history) (fun hs hv => ?_) hfirst
  obtain ⟨events, hhistory, hevents⟩ := exists_events_of_step hs
  rw [hhistory]
  exact hv.append hevents

end LinkQuality.Writer
