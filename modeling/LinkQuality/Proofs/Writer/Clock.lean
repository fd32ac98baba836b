import LinkQuality.Proofs.Writer.Rest
import Mathlib.Logic.Function.Iterate

/-!
# A writer and its clock

A writer that runs in virtual time never oversleeps: the clock may move at any moment, but it does
not pass the time the writer waits for before the writer has taken its turn then. Apart from that
anything can happen at any moment, so a run is a list of happenings (`Clocked.after`), and every
list is a run. Left to itself, a writer takes one turn after the other and lets the clock jump when
there is none (`Clocked.goOn`); that is how it is run and stopped (`exists_drive_eq_goOn`).

The steps of a writer leave the time open. On a clock they bear the time that it shows
(`Dated.turn?`): this is where the times in a history come from, and what a timer is set by.
-/

namespace LinkQuality

variable {σ : Type}

/-! ## Runs -/

/-- **A writer and the clock it runs by**, in milliseconds. -/
structure Clocked (σ : Type) where
  now : Nat
  writer : Writer σ

/-- **What can happen next.** -/
inductive Happening (σ : Type) where
  | write (record : Option Record)
  | start
  | close
  /-- The store changes by itself. -/
  | drift (state : σ)
  /-- The background work takes its next step, if there is one. -/
  | turn
  /-- Time passes, as many milliseconds as it can and `span` at most. -/
  | lapse (span : Nat)

namespace Clocked

/-- A writer at rest, for the given settings, as the clock starts. -/
def ofSettings (s : WriterSettings) (store : Store σ) (state : σ) : Clocked σ :=
  ⟨0, .ofSettings s store state⟩

/-- How far the clock gets in a span of time: not past the time that the writer waits for. -/
def reach (x : Clocked σ) (span : Nat) : Nat :=
  match x.writer.wakeTime? with
  | some t => min (x.now + span) (max x.now t)
  | none => x.now + span

/-- The writer and its clock after something has happened. -/
def perform (x : Clocked σ) : Happening σ → Clocked σ
  | .write record => { x with writer := (x.writer.write record).2 }
  | .start => { x with writer := x.writer.start }
  | .close => { x with writer := x.writer.close }
  | .drift state => { x with writer := { x.writer with state } }
  | .turn => { x with writer := (x.writer.turn? x.now).getD x.writer }
  | .lapse span => { x with now := x.reach span }

/-- **The writer and its clock after a run.** -/
def after (x : Clocked σ) (happenings : List (Happening σ)) : Clocked σ :=
  happenings.foldl perform x

/-- **One step on a clock.** Others may do something, the background work may take its turn at the
time that the clock shows, and the clock may move, but not past the time that is waited for. -/
inductive Step (x : Clocked σ) : Clocked σ → Prop
  | idle : Step x x
  | produce {taken w} (h : Writer.Step x.writer (.producer taken) w) : Step x ⟨x.now, w⟩
  | own {w} (h : Writer.Step x.writer .owner w) : Step x ⟨x.now, w⟩
  | turn {w} (h : x.writer.turn? x.now = some w) : Step x ⟨x.now, w⟩
  | lapse {now} (hle : x.now ≤ now) (hwake : ∀ t, x.writer.wakeTime? = some t → now ≤ max x.now t) :
    Step x ⟨now, x.writer⟩

/-- The clock moves forward, up to the time that is waited for. -/
theorem reach_bounds (x : Clocked σ) (span : Nat) :
    x.now ≤ x.reach span ∧ ∀ t, x.writer.wakeTime? = some t → x.reach span ≤ max x.now t := by
  rw [reach]
  cases h : x.writer.wakeTime? with
  | none => exact ⟨Nat.le_add_right .., nofun⟩
  | some t =>
    refine ⟨by simp only; omega, ?_⟩
    rintro _ ⟨rfl⟩
    exact Nat.min_le_right ..

/-- Whatever happens is a step. -/
theorem step_perform (x : Clocked σ) (h : Happening σ) : Step x (x.perform h) := by
  cases h with
  | write record =>
    rcases Writer.write_eq_or_step record x.writer with ⟨h, -⟩ | h
    · rw [perform, h]
      exact .idle
    · exact .produce h
  | start => exact .own (Writer.step_start x.writer)
  | close => exact .own .close
  | drift state => exact .own (.drift state)
  | turn =>
    rw [perform]
    cases h : x.writer.turn? x.now with
    | none => exact .idle
    | some w => exact .turn h
  | lapse span =>
    obtain ⟨hle, hwake⟩ := x.reach_bounds span
    exact .lapse hle hwake

/-- **What each step keeps, every run keeps.** -/
theorem keeps_after {P : Clocked σ → Prop} (hP : ∀ {x y : Clocked σ}, Step x y → P x → P y)
    (happenings : List (Happening σ)) {x : Clocked σ} (hx : P x) : P (x.after happenings) := by
  induction happenings generalizing x with
  | nil => exact hx
  | cons h happenings ih => exact ih (hP (step_perform x h) hx)

/-- On a clock a writer becomes nothing that it could not become without. -/
theorem reaches_of_step {x y : Clocked σ} (h : Step x y) : Writer.Reaches x.writer y.writer := by
  cases h with
  | idle | lapse => exact .refl _
  | produce h | own h => exact h.reaches
  | turn h => exact (Writer.step_turn? h).reaches

/-- So a run on a clock is a run. -/
theorem reaches_after (happenings : List (Happening σ)) (x : Clocked σ) :
    Writer.Reaches x.writer (x.after happenings).writer :=
  keeps_after (P := fun y => Writer.Reaches x.writer y.writer)
    (fun h hr => hr.trans (reaches_of_step h)) happenings (.refl _)

/-- **What holds until something comes about** holds at the end of a run, unless that has come about
by then. -/
theorem after_or_exists {P Q : Clocked σ → Prop}
    (hP : ∀ {x y : Clocked σ}, Step x y → P x → P y ∨ Q y) (happenings : List (Happening σ))
    {x : Clocked σ} (hx : P x) :
    P (x.after happenings) ∨
      ∃ before later, happenings = before ++ later ∧ Q (x.after before) := by
  induction happenings generalizing x with
  | nil => exact .inl hx
  | cons h happenings ih =>
    rcases hP (step_perform x h) hx with hPh | hQh
    · rcases ih hPh with hlast | ⟨before, later, rfl, hQ⟩
      · exact .inl hlast
      · exact .inr ⟨h :: before, later, rfl, hQ⟩
    · exact .inr ⟨[h], happenings, rfl, hQh⟩

/-! ## Going on -/

/-- **Going on by itself**, a writer takes a turn if there is one, and otherwise lets the clock move
to the time that it waits for. -/
def goOn (x : Clocked σ) : Clocked σ :=
  match x.writer.turn? x.now with
  | some w => { x with writer := w }
  | none =>
    match x.writer.wakeTime? with
    | some t => { x with now := max x.now t }
    | none => x

/-- With a turn to take, it takes it. -/
theorem goOn_of_some {x : Clocked σ} {w : Writer σ} (h : x.writer.turn? x.now = some w) :
    x.goOn = ⟨x.now, w⟩ := by
  rw [goOn, h]

/-- Without one, the clock moves. -/
theorem goOn_of_none {x : Clocked σ} {t : Nat} (h : x.writer.turn? x.now = none)
    (ht : x.writer.wakeTime? = some t) (hlt : x.now < t) : x.goOn = ⟨t, x.writer⟩ := by
  simp only [goOn, h, ht]
  rw [Nat.max_eq_right (Nat.le_of_lt hlt)]

/-- Going on is something that happens. -/
theorem exists_goOn_eq_perform (x : Clocked σ) : ∃ h, x.goOn = x.perform h := by
  unfold goOn
  cases h : x.writer.turn? x.now with
  | some w => exact ⟨.turn, by rw [perform, h, Option.getD_some]⟩
  | none =>
    cases ht : x.writer.wakeTime? with
    | none => exact ⟨.turn, by rw [perform, h, Option.getD_none]⟩
    | some t =>
      refine ⟨.lapse (t - x.now), ?_⟩
      have hreach : max x.now t = x.reach (t - x.now) := by
        simp only [reach, ht]
        omega
      rw [perform, ← hreach]

/-- Going on and on is a run. -/
theorem exists_iterate_goOn_eq_after (n : Nat) (x : Clocked σ) :
    ∃ happenings, goOn^[n] x = x.after happenings := by
  induction n generalizing x with
  | zero => exact ⟨[], rfl⟩
  | succ n ih =>
    obtain ⟨h, hgoOn⟩ := x.exists_goOn_eq_perform
    obtain ⟨happenings, hrest⟩ := ih x.goOn
    exact ⟨h :: happenings, by rw [Function.iterate_succ_apply, hrest, hgoOn]; rfl⟩

/-- **Going on gets there**, if each turn gets there or leaves less to do, and there is always a
turn, be it after the clock has moved. -/
theorem exists_goOn {P Q : Clocked σ → Prop} (left : Writer σ → Nat)
    (hwait : ∀ y, P y → y.writer.turn? y.now = none → ∃ t, y.writer.wakeTime? = some t ∧
      y.now < t ∧ (y.writer.turn? t).isSome ∧ P ⟨t, y.writer⟩)
    (hturn : ∀ y w, P y → y.writer.turn? y.now = some w →
      Q ⟨y.now, w⟩ ∨ P ⟨y.now, w⟩ ∧ left w < left y.writer)
    {x : Clocked σ} (hx : P x) : ∃ n, Q (goOn^[n] x) := by
  induction hleft : left x.writer using Nat.strong_induction_on generalizing x with
  | h _ ih =>
    -- a turn goes on in the same way, whether it is taken at once or after the clock has moved
    have hmoved : ∀ y w, y.writer = x.writer → P y → y.writer.turn? y.now = some w →
        ∃ n, Q (goOn^[n] y) := by
      intro y w hy hP hw
      have hgoOn := goOn_of_some hw
      rcases hturn y w hP hw with hQ | ⟨hP', hlt⟩
      · exact ⟨1, by rwa [Function.iterate_one, hgoOn]⟩
      · obtain ⟨n, hn⟩ := ih (left w) (by rwa [← hleft, ← hy]) hP' rfl
        exact ⟨n + 1, by rwa [Function.iterate_succ_apply, hgoOn]⟩
    cases hw : x.writer.turn? x.now with
    | some w => exact hmoved x w rfl hx hw
    | none =>
      obtain ⟨t, ht, hlt, hsome, hP⟩ := hwait x hx hw
      obtain ⟨w, hw'⟩ := Option.isSome_iff_exists.mp hsome
      obtain ⟨n, hn⟩ := hmoved ⟨t, x.writer⟩ w rfl hP hw'
      exact ⟨n + 1, by rwa [Function.iterate_succ_apply, goOn_of_none hw ht hlt]⟩

/-- **A writer is run and stopped by going on.** -/
theorem exists_drive_eq_goOn (limit : Option Nat) (fuel now : Nat) (w : Writer σ) :
    ∃ n, (⟨(Writer.drive limit fuel now w).1, (Writer.drive limit fuel now w).2⟩ : Clocked σ) =
      goOn^[n] ⟨now, w⟩ := by
  induction fuel generalizing now w with
  | zero => exact ⟨0, rfl⟩
  | succ fuel ih =>
    rw [Writer.drive]
    split
    next w' h =>
      obtain ⟨n, hn⟩ := ih now w'
      have hgoOn : (⟨now, w⟩ : Clocked σ).goOn = ⟨now, w'⟩ := goOn_of_some h
      exact ⟨n + 1, by rw [hn, Function.iterate_succ_apply, hgoOn]⟩
    next h =>
      split
      next t ht =>
        split
        next hlt =>
          obtain ⟨n, hn⟩ := ih t w
          have hgoOn : (⟨now, w⟩ : Clocked σ).goOn = ⟨t, w⟩ := goOn_of_none h ht hlt.1
          exact ⟨n + 1, by rw [hn, Function.iterate_succ_apply, hgoOn]⟩
        · exact ⟨0, rfl⟩
      · exact ⟨0, rfl⟩

end Clocked

/-! ## Dates -/

/-- The time that an event bears. -/
def WriterEvent.time? : WriterEvent → Option Nat
  | attempted time _ | asked time _ | answered time _ _ | attemptFailed time _ _ => some time
  | accepted _ | handedOver .. | committed .. | dropped .. | told _ => none

/-- A timer that is handled when it is due is due again within an interval. -/
theorem nextDue_le {now due : Nat} (h : due ≤ now) (interval : Nat) :
    nextDue now due interval ≤ now + interval := by
  unfold nextDue
  split <;> omega

namespace Writer

/-- **What a writer becomes at time `now`**: what has happened bears that time, and a timer that
has been set is due within the interval from then. -/
structure Dated (now : Nat) (w w' : Writer σ) : Prop where
  limits_eq : w'.limits = w.limits
  exists_history_eq : ∃ new, w'.history = new ++ w.history ∧ ∀ e ∈ new, ∀ t ∈ e.time?, t = now
  gathering_or_due_le : ∀ due, w'.consumer = .gathering due →
    w.consumer = .gathering due ∨ due ≤ now * 1000000 + w.limits.interval.nanoseconds

namespace Dated

variable {now : Nat} {u w : Writer σ}

/-- Nothing has happened. -/
theorem refl (w : Writer σ) : Dated now w w where
  limits_eq := rfl
  exists_history_eq := ⟨[], rfl, fun _ h => absurd h List.not_mem_nil⟩
  gathering_or_due_le _ h := .inl h

/-- **An event that has been added bears the time.** -/
theorem time_eq {t : Nat} {e : WriterEvent} (h : Dated now u w) (new : List WriterEvent)
    (hh : w.history = new ++ u.history) (he : e ∈ new) (ht : e.time? = some t) : t = now := by
  obtain ⟨new', hnew, htime⟩ := h.exists_history_eq
  obtain rfl : new' = new := List.append_cancel_right (hnew.symm.trans hh)
  exact htime e he t ht

/-- One more event, that bears the time if any. -/
theorem note {e : WriterEvent} (h : Dated now u w) (he : ∀ t ∈ e.time?, t = now) :
    Dated now u (w.note e) := by
  obtain ⟨new, hnew, htime⟩ := h.exists_history_eq
  refine { h with exists_history_eq := ⟨e :: new, congrArg (e :: ·) hnew, ?_⟩ }
  exact List.forall_mem_cons.mpr ⟨he, htime⟩

/-- One more event that bears no time. -/
theorem note_none {e : WriterEvent} (h : Dated now u w) (he : e.time? = none) :
    Dated now u (w.note e) :=
  h.note fun _ ht => absurd (he.symm.trans ht) nofun

/-- The consumer goes elsewhere, and gathers nothing there. -/
theorem leave (h : Dated now u w) (consumer : Consumer) (hc : ∀ due, consumer ≠ .gathering due) :
    Dated now u { w with consumer } :=
  { h with gathering_or_due_le := fun due hdue => absurd hdue (hc due) }

/-- The timer is set. -/
theorem gathering (h : Dated now u w) {due : Nat}
    (hd : due ≤ now * 1000000 + w.limits.interval.nanoseconds) :
    Dated now u { w with consumer := .gathering due } := by
  refine { h with gathering_or_due_le := fun due' hdue => .inr ?_ }
  obtain rfl := Consumer.gathering.inj hdue
  rwa [h.limits_eq] at hd

/-! ### Flushing -/

/-- Asking the store bears the time. -/
theorem ask (h : Dated now u w) (f : Flight) (pending : Pending) :
    Dated now u (w.ask now f pending) :=
  { h.note (e := .asked now (pending.request f.batch)) (by rintro _ ⟨rfl⟩; rfl) with }

/-- So does the beginning of an attempt. -/
theorem beginAttempt (h : Dated now u w) (f : Flight) : Dated now u (w.beginAttempt now f) :=
  (h.note (e := .attempted now f.attempt) (by rintro _ ⟨rfl⟩; rfl)).ask _ _

/-- So does handing a batch over. -/
theorem handOver (h : Dated now u w) (trigger : Trigger) (batch : List Record) :
    Dated now u (w.handOver now trigger batch) :=
  (h.note_none (e := .handedOver trigger batch) rfl).beginAttempt _

/-- After a full batch the timer is set from now. -/
theorem resume (h : Dated now u w) (trigger : Trigger) : Dated now u (w.resume now trigger) := by
  cases trigger with
  | size => exact { h.gathering (Nat.le_refl _) with }
  | timer => exact { h with }
  | shutdown => exact h.leave .ended nofun
  | drain => exact h

/-- Success bears no other time. -/
theorem succeed (h : Dated now u w) (f : Flight) : Dated now u (w.succeed now f) := by
  refine Dated.resume ?_ f.trigger
  exact { h.note_none (e := .committed f.trigger f.batch) rfl with }

/-- Neither does giving up. -/
theorem giveUp (h : Dated now u w) (f : Flight) (why : Failure) :
    Dated now u (w.giveUp now f why) := by
  refine Dated.resume (Dated.note_none ?_ rfl) f.trigger
  exact { h.note_none (e := .dropped f.trigger f.batch) rfl with }

/-- Neither does a rest. -/
theorem rest (h : Dated now u w) (f : Flight) (why : Failure) : Dated now u (w.rest now f why) :=
  note_none { h with } rfl

/-- The failure of an attempt bears the time. -/
theorem failAttempt (h : Dated now u w) (f : Flight) (why : Failure) :
    Dated now u (w.failAttempt now f why) := by
  have hfailed := h.note (e := .attemptFailed now f.attempt why) (by rintro _ ⟨rfl⟩; rfl)
  unfold Writer.failAttempt
  dsimp only
  split
  · refine Dated.rest ?_ f why
    exact { hfailed with }
  · refine Dated.giveUp ?_ f why
    exact { hfailed with }

/-- So does what is done when the store has done as it was asked. -/
theorem proceed (h : Dated now u w) (f : Flight) (pending : Pending) :
    Dated now u (w.proceed now f pending) := by
  cases pending with
  | begin | insert => exact h.ask ..
  | commit => exact h.succeed f
  | rollback cause => exact h.failAttempt f cause

/-- So does what is done when it has refused. -/
theorem refuse (h : Dated now u w) (f : Flight) (pending : Pending) (why : Failure) :
    Dated now u (w.refuse now f pending why) := by
  cases pending with
  | begin | commit => exact h.failAttempt ..
  | insert => exact h.ask ..
  | rollback cause => exact (h.note_none rfl).failAttempt f cause

/-- An answer of the store bears the time. -/
theorem receive (h : Dated now u w) (f : Flight) (pending : Pending) :
    Dated now u (w.receive now f pending) := by
  rcases hs : w.store.answer w.state (pending.request f.batch) with ⟨reply, s⟩
  have hheard : Dated now u (w.hear now (pending.request f.batch) reply s) :=
    { h.note (e := .answered now (pending.request f.batch) reply) (by rintro _ ⟨rfl⟩; rfl) with }
  simp only [Writer.receive, hs]
  cases reply with
  | done => exact hheard.proceed f pending
  | failed why => exact hheard.refuse f pending why
  | crashed =>
    have hgone : ∀ due, (if f.trigger = .drain then .stopped else .crashed) ≠
        Consumer.gathering due := by
      intro due h
      split at h <;> cases h
    exact { hheard.leave _ hgone with }

/-- A turn of a flush bears the time. -/
theorem flightTurn? {f : Flight} (h : w.flightTurn? now f = some u) : Dated now w u := by
  unfold Writer.flightTurn? at h
  split at h
  · split at h
    · obtain rfl := Option.some.inj h
      exact (refl w).receive ..
    · split at h
      · obtain rfl := Option.some.inj h
        exact (refl w).failAttempt ..
      · exact absurd h nofun
  · split at h
    · obtain rfl := Option.some.inj h
      exact (refl w).beginAttempt _
    · exact absurd h nofun

/-! ### Gathering and draining -/

/-- Handing over what has been gathered bears the time. -/
theorem handOverBatch (h : Dated now u w) (trigger : Trigger) :
    Dated now u (w.handOverBatch now trigger) :=
  Dated.handOver (w := w.takeBatch) { h with } ..

/-- So does taking a record. -/
theorem gather (h : Dated now u w) (record : Record) (queue : List Record) :
    Dated now u (w.gather now record queue) := by
  unfold Writer.gather
  dsimp only
  split
  · refine Dated.handOverBatch ?_ .size
    exact { h with }
  · exact { h with }

/-- A timer that was due is due again within the interval from now. -/
theorem tick (h : Dated now u w) {due : Nat} (hd : due ≤ now * 1000000) :
    Dated now u (w.tick now due) := by
  have hset := h.gathering (nextDue_le hd w.limits.interval.nanoseconds)
  unfold Writer.tick
  dsimp only
  split
  · exact { hset with }
  · exact hset.handOverBatch .timer

/-- A turn of a consumer that gathers bears the time. -/
theorem gatherTurn? {due : Nat} (h : w.gatherTurn? now due = some u) : Dated now w u := by
  unfold Writer.gatherTurn? at h
  split at h
  · obtain rfl := Option.some.inj h
    split
    · exact Dated.leave (w := w.takeBatch) { refl w with } .ended nofun
    · exact (refl w).handOverBatch .shutdown
  · split at h
    · obtain rfl := Option.some.inj h
      exact (refl w).gather ..
    · split at h
      next hd =>
        obtain rfl := Option.some.inj h
        exact (refl w).tick hd
      · exact absurd h nofun

/-- A turn of a stop bears the time. -/
theorem drainTurn : Dated now w (w.drainTurn now) := by
  unfold Writer.drainTurn
  split
  · exact { (refl w).leave .stopped nofun with }
  · refine Dated.handOver ?_ .drain _
    exact { refl w with }

/-- **A turn at time `now` bears that time.** -/
theorem turn? (h : w.turn? now = some u) : Dated now w u := by
  unfold Writer.turn? at h
  split at h
  · exact flightTurn? h
  · split at h
    · obtain rfl := Option.some.inj h
      exact (refl w).gathering (Nat.le_refl _)
    · exact gatherTurn? h
    · split at h
      · obtain rfl := Option.some.inj h
        exact drainTurn
      · exact absurd h nofun
    · split at h
      · obtain rfl := Option.some.inj h
        exact drainTurn
      · exact absurd h nofun
    · split at h
      · obtain rfl := Option.some.inj h
        exact note_none { (refl w).leave .ended nofun with } rfl
      · exact absurd h nofun
    · exact absurd h nofun

end Dated

end Writer

end LinkQuality
