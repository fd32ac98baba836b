import LinkQuality.Proofs.Writer.Clock
import LinkQuality.Proofs.Writer.Courses

/-!
# Flushes keep to their schedule

A writer is on schedule (`Writer.OnSchedule`) if all its flushes that are over are settled and have
been counted, and if the flush under way stands where its attempts say: it waits for the store while
the present attempt has time left, or it rests after a failure for as long as it is due.

What a flush does is taken one deed at a time, and each deed keeps the writer on schedule. Then
comes a turn, whatever it is (`Writer.OnSchedule.turn`), and the clock, that passes neither the end
of a rest nor the end of an attempt (`Writer.OnSchedule.lapse`). So every step of a run keeps to the
schedule (`Clocked.Punctual.step`).
-/

namespace LinkQuality

/-! ## What has been counted -/

/-- **What became of flushes, counted.** -/
structure Counted (stats : WriterStats) (cs : List Course) : Prop where
  batchesCommitted_eq : stats.batchesCommitted = (batchesEnded .committed cs).length
  recordsCommitted_eq : stats.recordsCommitted = (batchesEnded .committed cs).flatten.length
  flushFailures_eq : stats.flushFailures = (batchesEnded .dropped cs).length
  droppedAfterRetries_eq : stats.droppedAfterRetries = (batchesEnded .dropped cs).flatten.length

/-- **Flushes that are over**, and the counts of them. -/
structure Reckoned (limits : Limits) (stats : WriterStats) (cs : List Course) : Prop where
  settled : ∀ c ∈ cs, c.Settled limits
  counted : Counted stats cs

variable {limits : Limits} {stats : WriterStats} {cs : List Course}

/-- What is not over yet is not counted. -/
theorem Counted.concat (h : Counted stats cs) {c : Course} (hfate : c.fate = none) :
    Counted stats (cs ++ [c]) := by
  have hended : ∀ fate, batchesEnded fate (cs ++ [c]) = batchesEnded fate cs := by
    intro fate
    rw [batchesEnded_concat, hfate, if_neg nofun, List.append_nil]
  constructor <;> rw [hended]
  exacts [h.batchesCommitted_eq, h.recordsCommitted_eq, h.flushFailures_eq,
    h.droppedAfterRetries_eq]

/-- **The end of a flush is counted once**, for the whole batch. -/
theorem Counted.settle (h : Counted stats cs) (c : Course) (fate : Fate)
    (hfate : c.fate = some fate) :
    Counted (stats.settle c.batch.length fate) (cs ++ [c]) where
  batchesCommitted_eq := by
    cases fate <;> simp [WriterStats.settle, batchesEnded_concat, hfate, h.batchesCommitted_eq]
  recordsCommitted_eq := by
    cases fate <;> simp [WriterStats.settle, batchesEnded_concat, hfate, h.recordsCommitted_eq]
  flushFailures_eq := by
    cases fate <;> simp [WriterStats.settle, batchesEnded_concat, hfate, h.flushFailures_eq]
  droppedAfterRetries_eq := by
    cases fate <;> simp [WriterStats.settle, batchesEnded_concat, hfate, h.droppedAfterRetries_eq]

/-- It is one more flush that is over. -/
theorem Reckoned.settle (h : Reckoned limits stats cs) (c : Course) (fate : Fate)
    (hfate : c.fate = some fate) (hc : c.Settled limits) :
    Reckoned limits (stats.settle c.batch.length fate) (cs ++ [c]) where
  settled := List.forall_mem_append.mpr ⟨h.settled, List.forall_mem_singleton.mpr hc⟩
  counted := h.counted.settle c fate hfate

/-! ## The flush under way -/

/-- Does a rollback wait for its answer? -/
def Pending.rollsBack : Pending → Bool
  | rollback _ => true
  | begin | insert .. | commit => false

/-- Not while there is something left to do. -/
theorem Pending.rollsBack_next (rest : List Record) : (next rest).rollsBack = false := by
  cases rest <;> rfl

/-- **How far the present attempt has come** at time `now`: it waits for the store, has time left
and has not missed the answer, and what was refused, if anything, is being rolled back; or it has
failed and its wait is not over. -/
def Attempt.Stands (limits : Limits) (now : Nat) (f : Flight) (a : Attempt) : Prop :=
  match f.phase with
  | .asking pending ready => (a.ended = none ∧ a.waiting = true ∧ a.refused = pending.rollsBack) ∧
      (∀ t ∈ ready, now ≤ t) ∧ a.began ≤ now ∧ now ≤ f.deadline ∧
      f.deadline = a.began + limits.timeout.ceilMillis
  | .resting wake => now ≤ wake ∧ a.number < limits.backoff.maxAttempts ∧
      ∃ t, a.ended = some ⟨t, false⟩ ∧ wake = t + (limits.backoff.delayAfter a.number).ceilMillis

namespace Writer

variable {σ : Type}

/-- **A flush as the history shows it**, after those that are over: with the attempts `earlier` and
the present one. -/
structure OnCourse (w : Writer σ) (f : Flight) (past : List Course) (earlier : List Attempt)
    (a : Attempt) : Prop where
  courses_eq : w.courses = past ++ [⟨f.trigger, f.batch, earlier ++ [a], none⟩]
  reckoned : Reckoned w.limits w.stats past
  scheduled : Scheduled w.limits (earlier ++ [a])
  number_eq : a.number = f.attempt

/-- **A writer whose flushes keep to their schedule**, at time `now`. -/
def OnSchedule (now : Nat) (w : Writer σ) : Prop :=
  match w.flight with
  | none => Reckoned w.limits w.stats w.courses
  | some f => ∃ past earlier a, w.OnCourse f past earlier a ∧ a.Stands w.limits now f

variable {now : Nat} {w v : Writer σ} {f : Flight} {past : List Course} {earlier : List Attempt}
  {a : Attempt}

/-- What does not concern flushes leaves them on schedule. -/
theorem OnSchedule.keep (hw : OnSchedule now w) (hf : v.flight = w.flight)
    (hl : v.limits = w.limits) (hc : v.courses = w.courses)
    (hs : ∀ cs, Reckoned w.limits w.stats cs → Reckoned w.limits v.stats cs) :
    OnSchedule now v := by
  unfold OnSchedule at hw ⊢
  rw [hf, hl]
  cases hflight : w.flight with
  | none =>
    rw [hflight] at hw
    rw [hc]
    exact hs _ hw
  | some f =>
    rw [hflight] at hw
    obtain ⟨past, earlier, a, hcourse, hstands⟩ := hw
    refine ⟨past, earlier, a, ⟨hc.trans hcourse.courses_eq, ?_, ?_, hcourse.number_eq⟩, hstands⟩
    · rw [hl]
      exact hs _ hcourse.reckoned
    · rw [hl]
      exact hcourse.scheduled

/-- An event adds to the course of the flush. -/
theorem OnCourse.courses_note (h : w.OnCourse f past earlier a) {e : WriterEvent}
    (he : e.handover? = none) :
    (w.note e).courses = past ++ [e.amend ⟨f.trigger, f.batch, earlier ++ [a], none⟩] := by
  have hcourses := h.courses_eq
  rw [courses] at hcourses ⊢
  rw [Writer.note, courses_cons he, hcourses, List.modifyLast_concat]

/-- **An event changes the present attempt**, which keeps to its time. -/
theorem OnCourse.note (h : w.OnCourse f past earlier a) (e : WriterEvent)
    (change : Attempt → Attempt) (he : e.handover? = none) (hamend : e.amend = Course.revise change)
    (hnumber : (change a).number = a.number) (hbegan : (change a).began = a.began)
    (hends : (change a).EndsDuly w.limits.timeout) :
    (w.note e).OnCourse f past earlier (change a) :=
  { h with
    courses_eq := by rw [h.courses_note he, hamend, Course.revise_concat]
    scheduled := h.scheduled.revise hnumber hbegan hends
    number_eq := hnumber.trans h.number_eq }

/-- An event adds nothing to the course of the flush. -/
theorem OnCourse.note_of_amend (h : w.OnCourse f past earlier a) (e : WriterEvent)
    (he : e.handover? = none) (hamend : ∀ c, e.amend c = c) :
    (w.note e).OnCourse f past earlier a :=
  { h with courses_eq := (courses_cons_of_amend he hamend _).trans h.courses_eq }

/-- The store is asked for something. -/
theorem OnCourse.ask (h : w.OnCourse f past earlier a) (ha : a.ended = none) (now : Nat)
    (pending : Pending) : (w.ask now f pending).OnCourse f past earlier a.ask :=
  { h.note (.asked now (pending.request f.batch)) .ask rfl rfl rfl rfl
      (Attempt.endsDuly_of_ended_eq_none ha) with }

/-- The store answers while the present attempt goes on. -/
theorem OnCourse.hear (h : w.OnCourse f past earlier a) (ha : a.ended = none) (now : Nat)
    (request : Request) (reply : Reply) (state : σ)
    (hamend : (WriterEvent.answered now request reply).amend = Course.revise (.hear reply)) :
    (w.hear now request reply state).OnCourse f past earlier (a.hear reply) :=
  { h.note (.answered now request reply) (.hear reply) rfl hamend rfl rfl
      (Attempt.endsDuly_of_ended_eq_none ha) with }

/-- The present attempt fails, in time. -/
theorem OnCourse.fail (h : w.OnCourse f past earlier a) (number : Nat) (why : Failure)
    (hbegan : a.began ≤ now) (hle : now ≤ a.began + w.limits.timeout.ceilMillis)
    (hwaiting : a.waiting = true → now = a.began + w.limits.timeout.ceilMillis)
    (hcause : a.waiting = true ∨ a.refused = true) :
    (w.note (.attemptFailed now number why)).OnCourse f past earlier (a.finish now false) :=
  h.note (.attemptFailed now number why) (.finish now false) rfl rfl rfl rfl
    (Attempt.endsDuly_finish hbegan hle hwaiting (by rcases hcause with h | h <;> simp [h]))

/-- An answer comes no earlier than it is asked for. -/
theorem le_of_mem_map {t : Nat} {delay : Option Nat} (h : t ∈ delay.map (now + ·)) : now ≤ t := by
  obtain ⟨d, -, rfl⟩ := Option.mem_map.mp h
  exact Nat.le_add_right now d

/-- The store answers, the present attempt goes on, and the store is asked for the next thing; once
it has refused something, that is a rollback. -/
theorem OnSchedule.ask_hear {pending next : Pending} {ready : Option Nat} {request : Request}
    {reply : Reply} {state : σ} (hw : OnSchedule now w) (hf : w.flight = some f)
    (hp : f.phase = .asking pending ready)
    (hamend : (WriterEvent.answered now request reply).amend = Course.revise (.hear reply))
    (hnext : next.rollsBack = (pending.rollsBack || reply.refuses)) :
    OnSchedule now ((w.hear now request reply state).ask now f next) := by
  rw [OnSchedule, hf] at hw
  obtain ⟨past, earlier, a, hcourse, hstands⟩ := hw
  rw [Attempt.Stands, hp] at hstands
  obtain ⟨⟨hended, -, hrefused⟩, -, htimes⟩ := hstands
  have hasked := (hcourse.hear hended now request reply state hamend).ask hended now next
  refine ⟨past, earlier, _, { hasked with }, ⟨hended, rfl, ?_⟩, fun _ => le_of_mem_map, htimes⟩
  rw [hnext, ← hrefused]
  rfl

/-- A flush begins with its first attempt. -/
theorem onSchedule_handOver (trigger : Trigger) (batch : List Record) (hw : OnSchedule now w)
    (hf : w.flight = none) (hmax : 0 < w.limits.backoff.maxAttempts) (hl : v.limits = w.limits)
    (hs : v.stats = w.stats) (hh : v.history = w.history) :
    OnSchedule now (v.handOver now trigger batch) := by
  rw [OnSchedule, hf] at hw
  have hlimits : (v.handOver now trigger batch).limits = w.limits := hl
  have hstats : (v.handOver now trigger batch).stats = w.stats := hs
  refine ⟨w.courses, [], { number := 1, began := now, waiting := true }, ⟨?_, ?_, ?_, rfl⟩, ?_⟩
  · have hcourses : (v.handOver now trigger batch).courses = LinkQuality.courses
        (.asked now .begin :: .attempted now 1 :: .handedOver trigger batch :: w.history) := by
      rw [← hh]
      rfl
    rw [hcourses, courses_cons rfl, courses_cons rfl, LinkQuality.courses, List.modifyLast_concat,
      List.modifyLast_concat]
    rfl
  · rw [hlimits, hstats]
    exact hw
  · rw [hlimits]
    exact scheduled_singleton hmax rfl rfl
  · rw [hlimits]
    exact ⟨⟨rfl, rfl, rfl⟩, fun _ => le_of_mem_map, Nat.le_refl _, Nat.le_add_right ..,
      congrArg (now + ·.timeout.ceilMillis) hl⟩

/-- **The present attempt fails**, in time. -/
theorem Failing.exists_onCourse {why : Failure} {heard : List WriterEvent} {s : σ}
    (h : Failing now w f why heard s) (hw : OnSchedule now w) (hf : w.flight = some f) :
    ∃ past earlier a, (w.noteFailure now f why heard s).OnCourse f past earlier a ∧
      a.ended = some ⟨now, false⟩ := by
  rw [OnSchedule, hf] at hw
  obtain ⟨past, earlier, a, hcourse, hstands⟩ := hw
  obtain ⟨pending, ready, hp⟩ := h.asking
  rw [Attempt.Stands, hp] at hstands
  obtain ⟨⟨hended, hwaiting, hrefused⟩, -, hbegan, hdeadline, hexpiry⟩ := hstands
  have hle : now ≤ a.began + w.limits.timeout.ceilMillis := hexpiry ▸ hdeadline
  have hanswered : ∀ request reply why,
      (WriterEvent.answered now request reply).amend = Course.revise (.hear reply) →
      (a.refused || reply.refuses) = true →
      ∃ a, (w.noteFailure now f why [.answered now request reply] s).OnCourse f past earlier a ∧
        a.ended = some ⟨now, false⟩ := by
    intro request reply why hamend hcause
    have hheard := hcourse.hear hended now request reply s hamend
    exact ⟨_, { hheard.fail f.attempt why hbegan hle nofun (.inr hcause) with }, rfl⟩
  have hrollback : ∀ {cause ready'}, f.phase = .asking (.rollback cause) ready' →
      a.refused = true := by
    intro cause ready' hp'
    obtain ⟨rfl, -⟩ := Phase.asking.inj (hp.symm.trans hp')
    exact hrefused
  refine ⟨past, earlier, ?_⟩
  cases h with
  | timeUp hp hd =>
    -- the call that was awaited has not been answered
    have hfailed := hcourse.fail f.attempt (timedOut w.limits) hbegan hle (fun _ => by omega)
      (.inl hwaiting)
    exact ⟨_, { hfailed with }, rfl⟩
  | beginning | committing => exact hanswered _ _ _ rfl (Bool.or_true _)
  | rolledBack hp' => exact hanswered _ _ _ rfl (by rw [hrollback hp', Bool.true_or])
  | @rollbackFailed _ _ why hp' =>
    have hheard := hcourse.hear hended now .rollback (.failed why) s rfl
    have htold := hheard.note_of_amend (.told (.rollbackFailed why)) rfl fun _ => rfl
    exact ⟨_, { htold.fail f.attempt _ hbegan hle nofun (.inr (Bool.or_true _)) with }, rfl⟩

/-- A flush ends, and what became of it is counted. -/
theorem OnCourse.finish (h : w.OnCourse f past earlier a) {e : WriterEvent} {fate : Fate}
    (he : e.handover? = none) (hamend : e.amend = Course.finish fate)
    (hbrings : a.Brings w.limits.backoff fate) :
    Reckoned w.limits (w.stats.settle f.batch.length fate) (w.note e).courses := by
  let c : Course := ⟨f.trigger, f.batch, earlier ++ [a], none⟩
  have hcourses : (w.note e).courses = past ++ [c.finish fate] := by
    rw [h.courses_note he, hamend]
  rw [hcourses]
  exact h.reckoned.settle (c.finish fate) fate rfl
    ⟨h.scheduled, earlier, a, fate, rfl, rfl, hbrings⟩

/-- A flush dies with an answer that nobody survives. -/
theorem OnCourse.crash (h : w.OnCourse f past earlier a) (ha : a.ended = none) (pending : Pending) :
    Reckoned w.limits w.stats
      (w.note (.answered now (pending.request f.batch) .crashed)).courses := by
  let c : Course := ⟨f.trigger, f.batch, earlier ++ [a.hear .crashed], none⟩
  have hamend : ∀ c, (WriterEvent.answered now (pending.request f.batch) .crashed).amend c =
      (c.revise (.hear .crashed)).finish .lost := by
    cases pending <;> exact fun _ => rfl
  have hcourses : (w.note (.answered now (pending.request f.batch) .crashed)).courses =
      past ++ [c.finish .lost] := by
    rw [h.courses_note rfl, hamend, Course.revise_concat]
  have hscheduled : Scheduled w.limits (earlier ++ [a.hear .crashed]) :=
    h.scheduled.revise rfl rfl (Attempt.endsDuly_of_ended_eq_none ha)
  rw [hcourses]
  exact h.reckoned.settle (c.finish .lost) .lost rfl
    ⟨hscheduled, earlier, a.hear .crashed, .lost, rfl, rfl, ha⟩

/-! ## What a flush does -/

/-- When a flush is over, its writer is on schedule. -/
theorem onSchedule_resume (trigger : Trigger) (hf : w.flight = none)
    (hw : Reckoned w.limits w.stats w.courses) : OnSchedule now (w.resume now trigger) := by
  have hresumed : (w.resume now trigger).flight = none := by
    cases trigger <;> exact hf
  rw [OnSchedule, hresumed]
  cases trigger <;> exact hw

/-- The commit goes well, in time. -/
theorem OnSchedule.succeed {ready : Option Nat} (hw : OnSchedule now w) (hf : w.flight = some f)
    (hp : f.phase = .asking .commit ready) (state : σ) :
    OnSchedule now ((w.hear now (.commit f.batch) .done state).succeed now f) := by
  rw [OnSchedule, hf] at hw
  obtain ⟨past, earlier, a, hcourse, hstands⟩ := hw
  rw [Attempt.Stands, hp] at hstands
  obtain ⟨⟨-, -, hrefused⟩, -, hbegan, hdeadline, hexpiry⟩ := hstands
  have hfine : (a.hear .done).refused = false := by
    rw [Attempt.hear, hrefused]
    rfl
  have hcommitted := hcourse.note (.answered now (.commit f.batch) .done)
    (fun a => (a.hear .done).finish now true) rfl rfl rfl rfl
    (Attempt.endsDuly_finish hbegan (hexpiry ▸ hdeadline) nofun
      (iff_of_true rfl ⟨rfl, hfine⟩))
  exact onSchedule_resume f.trigger rfl
    (hcommitted.finish (e := .committed f.trigger f.batch) rfl rfl rfl)

/-- A failure is followed by a wait where there may be another attempt. -/
theorem OnSchedule.rest {why : Failure} {heard : List WriterEvent} {s : σ} (hw : OnSchedule now w)
    (hf : w.flight = some f) (hwhy : Failing now w f why heard s)
    (hr : w.limits.backoff.retries f.attempt = true) :
    OnSchedule now ((w.noteFailure now f why heard s).rest now f why) := by
  obtain ⟨past, earlier, a, hcourse, hended⟩ := hwhy.exists_onCourse hw hf
  have hretry : f.attempt < w.limits.backoff.maxAttempts := by simpa [Backoff.retries] using hr
  refine ⟨past, earlier, a, { hcourse.note_of_amend (.told _) rfl fun _ => rfl with },
    Nat.le_add_right .., ?_, now, hended, ?_⟩
  · rw [hcourse.number_eq]
    exact hretry
  · rw [hcourse.number_eq]
    rfl

/-- Where there may not, the batch is dropped at once. -/
theorem OnSchedule.giveUp {why : Failure} {heard : List WriterEvent} {s : σ}
    (hw : OnSchedule now w) (hf : w.flight = some f) (hwhy : Failing now w f why heard s)
    (hr : w.limits.backoff.retries f.attempt = false) :
    OnSchedule now ((w.noteFailure now f why heard s).giveUp now f why) := by
  obtain ⟨past, earlier, a, hcourse, hended⟩ := hwhy.exists_onCourse hw hf
  have hlast : a.number = w.limits.backoff.maxAttempts := by
    have hle : w.limits.backoff.maxAttempts ≤ f.attempt := by simpa [Backoff.retries] using hr
    exact Nat.le_antisymm hcourse.scheduled.number_le (hcourse.number_eq ▸ hle)
  have hdropped := hcourse.finish (e := .dropped f.trigger f.batch) rfl rfl ⟨hlast, now, hended⟩
  refine onSchedule_resume f.trigger rfl ?_
  rw [tell, note, courses, courses_cons_of_amend rfl fun _ => rfl]
  exact hdropped

/-- **The next attempt begins when the wait is over.** -/
theorem OnSchedule.retry {wake : Nat} (hw : OnSchedule now w) (hf : w.flight = some f)
    (hp : f.phase = .resting wake) (hwake : wake ≤ now) :
    OnSchedule now (w.beginAttempt now { f with attempt := f.attempt + 1 }) := by
  rw [OnSchedule, hf] at hw
  obtain ⟨past, earlier, a, hcourse, hstands⟩ := hw
  rw [Attempt.Stands, hp] at hstands
  obtain ⟨hle, hnumber, t, hended, hrested⟩ := hstands
  let b : Attempt := { number := f.attempt + 1, began := now, waiting := true }
  have hprecedes : a.Precedes w.limits.backoff b :=
    ⟨t, hended, congrArg (· + 1) hcourse.number_eq.symm, by simp only [b]; omega⟩
  refine ⟨past, earlier ++ [a], b, ⟨?_, hcourse.reckoned, ?_, rfl⟩, ?_⟩
  · have hcourses : (w.beginAttempt now { f with attempt := f.attempt + 1 }).courses =
        LinkQuality.courses
          (.asked now .begin :: .attempted now (f.attempt + 1) :: w.history) := rfl
    rw [hcourses, courses_cons rfl, courses_cons rfl, ← courses, hcourse.courses_eq,
      List.modifyLast_concat, List.modifyLast_concat]
    exact congrArg (past ++ [·]) (Course.revise_concat ..)
  · exact hcourse.scheduled.concat hprecedes hnumber rfl
  · exact ⟨⟨rfl, rfl, rfl⟩, fun _ => le_of_mem_map, Nat.le_refl _, Nat.le_add_right .., rfl⟩

/-- A flush that dies is over. -/
theorem OnSchedule.crash {pending : Pending} {ready : Option Nat} (hw : OnSchedule now w)
    (hf : w.flight = some f) (hp : f.phase = .asking pending ready) (state : σ) :
    OnSchedule now ((w.hear now (pending.request f.batch) .crashed state).crash f) := by
  rw [OnSchedule, hf] at hw
  obtain ⟨past, earlier, a, hcourse, hstands⟩ := hw
  rw [Attempt.Stands, hp] at hstands
  exact hcourse.crash hstands.1.1 pending

/-! ## Every step -/

/-- A rest ends no earlier than it was meant to. -/
theorem wake_le_of_turn? {wake : Nat} (hf : w.flight = some f) (hp : f.phase = .resting wake)
    (h : w.turn? now = some v) : wake ≤ now := by
  simp only [turn?, hf, flightTurn?, hp] at h
  split at h
  · assumption
  · cases h

/-- **A turn keeps flushes on schedule.** -/
theorem OnSchedule.turn (hturn : w.turn? now = some v) (hsound : Sound w)
    (hmax : 0 < w.limits.backoff.maxAttempts) (hw : OnSchedule now w) : OnSchedule now v := by
  -- a step leaves the time open; that it is the present one is told by an event that bears it
  have hdated := Dated.turn? hturn
  cases step_turn? hturn with
  | wake | gather | pass | finish | settle => exact hw.keep rfl rfl rfl fun _ h => h
  | mourn hf hc hl =>
    have hlost : w.mourn.stats = w.stats := by rw [mourn, (hsound.held_of_crashed hl).2]; rfl
    exact hw.keep rfl rfl (courses_cons_of_amend rfl (fun _ => rfl) _) fun _ h => hlost ▸ h
  | fill now' hf | tick now' hf | shut now' hf | drain now' hf =>
    obtain rfl := hdated.time_eq [_, _, _] rfl List.mem_cons_self rfl
    exact onSchedule_handOver _ _ hw hf hmax rfl rfl rfl
  | begun now' hf hp | inserted now' hf hp =>
    obtain rfl := hdated.time_eq [_, _] rfl List.mem_cons_self rfl
    exact hw.ask_hear hf hp rfl (Pending.rollsBack_next _)
  | rollBack now' hf hp =>
    obtain rfl := hdated.time_eq [_, _] rfl List.mem_cons_self rfl
    exact hw.ask_hear hf hp rfl rfl
  | @commit now' f ready s hf hp hs =>
    have hhistory : ((w.hear now' (.commit f.batch) .done s).succeed now' f).history =
        [.committed f.trigger f.batch, .answered now' (.commit f.batch) .done] ++ w.history :=
      history_resume ..
    obtain rfl :=
      hdated.time_eq (e := .answered now' (.commit f.batch) .done) _ hhistory (by simp) rfl
    exact hw.succeed hf hp s
  | @rest now' f why heard s hf hwhy hr =>
    obtain rfl := hdated.time_eq (e := .attemptFailed now' f.attempt why)
      (.told _ :: .attemptFailed now' f.attempt why :: heard) rfl (by simp) rfl
    exact hw.rest hf hwhy hr
  | @giveUp now' f why heard s hf hwhy hr =>
    have hhistory : ((w.noteFailure now' f why heard s).giveUp now' f why).history =
        (.told (.dropping w.store.name f.batch.length f.attempt f.trigger why) ::
          .dropped f.trigger f.batch :: .attemptFailed now' f.attempt why :: heard) ++ w.history :=
      history_resume ..
    obtain rfl :=
      hdated.time_eq (e := .attemptFailed now' f.attempt why) _ hhistory (by simp) rfl
    exact hw.giveUp hf hwhy hr
  | retry now' hf hp =>
    obtain rfl := hdated.time_eq [_, _] rfl List.mem_cons_self rfl
    exact hw.retry hf hp (wake_le_of_turn? hf hp hturn)
  | crash now' hf hp =>
    obtain rfl := hdated.time_eq [_] rfl List.mem_cons_self rfl
    exact hw.crash hf hp _

/-- The clock does not pass the end of a wait, nor that of an attempt. -/
theorem OnSchedule.lapse {later : Nat} (hle : now ≤ later)
    (hwake : ∀ t, w.wakeTime? = some t → later ≤ max now t) (hw : OnSchedule now w) :
    OnSchedule later w := by
  unfold OnSchedule at hw ⊢
  cases hf : w.flight with
  | none =>
    rw [hf] at hw
    exact hw
  | some f =>
    rw [hf] at hw
    obtain ⟨past, earlier, a, hcourse, hstands⟩ := hw
    refine ⟨past, earlier, a, hcourse, ?_⟩
    simp only [wakeTime?, hf] at hwake
    unfold Attempt.Stands at hstands ⊢
    split
    next pending ready hp =>
      simp only [hp] at hwake hstands
      obtain ⟨hcalls, hanswer, hbegan, hdeadline, hexpiry⟩ := hstands
      cases ready with
      | none =>
        have hlater := hwake f.deadline rfl
        exact ⟨hcalls, nofun, hbegan.trans hle, by omega, hexpiry⟩
      | some ready =>
        have hlater := hwake (min ready f.deadline) rfl
        have hready := hanswer ready rfl
        refine ⟨hcalls, ?_, hbegan.trans hle, by omega, hexpiry⟩
        rintro _ ⟨rfl⟩
        omega
    next wake hp =>
      simp only [hp] at hwake hstands
      obtain ⟨hnow, hrested⟩ := hstands
      have hlater := hwake wake rfl
      exact ⟨by omega, hrested⟩

end Writer

namespace Clocked

variable {σ : Type} {x y : Clocked σ}

/-- **A writer on a clock whose flushes keep to their schedule.** -/
structure Punctual (x : Clocked σ) : Prop where
  sound : x.writer.Sound
  maxAttempts_pos : 0 < x.writer.limits.backoff.maxAttempts
  onSchedule : x.writer.OnSchedule x.now

/-- At first there has been no flush. -/
theorem punctual_ofSettings (s : WriterSettings) (store : Store σ) (state : σ) :
    (ofSettings s store state).Punctual where
  sound := Writer.sound_ofSettings s store state
  maxAttempts_pos := Nat.le_max_right ..
  onSchedule := ⟨fun _ h => absurd h List.not_mem_nil, rfl, rfl, rfl, rfl⟩

/-- **Each step keeps flushes on schedule.** -/
theorem Punctual.step (h : Step x y) (hx : x.Punctual) : y.Punctual := by
  obtain ⟨hsound, hmax, hschedule⟩ := hx
  have hreaches := reaches_of_step h
  refine ⟨hreaches.keeps Writer.Sound.step hsound, by rwa [Writer.limits_of_reaches hreaches], ?_⟩
  cases h with
  | idle => exact hschedule
  | produce hs =>
    have hnone : ∀ e : WriterEvent, e.handover? = none → (∀ c, e.amend c = c) →
        courses (e :: x.writer.history) = x.writer.courses := fun e he hamend =>
      courses_cons_of_amend he hamend _
    cases hs with
    | accept | overflow =>
      exact hschedule.keep rfl rfl (hnone _ rfl fun _ => rfl) fun _ h =>
        ⟨h.settled, { h.counted with }⟩
    | refuse => exact hschedule.keep rfl rfl rfl fun _ h => h
  | own hs =>
    cases hs with
    | announce =>
      exact hschedule.keep rfl rfl (courses_cons_of_amend rfl (fun _ => rfl) _) fun _ h => h
    | spawn | close | drift => exact hschedule.keep rfl rfl rfl fun _ h => h
  | turn h => exact hschedule.turn h hsound hmax
  | lapse hle hwake => exact hschedule.lapse hle hwake

end Clocked

end LinkQuality
