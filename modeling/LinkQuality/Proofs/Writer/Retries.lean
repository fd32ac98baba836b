import LinkQuality.Proofs.Writer.Conservation
import LinkQuality.Proofs.Writer.Schedule
import LinkQuality.Store.Scripted

/-!
# Every flush ends as it should

A writer whose flushes have kept to their schedule so far says nothing of a flush that waits and
waits. So here are the two things that make a flush end. A call of the store ends when its answer
comes or when the time of the attempt is up, whichever is first (`Clocked.Awaits.after`): the clock
does not pass either, and nothing but a turn of the flush takes it on. And each turn leaves less for
a flush to do (`Writer.flight_of_work`), as there are only so many records to insert, and only so
many attempts (`Clocked.exists_goOn_landed`).

With the schedule this says of every batch how many attempts it takes, when each of them begins and
ends, and what is counted in the end (`Clocked.keepsSchedule_after`).
-/

namespace LinkQuality

variable {σ : Type} {f : Flight}

/-! ## The calls of a flush -/

namespace Writer

/-- An answer that is heard is noted with the time, whatever comes of it. -/
theorem exists_history_receive (now : Nat) (f : Flight) (pending : Pending) (w : Writer σ) :
    ∃ reply new, (w.receive now f pending).history =
      new ++ .answered now (pending.request f.batch) reply :: w.history := by
  rcases hs : w.store.answer w.state (pending.request f.batch) with ⟨reply, s⟩
  simp only [receive, hs]
  refine ⟨reply, ?_⟩
  cases reply with
  | done =>
    have hheard : Dated now _ _ := Dated.refl (w.hear now (pending.request f.batch) .done s)
    obtain ⟨new, hnew, -⟩ := (hheard.proceed f pending).exists_history_eq
    exact ⟨new, hnew⟩
  | failed why =>
    have hheard : Dated now _ _ := Dated.refl (w.hear now (pending.request f.batch) (.failed why) s)
    obtain ⟨new, hnew, -⟩ := (hheard.refuse f pending why).exists_history_eq
    exact ⟨new, hnew⟩
  | crashed => exact ⟨[], rfl⟩

/-- So is the failure of an attempt. -/
theorem exists_history_failAttempt (now : Nat) (f : Flight) (why : Failure) (w : Writer σ) :
    ∃ new, (w.failAttempt now f why).history =
      new ++ .attemptFailed now f.attempt why :: w.history := by
  unfold failAttempt
  dsimp only
  split
  · exact ⟨[_], rfl⟩
  · exact ⟨[_, _], history_resume ..⟩

end Writer

namespace Clocked

variable {x y : Clocked σ}

/-- **How a call ends that a flush waits for**, as the events since then show it: an answer that
comes in time is heard when it comes, and where none does the attempt fails when its time is up. -/
inductive CallEnds (limits : Limits) (f : Flight) (events : List WriterEvent) : Prop
  | answered {pending : Pending} {t : Nat} {reply : Reply}
    (hp : f.phase = .asking pending (some t)) (hle : t ≤ f.deadline)
    (hmem : .answered t (pending.request f.batch) reply ∈ events)
  | timedOut {pending : Pending} {ready : Option Nat} (hp : f.phase = .asking pending ready)
    (hlate : ∀ t ∈ ready, f.deadline < t)
    (hmem : .attemptFailed f.deadline f.attempt (Writer.timedOut limits) ∈ events)

/-- **A flush still waits for an answer**, and neither that nor the end of the attempt is past. -/
structure Awaits (x : Clocked σ) (f : Flight) (y : Clocked σ) : Prop where
  punctual : y.Punctual
  limits_eq : y.writer.limits = x.writer.limits
  flight_eq : y.writer.flight = some f
  exists_history_eq : ∃ events, y.writer.history = events ++ x.writer.history

variable {pending : Pending} {ready : Option Nat}

/-- The clock is past neither. -/
theorem Awaits.now_le (h : Awaits x f y) (hp : f.phase = .asking pending ready) :
    y.now ≤ f.deadline ∧ ∀ t ∈ ready, y.now ≤ t := by
  have hschedule := h.punctual.onSchedule
  rw [Writer.OnSchedule, h.flight_eq] at hschedule
  obtain ⟨past, earlier, a, -, hstands⟩ := hschedule
  rw [Attempt.Stands, hp] at hstands
  exact ⟨hstands.2.2.2.1, hstands.2.1⟩

/-- **A turn of a flush that waits for an answer ends its call.** -/
theorem Awaits.turn {w : Writer σ} (h : Awaits x f y) (hp : f.phase = .asking pending ready)
    (hturn : y.writer.turn? y.now = some w) :
    ∃ events, w.history = events ++ x.writer.history ∧ CallEnds x.writer.limits f events := by
  obtain ⟨hdeadline, hready⟩ := h.now_le hp
  obtain ⟨before, hbefore⟩ := h.exists_history_eq
  simp only [Writer.turn?, h.flight_eq, Writer.flightTurn?, hp] at hturn
  cases hcome : ready.any (· ≤ y.now) with
  | true =>
    rw [if_pos hcome] at hturn
    obtain rfl := Option.some.inj hturn
    obtain ⟨t, rfl⟩ : ∃ t, ready = some t := by
      cases ready with
      | none => cases hcome
      | some t => exact ⟨t, rfl⟩
    obtain ⟨reply, later, hlater⟩ := y.writer.exists_history_receive y.now f pending
    have hnow : y.now = t := Nat.le_antisymm (hready t rfl) (by simpa using hcome)
    have hmem : .answered t (pending.request f.batch) reply ∈
        later ++ .answered y.now (pending.request f.batch) reply :: before := by simp [hnow]
    refine ⟨_, ?_, .answered hp (hnow ▸ hdeadline) hmem⟩
    rw [hlater, hbefore, List.append_assoc, List.cons_append]
  | false =>
    rw [if_neg (by simp [hcome])] at hturn
    split at hturn
    next hd =>
      obtain rfl := Option.some.inj hturn
      have hnow : y.now = f.deadline := Nat.le_antisymm hdeadline hd
      obtain ⟨later, hlater⟩ :=
        y.writer.exists_history_failAttempt y.now f (Writer.timedOut y.writer.limits)
      have hmem : .attemptFailed f.deadline f.attempt (Writer.timedOut x.writer.limits) ∈
          later ++ .attemptFailed y.now f.attempt (Writer.timedOut y.writer.limits) :: before := by
        simp [hnow, h.limits_eq]
      refine ⟨_, ?_, .timedOut hp (fun t ht => ?_) hmem⟩
      · rw [hlater, hbefore, List.append_assoc, List.cons_append]
      · obtain rfl : ready = some t := ht
        rw [← hnow]
        simpa using hcome
    · cases hturn

/-- **Whatever happens, the flush still waits, or its call ends.** -/
theorem Awaits.step {z : Clocked σ} (hs : Step y z) (h : Awaits x f y)
    (hp : f.phase = .asking pending ready) :
    Awaits x f z ∨ ∃ events, z.writer.history = events ++ x.writer.history ∧
      CallEnds x.writer.limits f events := by
  have hpunctual := h.punctual.step hs
  have hlimits := (Writer.limits_of_reaches (reaches_of_step hs)).trans h.limits_eq
  obtain ⟨events, hevents⟩ := h.exists_history_eq
  have hcons : ∀ e : WriterEvent, e :: y.writer.history = (e :: events) ++ x.writer.history :=
    fun e => congrArg (e :: ·) hevents
  cases hs with
  | idle => exact .inl h
  | produce hs =>
    cases hs with
    | accept => exact .inl ⟨hpunctual, hlimits, h.flight_eq, _, hcons _⟩
    | overflow => exact .inl ⟨hpunctual, hlimits, h.flight_eq, _, hcons _⟩
    | refuse => exact .inl ⟨hpunctual, hlimits, h.flight_eq, _, hevents⟩
  | own hs =>
    cases hs with
    | announce => exact .inl ⟨hpunctual, hlimits, h.flight_eq, _, hcons _⟩
    | spawn | close | drift => exact .inl ⟨hpunctual, hlimits, h.flight_eq, _, hevents⟩
  | turn hturn => exact .inr (h.turn hp hturn)
  | lapse => exact .inl ⟨hpunctual, hlimits, h.flight_eq, _, hevents⟩

/-- **In every run the flush still waits, or its call has ended as it should.** -/
theorem Awaits.after (happenings : List (Happening σ)) (h : Awaits x f y)
    (hp : f.phase = .asking pending ready) :
    Awaits x f (y.after happenings) ∨ ∃ before later, happenings = before ++ later ∧
      ∃ events, (y.after before).writer.history = events ++ x.writer.history ∧
        CallEnds x.writer.limits f events :=
  after_or_exists (P := Awaits x f)
    (Q := fun z => ∃ events, z.writer.history = events ++ x.writer.history ∧
      CallEnds x.writer.limits f events)
    (fun hs hwaits => hwaits.step hs hp) happenings h

end Clocked

/-! ## The end of a flush -/

/-- A flush has less to do when it asks for the next thing. -/
theorem Flight.work_asking_lt {backoff : Backoff} {f : Flight} {pending next : Pending}
    {ready : Option Nat} (hp : f.phase = .asking pending ready)
    (h : next.work f.batch.length < pending.work f.batch.length) (ready' : Option Nat) :
    ({ f with phase := .asking next ready' } : Flight).work backoff < f.work backoff := by
  rw [work_of_asking hp, work_of_asking rfl]
  exact Nat.add_lt_add_left (Nat.succ_lt_succ h) _

/-- It has less to do when an attempt has failed. -/
theorem Flight.work_resting_lt {backoff : Backoff} {f : Flight} {pending : Pending}
    {ready : Option Nat} (hp : f.phase = .asking pending ready) (wake : Nat) :
    ({ f with phase := .resting wake } : Flight).work backoff < f.work backoff := by
  rw [work_of_asking hp]
  exact Nat.lt_add_of_pos_right (Nat.succ_pos _)

/-- It has less to do when the next attempt begins. -/
theorem Flight.work_retry_lt {backoff : Backoff} {f : Flight} {wake : Nat}
    (hp : f.phase = .resting wake) (hr : f.attempt < backoff.maxAttempts) (deadline : Nat)
    (ready : Option Nat) :
    (⟨f.trigger, f.batch, f.attempt + 1, deadline, .asking .begin ready⟩ : Flight).work backoff <
      f.work backoff := by
  have hleft : backoff.maxAttempts - f.attempt = backoff.maxAttempts - (f.attempt + 1) + 1 := by
    omega
  have hsucc := flushWork_succ (backoff.maxAttempts - (f.attempt + 1)) f.batch.length
  rw [work_of_asking rfl, work, hp, hleft, hsucc]
  exact Nat.add_lt_add_left (Nat.lt_succ_self _) _

namespace Writer

variable {w v : Writer σ}

/-- **Each turn of a flush hands nothing over**, and ends the flush or leaves less for it to do. -/
theorem flight_of_work (hw : Sound w) (hf : w.flight = some f) (h : Step w .work v) :
    v.handovers = w.handovers ∧ (v.flight = none ∨
      ∃ g, v.flight = some g ∧ g.work w.limits.backoff < f.work w.limits.backoff) := by
  have hresume : ∀ (now : Nat) (trigger : Trigger) (u : Writer σ), u.flight = none →
      (u.resume now trigger).flight = none := by
    intro now trigger u hu
    cases trigger <;> exact hu
  have hsame : ∀ f', w.flight = some f' → f' = f :=
    fun f' hf' => Option.some.inj (hf'.symm.trans hf)
  cases h with
  | wake _ h | gather h | fill _ h | pass _ h | tick _ h | finish h | shut _ h | mourn h
  | drain _ h | settle h => exact absurd (hf.symm.trans h) nofun
  | begun _ hf' hp | inserted _ hf' hp =>
    obtain rfl := hsame _ hf'
    exact ⟨rfl, .inr ⟨_, rfl, Flight.work_asking_lt hp (Pending.work_next_lt ..) _⟩⟩
  | rollBack _ hf' hp =>
    obtain rfl := hsame _ hf'
    have hless : ∀ (n : Nat) (cause : Failure) (record : Record) (rest : List Record),
        (Pending.rollback cause).work n < (Pending.insert record rest).work n := by
      intro n cause record rest
      simp only [Pending.work]
      omega
    exact ⟨rfl, .inr ⟨_, rfl, Flight.work_asking_lt hp (hless ..) _⟩⟩
  | commit => exact ⟨(resume_keeps ..).1, .inl (hresume _ _ _ rfl)⟩
  | rest now hf' hwhy hr =>
    obtain rfl := hsame _ hf'
    obtain ⟨pending, ready, hp⟩ := hwhy.asking
    exact ⟨hwhy.handovers_noteFailure, .inr ⟨_, rfl, Flight.work_resting_lt hp _⟩⟩
  | giveUp now hf' hwhy hr =>
    exact ⟨(resume_keeps ..).1.trans hwhy.handovers_noteFailure, .inl (hresume _ _ _ rfl)⟩
  | retry now hf' hp =>
    obtain rfl := hsame _ hf'
    have hr := (hw.flight_sound _ hf).retries_of_resting _ hp
    exact ⟨rfl, .inr ⟨_, rfl, Flight.work_retry_lt hp (by simpa [Backoff.retries] using hr) _ _⟩⟩
  | crash => exact ⟨rfl, .inl rfl⟩

end Writer

namespace Clocked

variable {x y : Clocked σ}

/-- **Every flush ends**, if its writer goes on. -/
theorem exists_goOn_landed (hx : x.writer.Sound) (hf : x.writer.flight = some f) :
    ∃ n, (goOn^[n] x).writer.flight = none ∧
      (goOn^[n] x).writer.handovers = x.writer.handovers := by
  -- each turn of the flush leaves less work
  refine exists_goOn
    (P := fun y => y.writer.Sound ∧ y.writer.flight.isSome ∧
      y.writer.handovers = x.writer.handovers)
    (Q := fun y => y.writer.flight = none ∧ y.writer.handovers = x.writer.handovers)
    (fun w => (w.flight.map (Flight.work w.limits.backoff)).getD 0) ?_ ?_ ⟨hx, by simp [hf], rfl⟩
  · rintro y ⟨hy, hsome, hhandovers⟩ hnone
    obtain ⟨g, hg⟩ := Option.isSome_iff_exists.mp hsome
    have hturn : ∀ t, y.writer.turn? t = y.writer.flightTurn? t g := by
      intro t
      simp only [Writer.turn?, hg]
    rw [hturn] at hnone
    obtain ⟨t, ht, hlt, hnext⟩ := Writer.flightTurn?_of_none hg hnone
    exact ⟨t, ht, hlt, by rwa [hturn], hy, hsome, hhandovers⟩
  · rintro y w ⟨hy, hsome, hhandovers⟩ hw
    obtain ⟨g, hg⟩ := Option.isSome_iff_exists.mp hsome
    have hstep := Writer.step_turn? hw
    obtain ⟨hsame, hnone | ⟨g', hg', hlt⟩⟩ := Writer.flight_of_work hy hg hstep
    · exact .inl ⟨hnone, hsame.trans hhandovers⟩
    · refine .inr ⟨⟨hy.step hstep, by simp [hg'], hsame.trans hhandovers⟩, ?_⟩
      simpa [hg, hg', Writer.limits_of_step hstep] using hlt

/-! ## Every run -/

/-- **All flushes so far keep to their schedule.** -/
structure KeepsSchedule (limits : Limits) (x : Clocked σ) : Prop where
  /-- Each batch that was handed over has its course. -/
  handovers_eq : x.writer.courses.map Course.handover = x.writer.handovers
  /-- A flush is over with its last attempt: until then that has time left, or there is to be
  another one. -/
  settled_or_open : ∀ c ∈ x.writer.courses, c.Settled limits ∨ c.Open limits x.now
  /-- A flush that is not over is under way. -/
  settled_of_flight : x.writer.flight = none → ∀ c ∈ x.writer.courses, c.Settled limits
  /-- A batch is lost only with someone who has not survived an answer. -/
  hasCrashed_of_lost : ∀ c ∈ x.writer.courses, c.fate = some .lost → x.writer.hasCrashed = true
  /-- What has become of a batch is counted once, for all of it. -/
  counted : Counted x.writer.stats x.writer.courses

/-- The flush under way is open. -/
theorem open_of_stands {limits : Limits} {now : Nat} {earlier : List Attempt} {a : Attempt}
    (h : Scheduled limits (earlier ++ [a])) (ha : a.Stands limits now f) :
    Course.Open limits now ⟨f.trigger, f.batch, earlier ++ [a], none⟩ := by
  refine ⟨h, rfl, earlier, a, rfl, ?_⟩
  unfold Attempt.Stands at ha
  split at ha
  · obtain ⟨⟨hended, -⟩, -, -, hdeadline, hexpiry⟩ := ha
    exact .inl ⟨hended, hexpiry ▸ hdeadline⟩
  · obtain ⟨hnow, hnumber, t, hended, hwake⟩ := ha
    exact .inr ⟨t, hended, hnumber, hwake ▸ hnow⟩

/-- **A punctual writer has kept the schedule.** -/
theorem Punctual.keepsSchedule (hx : x.Punctual) : x.KeepsSchedule x.writer.limits := by
  have hhandovers := map_handover_courses x.writer.history
  have hlost : ∀ c ∈ x.writer.courses, c.fate = some .lost → x.writer.hasCrashed = true :=
    fun c hc hfate => any_isCrash_of_lost hc hfate
  have hschedule := hx.onSchedule
  unfold Writer.OnSchedule at hschedule
  cases hf : x.writer.flight with
  | none =>
    rw [hf] at hschedule
    exact ⟨hhandovers, fun c hc => .inl (hschedule.settled c hc), fun _ => hschedule.settled, hlost,
      hschedule.counted⟩
  | some f =>
    rw [hf] at hschedule
    obtain ⟨past, earlier, a, hcourse, hstands⟩ := hschedule
    have hreckoned := hcourse.reckoned
    have hopen := open_of_stands hcourse.scheduled hstands
    refine ⟨hhandovers, ?_, fun h => absurd (hf.symm.trans h) nofun, hlost, ?_⟩ <;>
      rw [hcourse.courses_eq]
    · exact List.forall_mem_append.mpr ⟨fun c hc => .inl (hreckoned.settled c hc),
        List.forall_mem_singleton.mpr (.inr hopen)⟩
    · exact hreckoned.counted.concat rfl

/-- Every writer that settings ask for is punctual in every run. -/
theorem punctual_after (s : WriterSettings) (store : Store σ) (state : σ)
    (happenings : List (Happening σ)) :
    ((ofSettings s store state).after happenings).Punctual :=
  keeps_after Punctual.step happenings (punctual_ofSettings s store state)

/-- No attempt has a number that there may not be. -/
theorem KeepsSchedule.number_le {limits : Limits} (h : x.KeepsSchedule limits) {c : Course}
    (hc : c ∈ x.writer.courses) {a : Attempt} (ha : a ∈ c.attempts) :
    a.number ≤ limits.backoff.maxAttempts := by
  have hscheduled : Scheduled limits c.attempts :=
    (h.settled_or_open c hc).elim Course.Settled.scheduled Course.Open.scheduled
  have hmem : a.number ∈ c.attempts.map Attempt.number := List.mem_map_of_mem ha
  rw [hscheduled.numbers_eq, List.mem_range'_1] at hmem
  have hlength := hscheduled.length_le
  omega

/-- A punctual writer stays so while it goes on. -/
theorem Punctual.iterate_goOn (n : Nat) (hx : x.Punctual) : (goOn^[n] x).Punctual := by
  obtain ⟨happenings, h⟩ := exists_iterate_goOn_eq_after n x
  rw [h]
  exact keeps_after Punctual.step happenings hx

/-- **Every flush keeps to the schedule of its settings**, whatever the store does. At every moment
of every run on a clock

* each batch that was handed over has its course. Its attempts are numbered from one, each but the
  first begins when the wait after the failure before it is over, and none outlasts the timeout. An
  attempt fails exactly if the store refuses a call or leaves one unanswered until the time is up.
  What has become of batches is counted once for each, and for all of its records (`KeepsSchedule`);
* a batch that was committed or dropped took as many attempts as it takes to succeed, or as many as
  there may be, and it was committed if and only if one of them succeeded;
* no attempt has a number beyond the largest that is asked for, so it fits where that fits;
* a flush that waits for an answer goes on to wait, whatever else happens, until the answer comes or
  the time of the attempt is up, and if nothing but the writer and its clock goes on, the flush
  comes to its end. -/
theorem keepsSchedule_after (s : WriterSettings) (store : Store σ) (state : σ)
    (happenings : List (Happening σ)) :
    let limits := Limits.ofSettings s
    let x := (ofSettings s store state).after happenings
    x.KeepsSchedule limits ∧
      (∀ c ∈ x.writer.courses, c.fate = some .committed ∨ c.fate = some .dropped →
        c.attempts.length =
            min (c.attempts.findIdx Attempt.hasSucceeded + 1) (max s.maxAttempts 1) ∧
          (c.fate = some .committed ↔ c.attempts.any Attempt.hasSucceeded = true)) ∧
      (∀ c ∈ x.writer.courses, ∀ a ∈ c.attempts, a.number ≤ max s.maxAttempts 1) ∧
      ∀ f, x.writer.flight = some f →
        (∀ pending ready, f.phase = .asking pending ready → ∀ later,
          Awaits x f (x.after later) ∨ ∃ before rest, later = before ++ rest ∧
            ∃ events, (x.after before).writer.history = events ++ x.writer.history ∧
              CallEnds limits f events) ∧
        ∃ n, (goOn^[n] x).writer.flight = none ∧
          (goOn^[n] x).writer.handovers = x.writer.handovers ∧
          ∀ c ∈ (goOn^[n] x).writer.courses, c.Settled limits := by
  intro limits x
  have hpunctual : x.Punctual := punctual_after s store state happenings
  have hlimits : x.writer.limits = limits :=
    Writer.limits_of_reaches (reaches_after happenings (ofSettings s store state))
  have hkeeps : x.KeepsSchedule limits := hlimits ▸ hpunctual.keepsSchedule
  refine ⟨hkeeps, fun c hc hfate => ?_, fun c hc a ha => hkeeps.number_le hc ha, fun f hf => ?_⟩
  · have hsettled : c.Settled limits :=
      (hkeeps.settled_or_open c hc).resolve_right fun h => by simp [h.fate_eq_none] at hfate
    exact hsettled.length_attempts fun h => by simp [h] at hfate
  · refine ⟨fun pending ready hp later => ?_, ?_⟩
    · have hwaits : Awaits x f x := ⟨hpunctual, rfl, hf, [], rfl⟩
      rw [← hlimits]
      exact hwaits.after later hp
    · obtain ⟨n, hnone, hhandovers⟩ := exists_goOn_landed hpunctual.sound hf
      have hlast := (hpunctual.iterate_goOn n).keepsSchedule.settled_of_flight hnone
      have hreaches : Writer.Reaches x.writer (goOn^[n] x).writer := by
        obtain ⟨run, hrun⟩ := exists_iterate_goOn_eq_after n x
        rw [hrun]
        exact reaches_after run x
      rw [Writer.limits_of_reaches hreaches, hlimits] at hlast
      exact ⟨n, hnone, hhandovers, hlast⟩

/-- A record makes a batch of its own. It is handed over to a store that refuses the first attempt
and sleeps through the second. -/
def handedToSleeper : Clocked Script :=
  (ofSettings { batchSize := 1 } (Script.store "s")
    { scenes := [.failBegin, .slowCommit 60000] }).after
    [.start, .turn, .write (some (.smooth "a")), .turn]

/-- Its flush comes to an end. -/
theorem settled_after_handedToSleeper :
    handedToSleeper.writer.flight.isSome ∧ ∃ n, (goOn^[n] handedToSleeper).writer.flight = none ∧
      ∀ c ∈ (goOn^[n] handedToSleeper).writer.courses,
        c.Settled (Limits.ofSettings { batchSize := 1 }) := by
  have hsome : handedToSleeper.writer.flight.isSome := by decide +kernel
  obtain ⟨f, hf⟩ := Option.isSome_iff_exists.mp hsome
  obtain ⟨n, hnone, -, hsettled⟩ :=
    ((keepsSchedule_after { batchSize := 1 } (Script.store "s")
      { scenes := [.failBegin, .slowCommit 60000] }
      [.start, .turn, .write (some (.smooth "a")), .turn]).2.2.2 f hf).2
  exact ⟨hsome, n, hnone, hsettled⟩

/-- The second attempt begins after a second and is given up half a minute later. The third one
begins after two more seconds, and succeeds. -/
example :
    (goOn^[12] handedToSleeper).writer.courses.map
        (fun c => (c.fate, c.attempts.map fun a => (a.began, a.ended.map Ending.time))) =
      [(some .committed, [(0, some 0), (1000, some 31000), (33000, some 33000)])] := by
  decide +kernel

end Clocked

end LinkQuality
