import LinkQuality.Proofs.Writer.Sound
import Mathlib.Tactic.Ring

/-!
# A stop comes to rest

Stopping a writer runs it on a clock for a bounded number of steps, and the bound is part of the
definition. That it is never what ends the run has to be proved: a closed writer has only so much
work left (`Writer.work`), every turn leaves less of it (`work_lt`), and as long as there is any,
a turn is possible at once or at the time the clock jumps to (`turn?_or_wakeTime?`). So every stop
ends with nothing left to do (`stop_atRest`), whatever the store does and even if it never
answers.
-/

namespace LinkQuality

/-! ## The work left -/

/-- More than the number of requests that can follow in the same attempt, at a batch of `n`
records. -/
def Pending.work (n : Nat) : Pending → Nat
  | begin => n + 2
  | insert _ rest => rest.length + 2
  | commit | rollback _ => 1

/-- What is asked for next leaves less work. -/
theorem Pending.work_next_lt (n : Nat) (records : List Record) :
    (Pending.next records).work n < records.length + 2 := by
  cases records with
  | nil => exact Nat.lt_succ_self 1
  | cons record rest =>
    have : rest.length + 2 < rest.length + 1 + 2 := by omega
    exact this

/-- More than the number of turns that attempts at a batch of `n` records can take. -/
def flushWork (attempts n : Nat) : Nat := attempts * (n + 4)

/-- One attempt more takes as many turns as the batch has records, and a few. -/
theorem flushWork_succ (attempts n : Nat) :
    flushWork (attempts + 1) n = flushWork attempts n + (n + 4) :=
  Nat.succ_mul ..

/-- Fewer attempts at fewer records take fewer turns. -/
theorem flushWork_mono {a b m n : Nat} (hab : a ≤ b) (hmn : m ≤ n) :
    flushWork a m ≤ flushWork b n :=
  Nat.mul_le_mul hab (Nat.add_le_add_right hmn 4)

/-- The turns that a flush under way can still take. -/
def Flight.work (backoff : Backoff) (f : Flight) : Nat :=
  flushWork (backoff.maxAttempts - f.attempt) f.batch.length +
    match f.phase with
    | .asking pending _ => pending.work f.batch.length + 1
    | .resting _ => 0

/-- An attempt that waits for the store has work left. -/
theorem Flight.work_of_asking {backoff : Backoff} {f : Flight} {pending : Pending}
    {ready : Option Nat} (hp : f.phase = .asking pending ready) :
    f.work backoff = flushWork (backoff.maxAttempts - f.attempt) f.batch.length +
      (pending.work f.batch.length + 1) := by
  rw [Flight.work, hp]

/-- A flush under way takes no more turns than are set aside for a batch of its size. -/
theorem Flight.Sound.work_le {backoff : Backoff} {f : Flight} (hf : f.Sound backoff) :
    f.work backoff ≤ flushWork (backoff.maxAttempts + 1) f.batch.length := by
  have hsucc := flushWork_succ backoff.maxAttempts f.batch.length
  have hmono : flushWork (backoff.maxAttempts - f.attempt) f.batch.length ≤
      flushWork backoff.maxAttempts f.batch.length :=
    flushWork_mono (Nat.sub_le ..) (Nat.le_refl _)
  cases hp : f.phase with
  | resting wake =>
    rw [Flight.work, hp]
    simp only
    omega
  | asking pending ready =>
    have hpending : pending.work f.batch.length ≤ f.batch.length + 2 := by
      cases pending with
      | begin => exact Nat.le_refl _
      | insert record rest =>
        have hsuffix := (hf.suffix_of_insert record rest ready hp).length_le
        simp only [List.length_cons] at hsuffix
        simp only [Pending.work]
        omega
      | commit | rollback =>
        simp only [Pending.work]
        omega
    rw [Flight.work_of_asking hp]
    omega

namespace Writer

variable {σ : Type}

/-- The turns that one more batch can take. -/
def batchWork (w : Writer σ) : Nat :=
  flushWork (w.limits.backoff.maxAttempts + 1) w.limits.batchSize

/-- The turns that can follow when the flush under way is over. -/
def laterWork (w : Writer σ) : Nat :=
  match w.consumer with
  | .stopped => 0
  | .idle | .ended => w.queue.length * w.batchWork + 1
  | .crashed => w.queue.length * w.batchWork + 2
  | .gathering _ =>
    w.queue.length * w.batchWork + 2 + if w.batch.isEmpty then 0 else w.batchWork
  | .spawned => w.queue.length * w.batchWork + 3

/-- **The turns that a closed writer can still take.** -/
def work (w : Writer σ) : Nat :=
  w.laterWork + (w.flight.map (Flight.work w.limits.backoff)).getD 0

/-! ## Every turn leaves less work -/

/-- A flush that goes on leaves the rest of the work as it is. -/
theorem work_lt_of_flight {v w : Writer σ} {f g : Flight} (hl : v.limits = w.limits)
    (hq : v.queue = w.queue) (hb : v.batch = w.batch) (hc : v.consumer = w.consumer)
    (hf : w.flight = some f) (hg : v.flight = some g)
    (h : g.work w.limits.backoff < f.work w.limits.backoff) : v.work < w.work := by
  simp only [work, laterWork, batchWork, hl, hq, hb, hc, hf, hg, Option.map_some,
    Option.getD_some]
  omega

/-- A flush that begins takes less work than was set aside for its batch. -/
theorem work_handOver (now : Nat) (trigger : Trigger) {batch : List Record} {w : Writer σ}
    (h : batch.length ≤ w.limits.batchSize) :
    (w.handOver now trigger batch).work < w.laterWork + w.batchWork := by
  have hwork : (w.handOver now trigger batch).work =
      w.laterWork + (flushWork (w.limits.backoff.maxAttempts - 1) batch.length +
        (batch.length + 2 + 1)) := rfl
  have hle : flushWork (w.limits.backoff.maxAttempts - 1) batch.length ≤
      flushWork w.limits.backoff.maxAttempts w.limits.batchSize :=
    flushWork_mono (Nat.sub_le ..) h
  have hsucc := flushWork_succ w.limits.backoff.maxAttempts w.limits.batchSize
  rw [hwork, batchWork]
  omega

/-- What follows a flush was set aside for it. -/
theorem work_resume_le (now : Nat) {trigger : Trigger} {w : Writer σ} (hf : w.flight = none)
    (hb : w.batch = []) (hp : w.Places trigger) :
    (w.resume now trigger).work ≤ w.laterWork := by
  have hw : w.work = w.laterWork := by simp [work, hf]
  cases trigger with
  | size =>
    obtain ⟨due, hg⟩ := hp
    refine Nat.le_of_eq ?_
    simp [work, laterWork, batchWork, resume, showBacklog, hf, hg]
  | timer => exact Nat.le_of_eq hw
  | shutdown =>
    obtain ⟨-, due, hg⟩ := hp
    simp [work, laterWork, batchWork, resume, hf, hg, hb]
  | drain => exact Nat.le_of_eq hw

/-- Asking for the next thing in an attempt leaves less work, if that does. -/
theorem work_ask_lt {now : Nat} {w v : Writer σ} {f : Flight} {pending next : Pending}
    {ready : Option Nat} (hf : w.flight = some f) (hp : f.phase = .asking pending ready)
    (hl : v.limits = w.limits) (hq : v.queue = w.queue) (hb : v.batch = w.batch)
    (hc : v.consumer = w.consumer)
    (h : next.work f.batch.length < pending.work f.batch.length) :
    (v.ask now f next).work < w.work := by
  refine work_lt_of_flight hl hq hb hc hf rfl ?_
  rw [Flight.work_of_asking hp, Flight.work_of_asking rfl]
  exact Nat.add_lt_add_left (Nat.succ_lt_succ h) _

/-- The end of a flush leaves less work. -/
theorem work_land_lt {now : Nat} {w v : Writer σ} {f : Flight} {pending : Pending}
    {ready : Option Nat} (hw : Sound w) (hf : w.flight = some f)
    (hp : f.phase = .asking pending ready) (hl : v.limits = w.limits)
    (hq : v.queue = w.queue) (hb : v.batch = w.batch) (hc : v.consumer = w.consumer)
    (hclosed : v.closed = w.closed) (hv : v.flight = none) :
    (v.resume now f.trigger).work < w.work := by
  have hempty : v.batch = [] := hb.trans (hw.batch_of_flight (by rw [hf]; rfl))
  have hplaces : v.Places f.trigger := by
    have := hw.flight_places f hf
    unfold Places at this ⊢
    rw [hc, hclosed]
    exact this
  have hle := work_resume_le now hv hempty hplaces
  have hlater : v.laterWork = w.laterWork := by simp only [laterWork, batchWork, hl, hq, hb, hc]
  have hwork : w.work = w.laterWork + f.work w.limits.backoff := by simp [work, hf]
  rw [Flight.work_of_asking hp] at hwork
  omega

/-- The store is being waited for when an attempt fails. -/
theorem Failing.asking {now : Nat} {w : Writer σ} {f : Flight} {why : Failure}
    {heard : List WriterEvent} {s : σ} (h : Failing now w f why heard s) :
    ∃ pending ready, f.phase = .asking pending ready := by
  cases h with
  | timeUp hp | beginning hp | committing hp | rolledBack hp | rollbackFailed hp => exact ⟨_, _, hp⟩

/-- **Every turn of a closed writer leaves less work.** -/
theorem work_lt {w w' : Writer σ} (hw : Sound w) (hc : w.closed = true) (h : Step w .work w') :
    w'.work < w.work := by
  cases h with
  | wake now hf hs =>
    have hb : w.batch = [] := hw.gathering_or_batch.resolve_left (by simp [hs])
    simp [work, laterWork, batchWork, hf, hs, hb]
  | gather hf hg ho | fill now hf hg ho | pass now hf hg ho | tick now hf hg ho =>
    exact absurd (hc.symm.trans ho) nofun
  | finish hf hg hc hb =>
    simp [work, laterWork, batchWork, takeBatch, hf, hg, hb]
  | shut now hf hg hc hb =>
    refine Nat.lt_of_lt_of_eq (work_handOver now .shutdown (Nat.le_of_lt hw.batch_lt)) ?_
    simp [work, laterWork, batchWork, takeBatch, hf, hg, hb]
  | mourn hf hc hl =>
    simp [work, laterWork, batchWork, mourn, tell, note, takeBatch, hf, hl]
  | drain now hf hc hl hq =>
    refine Nat.lt_of_lt_of_le (work_handOver now .drain (List.length_take_le ..)) ?_
    have hlen : w.queue.length - w.limits.batchSize + 1 ≤ w.queue.length := by
      have := List.length_pos_iff.mpr hq
      have := w.limits.batchSize_pos
      omega
    have hmul := Nat.mul_le_mul_right w.batchWork hlen
    rw [Nat.succ_mul] at hmul
    rcases hl with hl | hl <;>
    · simp [work, laterWork, batchWork, takeBatch, hf, hl] at hmul ⊢
      omega
  | settle hf hc hl hq =>
    rcases hl with hl | hl <;> simp [work, laterWork, showBacklog, takeBatch, hf, hl]
  | begun now hf hp hs =>
    exact work_ask_lt hf hp rfl rfl rfl rfl (Pending.work_next_lt ..)
  | inserted now hf hp hs =>
    exact work_ask_lt hf hp rfl rfl rfl rfl (Pending.work_next_lt ..)
  | rollBack now hf hp hs =>
    exact work_ask_lt hf hp rfl rfl rfl rfl (Nat.succ_lt_succ (Nat.succ_pos _))
  | commit now hf hp hs => exact work_land_lt hw hf hp rfl rfl rfl rfl rfl rfl
  | @rest now f why heard s hf hwhy hr =>
    obtain ⟨pending, ready, hp⟩ := hwhy.asking
    refine work_lt_of_flight rfl rfl rfl rfl hf rfl ?_
    rw [Flight.work_of_asking hp]
    exact Nat.lt_add_of_pos_right (Nat.succ_pos _)
  | giveUp now hf hwhy hr =>
    obtain ⟨pending, ready, hp⟩ := hwhy.asking
    exact work_land_lt hw hf hp rfl rfl rfl rfl rfl rfl
  | @retry now f wake hf hp =>
    refine work_lt_of_flight rfl rfl rfl rfl hf rfl ?_
    have hr := (hw.flight_sound f hf).retries_of_resting wake hp
    have hlt : f.attempt < w.limits.backoff.maxAttempts := by simpa [Backoff.retries] using hr
    have hsub : w.limits.backoff.maxAttempts - f.attempt =
        w.limits.backoff.maxAttempts - (f.attempt + 1) + 1 := by omega
    have hsucc := flushWork_succ (w.limits.backoff.maxAttempts - (f.attempt + 1)) f.batch.length
    rw [Flight.work_of_asking rfl, Flight.work, hp, hsub, hsucc]
    exact Nat.add_lt_add_left (Nat.lt_succ_self _) _
  | @crash now f pending ready s hf hp hs =>
    have hplaces := hw.flight_places f hf
    have hpos : 0 < f.work w.limits.backoff := by
      rw [Flight.work_of_asking hp]
      exact Nat.succ_pos _
    have hwork : w.work = w.laterWork + f.work w.limits.backoff := by simp [work, hf]
    suffices (Writer.crash f (w.hear now (pending.request f.batch) .crashed s)).work ≤
      w.laterWork by omega
    cases ht : f.trigger with
    | drain => simp [work, laterWork, Writer.crash, ht]
    | size | timer | shutdown =>
      have hg : ∃ due, w.consumer = .gathering due := by
        rw [ht] at hplaces
        first | exact hplaces | exact hplaces.2
      obtain ⟨due, hg⟩ := hg
      simp [work, laterWork, batchWork, Writer.crash, Writer.hear, ht, hg]

/-! ## As long as there is work, it goes on -/

/-- Nothing is left to do, now or later. -/
def AtRest (w : Writer σ) : Prop := w.consumer = .stopped ∧ w.flight = none

/-- A flush that has no turn yet has one when the clock shows the time it waits for. -/
theorem flightTurn?_of_none {now : Nat} {w : Writer σ} {f : Flight} (hf : w.flight = some f)
    (h : w.flightTurn? now f = none) :
    ∃ t, w.wakeTime? = some t ∧ now < t ∧ (w.flightTurn? t f).isSome := by
  unfold flightTurn? at h
  unfold wakeTime?
  simp only [hf]
  cases hp : f.phase with
  | resting wake =>
    simp only [hp, ite_eq_right_iff, reduceCtorEq, imp_false] at h
    refine ⟨wake, rfl, Nat.lt_of_not_le h, ?_⟩
    simp [flightTurn?, hp]
  | asking pending ready =>
    simp only [hp] at h
    split at h
    · exact absurd h nofun
    next hready =>
      split at h
      · exact absurd h nofun
      next hdeadline =>
        cases ready with
        | none => exact ⟨f.deadline, rfl, Nat.lt_of_not_le hdeadline, by simp [flightTurn?, hp]⟩
        | some ready =>
          have hready : now < ready := by simpa using hready
          refine ⟨min ready f.deadline, rfl, by omega, ?_⟩
          by_cases hle : ready ≤ f.deadline
          · simp [flightTurn?, hp, Nat.min_eq_left hle]
          · have hle : f.deadline ≤ ready := Nat.le_of_not_le hle
            simp [flightTurn?, hp, Nat.min_eq_right hle]
            split <;> rfl

/-- **Until a closed writer has come to rest, it goes on**: at once, or when the clock shows the
time it waits for. -/
theorem turn?_of_none {now : Nat} {w : Writer σ} (hc : w.closed = true)
    (h : w.turn? now = none) :
    w.AtRest ∨ ∃ t, w.wakeTime? = some t ∧ now < t ∧ (w.turn? t).isSome := by
  cases hf : w.flight with
  | some f =>
    have hturn : ∀ t, w.turn? t = w.flightTurn? t f := by
      intro t
      simp only [turn?, hf]
    simp only [hturn] at h ⊢
    exact .inr (flightTurn?_of_none hf h)
  | none =>
    left
    simp only [turn?, hf] at h
    cases hs : w.consumer with
    | stopped => exact ⟨hs, hf⟩
    | _ => simp [hs, hc, gatherTurn?] at h

/-- A turn keeps a closed writer sound and closed, and leaves less work. -/
theorem turn?_of_some {now : Nat} {w w' : Writer σ} (hw : Sound w) (hc : w.closed = true)
    (h : w.turn? now = some w') : Sound w' ∧ w'.closed = true ∧ w'.work < w.work :=
  have hstep := step_turn? h
  ⟨hw.step hstep, closed_of_step hstep hc, work_lt hw hc hstep⟩

/-- **A closed writer comes to rest** when it is driven on a clock for as long as there can be
work. A jump of the clock takes a step of its own, but never two in a row. -/
theorem drive_atRest (fuel : Nat) {now : Nat} {w : Writer σ} (hw : Sound w)
    (hc : w.closed = true) :
    (2 * w.work < fuel → (drive none fuel now w).2.AtRest) ∧
      ((w.turn? now).isSome → 2 * w.work ≤ fuel → (drive none fuel now w).2.AtRest) := by
  induction fuel generalizing now w with
  | zero =>
    refine ⟨fun h => absurd h (Nat.not_lt_zero _), fun h hle => ?_⟩
    obtain ⟨w', h⟩ := Option.isSome_iff_exists.mp h
    have := (turn?_of_some hw hc h).2.2
    omega
  | succ fuel ih =>
    rw [drive]
    cases h : w.turn? now with
    | some w' =>
      obtain ⟨hw', hc', hlt⟩ := turn?_of_some hw hc h
      have hrest : 2 * w'.work < fuel → (drive none fuel now w').2.AtRest := (ih hw' hc').1
      exact ⟨fun hle => hrest (by omega), fun _ hle => hrest (by omega)⟩
    | none =>
      refine ⟨fun hle => ?_, fun hsome => absurd hsome Bool.false_ne_true⟩
      rcases turn?_of_none hc h with hrest | ⟨t, ht, hlt, hsome⟩
      · have hnone : w.wakeTime? = none := by simp only [wakeTime?, hrest.1, hrest.2]
        simp only [hnone]
        exact hrest
      · -- the clock jumps, and the step after that is a turn
        simp only [ht]
        rw [if_pos ⟨hlt, rfl⟩]
        exact (ih hw hc).2 hsome (by omega)

/-! ## The bound of a stop -/

/-- The bound on a flush covers every batch that a writer can have at hand. -/
theorem flushWork_le_flushBound {w : Writer σ} {n : Nat}
    (h : n ≤ w.limits.batchSize + w.flushing.length) :
    2 * flushWork (w.limits.backoff.maxAttempts + 1) n ≤ w.flushBound := by
  have hbound : w.flushBound = 2 * (w.limits.backoff.maxAttempts + 1) *
      (w.limits.batchSize + w.batch.length + w.flushing.length + 6) := by
    unfold flushBound flushing
    cases w.flight <;> rfl
  rw [hbound, flushWork, Nat.mul_assoc]
  exact Nat.mul_le_mul_left 2 (Nat.mul_le_mul_left _ (by omega))

/-- A stop takes at least as many steps as there can be work. -/
theorem work_lt_workBound {w : Writer σ} (hw : Sound w) (span : Nat) :
    2 * w.work < w.workBound span := by
  have hlater : w.laterWork ≤ w.queue.length * w.batchWork + 3 + w.batchWork := by
    have hgathered : (if w.batch.isEmpty then 0 else w.batchWork) ≤ w.batchWork := by
      split <;> omega
    unfold laterWork
    cases w.consumer <;> simp only <;> omega
  have hbatch : 2 * w.batchWork ≤ w.flushBound := flushWork_le_flushBound (Nat.le_add_right ..)
  have hflight : 2 * (w.flight.map (Flight.work w.limits.backoff)).getD 0 ≤ w.flushBound := by
    cases hf : w.flight with
    | none => exact Nat.zero_le _
    | some f =>
      have hle := (hw.flight_sound f hf).work_le
      have hcovered := flushWork_le_flushBound (w := w) (n := f.batch.length)
        (by simp [flushing, hf])
      rw [Option.map_some, Option.getD_some]
      omega
  have hqueue : w.queue.length * (2 * w.batchWork) ≤ w.queue.length * w.flushBound :=
    Nat.mul_le_mul_left _ hbatch
  have hbound : w.workBound span =
      w.queue.length * w.flushBound + 4 * w.queue.length + 4 * w.flushBound + 16 + 2 * span := by
    rw [workBound]
    ring
  rw [hbound, work]
  rw [Nat.mul_left_comm] at hqueue
  omega

/-- **Every stop comes to rest.** -/
theorem stop_atRest {w : Writer σ} (hw : Sound w) (hc : w.closed = false) (now : Nat) :
    (w.stop now).2.AtRest := by
  have hclose : Sound w.close := hw.step .close
  rw [stop, if_neg (by simp [hc])]
  exact (drive_atRest (w.workBound 0) hclose rfl).1 (work_lt_workBound hclose 0)

end Writer

end LinkQuality
