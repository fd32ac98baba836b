import LinkQuality.Proofs.NameTable
import LinkQuality.Proofs.Writer.Conservation
import LinkQuality.Store.Scripted

/-!
# Two sets of counts

A writer counts twice: in its stats, which its owner can ask for, and in its metrics, which are
served to whoever watches the service. Both are kept by hand, at the same places but one. A stop
that finds the consumer dead adds what died with it to the stats and to no metric; the two agree
all the same, because that number is always zero.

So in every state of every run the two sets of counts agree, whatever calls of the store bring
anyone down (`Writer.agrees_after`). The metrics count some things that the stats do not: writes
that come too late, and attempts that fail. The first are counted against the answers that the
writes of a run were given, the second against the attempts that were begun: each attempt has
failed, has committed its batch, has brought someone down, or is under way.
-/

namespace LinkQuality

/-! ## Reading metrics -/

/-- What is counted under a label. -/
def Family.count (label : String) (t : Family Nat) : Nat := (NameTable.get? label t).getD 0

/-- What is counted under all labels together. -/
def Family.total (t : Family Nat) : Nat := (t.map (·.2)).sum

namespace Family

open Quantity (zero add)

/-- Counting more under a label is seen there, and under no other one. -/
theorem count_update {t : Family Nat} (h : (NameTable.names t).Pairwise (· < ·))
    (label other : String) (n : Nat) :
    count other (NameTable.update label zero (add · n) t) =
      t.count other + if other = label then n else 0 := by
  unfold count
  split
  next heq =>
    rw [heq, NameTable.get?_update h, Option.getD_some]
    rfl
  next hne =>
    rw [NameTable.get?_update_of_ne hne]
    rfl

/-- It is seen in all labels together. -/
theorem total_update (label : String) (n : Nat) (t : Family Nat) :
    total (NameTable.update label zero (add · n) t) = t.total + n := by
  have hcons : ∀ entry (t : Family Nat), total (entry :: t) = entry.2 + t.total := fun _ _ => rfl
  have hzero : (add zero n : Nat) = n := Nat.zero_add n
  induction t with
  | nil => rfl
  | cons entry rest ih =>
    rw [NameTable.update]
    split
    next => rw [hcons, hzero, Nat.add_comm]
    next =>
      split
      next => exact Nat.add_right_comm ..
      next => rw [hcons, hcons, ih, Nat.add_assoc]

/-- **Records dropped, by reason**: each of the three reasons has its count, and there is no
other. -/
structure Drops (t : Family Nat) (queueFull exhausted closed : Nat) : Prop where
  ascending : (NameTable.names t).Pairwise (· < ·)
  labels : ∀ label ∈ NameTable.names t, label ∈ ["queue_full", "retry_exhausted", "closed"]
  queueFull_eq : t.count "queue_full" = queueFull
  exhausted_eq : t.count "retry_exhausted" = exhausted
  closed_eq : t.count "closed" = closed

/-- More records dropped for one of the reasons are counted under that reason. -/
theorem Drops.update {t : Family Nat} {queueFull exhausted closed : Nat}
    (h : t.Drops queueFull exhausted closed) (reason : String)
    (hreason : reason ∈ ["queue_full", "retry_exhausted", "closed"]) (n : Nat) :
    Drops (NameTable.update reason zero (add · n) t)
      (queueFull + if "queue_full" = reason then n else 0)
      (exhausted + if "retry_exhausted" = reason then n else 0)
      (closed + if "closed" = reason then n else 0) where
  ascending := NameTable.pairwise_names_update _ _ _ h.ascending
  labels label hlabel := by
    rcases NameTable.mem_names_update hlabel with rfl | hlabel
    · exact hreason
    · exact h.labels label hlabel
  queueFull_eq := by rw [count_update h.ascending, h.queueFull_eq]
  exhausted_eq := by rw [count_update h.ascending, h.exhausted_eq]
  closed_eq := by rw [count_update h.ascending, h.closed_eq]

end Family

/-! ## Reading a run -/

/-- Has an attempt begun? -/
@[simp] def WriterEvent.isAttempt : WriterEvent → Bool
  | attempted .. => true
  | _ => false

/-- Has an attempt failed? -/
@[simp] def WriterEvent.isFailure : WriterEvent → Bool
  | attemptFailed .. => true
  | _ => false

/-- Does a flush wait for the store, rather than for its next attempt? -/
@[simp] def Phase.isAsking : Phase → Bool
  | asking .. => true
  | resting _ => false

/-- How many of the answers to writes are a certain refusal. -/
def RecordRefusal.among (why : RecordRefusal) (answers : List (Except RecordRefusal Unit)) : Nat :=
  answers.countP fun
    | .error other => other = why
    | .ok _ => false

namespace Writer

variable {σ : Type}

/-- Number of attempts begun. -/
def attempts (w : Writer σ) : Nat := w.history.countP (·.isAttempt)

/-- **Number of attempts that have failed.** -/
def failures (w : Writer σ) : Nat := w.history.countP (·.isFailure)

/-- Number of calls of the store that have brought someone down. -/
def crashes (w : Writer σ) : Nat := w.history.countP (·.isCrash)

/-- Number of attempts under way: one or none. -/
def underway (w : Writer σ) : Nat := (w.flight.any (·.phase.isAsking)).toNat

/-- What a write is answered. -/
def answer? (w : Writer σ) : Deed σ → Option (Except RecordRefusal Unit)
  | .write record => some (w.write record).1
  | .move _ => none

/-- **What the writes of a run are answered**, in order. -/
def answers : Writer σ → List (Deed σ) → List (Except RecordRefusal Unit)
  | _, [] => []
  | w, d :: deeds => (w.answer? d).toList ++ (w.perform d).answers deeds

/-! ## The two sets of counts -/

/-- **Stats and metrics of a writer agree**, with each other, with the attempts that have failed and
with what its writes were answered: so many were taken, so many found the queue full, and so many
came too late. -/
structure Agrees (w : Writer σ) (taken full late : Nat) : Prop where
  accepted_eq : w.metrics.accepted = w.stats.accepted
  taken_eq : w.stats.accepted = taken
  full_eq : w.stats.droppedQueueFull = full
  drops : w.metrics.dropped.Drops w.stats.droppedQueueFull w.stats.droppedAfterRetries late
  committed_eq : w.metrics.committed = w.stats.recordsCommitted
  sum_eq : w.metrics.batchSize.sum = w.stats.recordsCommitted
  batches_eq : w.metrics.batches.total = w.stats.batchesCommitted
  count_eq : w.metrics.batchSize.count = w.stats.batchesCommitted
  /-- A batch is committed for one of the four triggers. -/
  batches_labels : ∀ label ∈ NameTable.names w.metrics.batches,
    ∃ trigger : Trigger, trigger.name = label
  flushFailures_eq : w.metrics.flushFailures = w.stats.flushFailures
  attemptErrors_eq : w.metrics.attemptErrors.total = w.failures
  /-- An attempt fails at the store of the writer. -/
  attemptErrors_labels : ∀ label ∈ NameTable.names w.metrics.attemptErrors, label = w.store.name

variable {taken full late : Nat}

/-- At rest nothing has been counted. -/
theorem agrees_ofSettings (s : WriterSettings) (store : Store σ) (state : σ) :
    (ofSettings s store state).Agrees 0 0 0 where
  accepted_eq := rfl
  taken_eq := rfl
  full_eq := rfl
  drops := ⟨.nil, fun _ h => absurd h List.not_mem_nil, rfl, rfl, rfl⟩
  committed_eq := rfl
  sum_eq := rfl
  batches_eq := rfl
  count_eq := rfl
  batches_labels _ h := absurd h List.not_mem_nil
  flushFailures_eq := rfl
  attemptErrors_eq := rfl
  attemptErrors_labels _ h := absurd h List.not_mem_nil

/-! ### Parts of a step -/

/-- What follows a flush is counted nowhere. -/
theorem Agrees.resume {w : Writer σ} (h : w.Agrees taken full late) (now : Nat)
    (trigger : Trigger) :
    (w.resume now trigger).Agrees taken full late := by
  cases trigger <;> exact { h with }

/-- **A batch that is committed** is counted once on either side. -/
theorem Agrees.succeed {w : Writer σ} (h : w.Agrees taken full late) (now : Nat) (f : Flight) :
    (w.succeed now f).Agrees taken full late := by
  refine Agrees.resume ?_ now f.trigger
  exact
    { h with
      committed_eq := congrArg (· + f.batch.length) h.committed_eq
      sum_eq := congrArg (· + f.batch.length) h.sum_eq
      batches_eq := (Family.total_update ..).trans (congrArg (· + 1) h.batches_eq)
      count_eq := congrArg (· + 1) h.count_eq
      batches_labels := fun label hlabel =>
        (NameTable.mem_names_update hlabel).elim (fun heq => ⟨f.trigger, heq.symm⟩)
          (h.batches_labels label) }

/-- **So is a batch that is dropped.** -/
theorem Agrees.giveUp {w : Writer σ} (h : w.Agrees taken full late) (now : Nat) (f : Flight)
    (why : Failure) : (w.giveUp now f why).Agrees taken full late := by
  refine Agrees.resume ?_ now f.trigger
  exact
    { h with
      drops := h.drops.update "retry_exhausted" (by decide) f.batch.length
      flushFailures_eq := congrArg (· + 1) h.flushFailures_eq }

/-- **So is an attempt that fails**, whatever the store has been heard to say. -/
theorem Agrees.noteFailure {w : Writer σ} (h : w.Agrees taken full late) {now : Nat} {f : Flight}
    {why : Failure} {heard : List WriterEvent} {s : σ} (hwhy : Failing now w f why heard s) :
    (w.noteFailure now f why heard s).Agrees taken full late := by
  have hfailures : (w.noteFailure now f why heard s).failures = w.failures + 1 := by
    unfold failures Writer.noteFailure
    cases hwhy <;> simp
  exact
    { h with
      attemptErrors_eq := by
        rw [hfailures, ← h.attemptErrors_eq]
        exact Family.total_update ..
      attemptErrors_labels := fun label hlabel =>
        (NameTable.mem_names_update hlabel).elim id (h.attemptErrors_labels label) }

/-- **No step but that of a producer makes a difference.** -/
theorem Agrees.step {w w' : Writer σ} {actor : Actor} (ha : w.Agrees taken full late)
    (h : Step w actor w') (hw : Sound w) (hactor : ∀ record, actor ≠ .producer record) :
    w'.Agrees taken full late := by
  cases h with
  | accept | overflow | refuse => exact absurd rfl (hactor _)
  | announce | spawn | close | drift | wake | gather | pass | finish | settle => exact { ha with }
  | fill | tick | shut | drain => exact { ha with }
  | begun | inserted | rollBack | retry | crash => exact { ha with }
  | mourn hf hc hl =>
    -- the batch that died with the consumer had been taken, so it has nothing to report
    have hlost : w.inFlight = 0 := (hw.held_of_crashed hl).2
    refine { ha with drops := ?_ }
    show Family.Drops _ _ (w.stats.droppedAfterRetries + w.inFlight) _
    rw [hlost]
    exact ha.drops
  | @commit now f ready s hf hp hs =>
    have hheard : (w.hear now (.commit f.batch) .done s).Agrees taken full late := { ha with }
    exact hheard.succeed now f
  | rest now hf hwhy hr => exact { ha.noteFailure hwhy with }
  | giveUp now hf hwhy hr => exact (ha.noteFailure hwhy).giveUp now _ _

/-- **A write is counted as it is answered.** -/
theorem Agrees.write {w : Writer σ} (h : w.Agrees taken full late) (record : Option Record) :
    let answer := (w.write record).1
    (w.write record).2.Agrees (taken + answer.isOk.toNat)
      (full + RecordRefusal.queueFull.among [answer])
      (late + RecordRefusal.closed.among [answer]) := by
  cases record with
  | none => exact h
  | some record =>
    unfold Writer.write
    dsimp only
    split
    · exact { h with drops := h.drops.update "closed" (by decide) 1 }
    · split
      · exact
          { h with
            accepted_eq := congrArg (· + 1) h.accepted_eq
            taken_eq := congrArg (· + 1) h.taken_eq }
      · exact
          { h with
            full_eq := congrArg (· + 1) h.full_eq
            drops := h.drops.update "queue_full" (by decide) 1 }

/-- A move is none, whatever it brings about. -/
theorem Agrees.move {w : Writer σ} (h : w.Agrees taken full late) (hw : Sound w) (m : Move σ) :
    (w.move m).Agrees taken full late := by
  cases m with
  | start => exact h.step (step_start w) hw (fun _ h => Actor.noConfusion h)
  | close => exact h.step .close hw (fun _ h => Actor.noConfusion h)
  | drift state => exact h.step (.drift state) hw (fun _ h => Actor.noConfusion h)
  | turn now =>
    rw [Writer.move]
    cases hturn : w.turn? now with
    | none => exact h
    | some w' => exact h.step (step_turn? hturn) hw (fun _ h => Actor.noConfusion h)

/-- **The counts agree after a run**, with the answers that its writes were given. -/
theorem Agrees.after {w : Writer σ} (h : w.Agrees taken full late) (hw : Sound w)
    (deeds : List (Deed σ)) :
    let answers := w.answers deeds
    (w.after deeds).Agrees (taken + answers.countP (·.isOk))
      (full + RecordRefusal.queueFull.among answers)
      (late + RecordRefusal.closed.among answers) := by
  induction deeds generalizing w taken full late with
  | nil => exact h
  | cons d deeds ih =>
    have hsound : Sound (w.perform d) := hw.perform d
    cases d with
    | move m => exact ih (h.move hw m) hsound
    | write record =>
      have hcons : w.answers (.write record :: deeds) =
          [(w.write record).1] ++ (w.write record).2.answers deeds := rfl
      have hrest := ih (h.write record) hsound
      simp only [hcons, RecordRefusal.among, List.countP_append, ← Nat.add_assoc]
      exact hrest

/-! ### Attempts -/

/-- **Every attempt comes to something**: it has failed, committed its batch or brought someone
down, or it is under way. -/
def Settles (w : Writer σ) : Prop :=
  w.attempts = w.failures + w.stats.batchesCommitted + w.crashes + w.underway

/-- An attempt that waits for the store is under way. -/
theorem underway_of_asking {w : Writer σ} {f : Flight} {pending : Pending} {ready : Option Nat}
    (hf : w.flight = some f) (hp : f.phase = .asking pending ready) : w.underway = 1 := by
  simp [underway, hf, hp]

/-- Where there is none, one can begin. -/
theorem Settles.beginAttempt {w : Writer σ} (hw : w.Settles) (hu : w.underway = 0) (now : Nat)
    (f : Flight) : (w.beginAttempt now f).Settles := by
  have hattempts : (w.beginAttempt now f).attempts = w.attempts + 1 := by
    simp [attempts, Writer.beginAttempt, ask, note]
  rw [Settles, hu] at hw
  rw [Settles, hattempts, hw]
  rfl

/-- An attempt goes on when the store answers and is asked for the next thing. -/
theorem Settles.ask {w : Writer σ} (hw : w.Settles) (hu : w.underway = 1) {now : Nat} {f : Flight}
    {pending : Pending} {request : Request} {reply : Reply} {s : σ} (hr : reply ≠ .crashed) :
    ((w.hear now request reply s).ask now f pending).Settles := by
  have hcrashes : ((w.hear now request reply s).ask now f pending).crashes = w.crashes := by
    cases reply with
    | done | failed => rfl
    | crashed => exact absurd rfl hr
  rw [Settles, hu] at hw
  rw [Settles, hcrashes]
  exact hw

/-- What follows a flush is no attempt. -/
theorem Settles.resume {w : Writer σ} (hw : w.Settles) (now : Nat) (trigger : Trigger) :
    (w.resume now trigger).Settles := by
  cases trigger <;> exact hw

/-- **An attempt that fails is one more that has failed**, and it is under way no longer. -/
theorem Settles.noteFailure {w : Writer σ} (hw : w.Settles) {now : Nat} {f : Flight}
    (hf : w.flight = some f) {why : Failure} {heard : List WriterEvent} {s : σ}
    (hwhy : Failing now w f why heard s) {flight : Option Flight}
    (hflight : flight.any (·.phase.isAsking) = false) :
    Settles { w.noteFailure now f why heard s with flight } := by
  have hasking : w.underway = 1 := by
    cases hwhy with
    | timeUp hp | beginning hp | committing hp | rolledBack hp | rollbackFailed hp =>
      exact underway_of_asking hf hp
  rw [Settles, hasking] at hw
  have hnone : ({ w.noteFailure now f why heard s with flight } : Writer σ).underway = 0 := by
    rw [underway, hflight]
    rfl
  rw [Settles, hnone]
  cases hwhy <;> simp [Writer.noteFailure, attempts, failures, crashes] at hw ⊢ <;> omega

/-- **Each step keeps account of the attempts.** -/
theorem Settles.step {w w' : Writer σ} {actor : Actor} (h : Step w actor w') (hw : w.Settles) :
    w'.Settles := by
  have hidle : w.flight = none → w.underway = 0 := fun hf => by rw [underway, hf]; rfl
  cases h with
  | accept | overflow | refuse | announce | spawn | close | drift | wake => exact hw
  | gather | pass | finish | settle | mourn => exact hw
  | fill now hf | tick now hf | shut now hf | drain now hf =>
    exact Settles.beginAttempt hw (hidle hf) now _
  | retry now hf hp =>
    refine hw.beginAttempt ?_ now _
    simp [underway, hf, hp]
  | begun now hf hp hs | inserted now hf hp hs | rollBack now hf hp hs =>
    exact hw.ask (underway_of_asking hf hp) nofun
  | commit now hf hp hs =>
    refine Settles.resume ?_ now _
    rw [Settles, underway_of_asking hf hp] at hw
    show w.attempts = w.failures + (w.stats.batchesCommitted + 1) + w.crashes + 0
    omega
  | rest now hf hwhy hr => exact hw.noteFailure hf hwhy rfl
  | @giveUp now f why heard s hf hwhy hr =>
    have hfailed : Settles { w.noteFailure now f why heard s with flight := none } :=
      hw.noteFailure hf hwhy rfl
    refine Settles.resume ?_ now _
    exact hfailed
  | @crash now f pending ready s hf hp hs =>
    have hcrashes : (w.hear now (pending.request f.batch) .crashed s).crashes = w.crashes + 1 :=
      List.countP_cons_of_pos rfl
    rw [Settles, underway_of_asking hf hp] at hw
    show w.attempts = w.failures + w.stats.batchesCommitted +
      (w.hear now (pending.request f.batch) .crashed s).crashes + 0
    omega

/-- **Stats and metrics never disagree.** In every state of every run, whatever the store does and
whether or not its calls bring anyone down:

* Each count of the stats is that of the metrics, and the sizes of the batches committed add up to
  the records committed and are as many as the batches.
* Writes are counted as they were answered, those that came too late among the metrics only.
* The failed attempts counted are those that have failed: all that were begun but those that
  committed their batch, those that brought someone down, and the one under way. -/
theorem agrees_after (s : WriterSettings) (store : Store σ) (state : σ) (deeds : List (Deed σ)) :
    let w := (ofSettings s store state).after deeds
    let answers := (ofSettings s store state).answers deeds
    w.Agrees (answers.countP (·.isOk)) (RecordRefusal.queueFull.among answers)
        (RecordRefusal.closed.among answers) ∧
      w.attempts = w.failures + w.stats.batchesCommitted + w.crashes + w.underway := by
  intro w answers
  have hagrees := (agrees_ofSettings s store state).after (sound_ofSettings s store state) deeds
  simp only [Nat.zero_add] at hagrees
  have hreaches : Reaches (ofSettings s store state) w := reaches_after deeds _
  exact ⟨hagrees, hreaches.keeps (P := Settles) (fun hs hw => hw.step hs) rfl⟩

/-- The first attempt at a batch fails and the second one commits it; another record comes too
late. -/
example :
    let store := Script.store "rehearsal"
    let w := (ofSettings {} store { scenes := [.failBegin] }).after
      ([.write (some (.smooth "a")), .write (some (.smooth "b")), .move .close] ++
        .replicate 4 (.move (.turn 0)) ++ .replicate 9 (.move (.turn 1000)) ++
        [.write (some (.smooth "c"))])
    (w.attempts, w.metrics.attemptErrors.count "rehearsal") = (2, 1) ∧
      (w.metrics.committed, w.metrics.batches.count "drain") = (2, 1) ∧
      w.metrics.dropped.count "closed" = 1 := by
  decide +kernel

end Writer

end LinkQuality
