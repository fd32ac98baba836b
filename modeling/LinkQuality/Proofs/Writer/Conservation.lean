import LinkQuality.Proofs.Writer.Ledger
import LinkQuality.Proofs.Writer.Rest

/-!
# Conservation of records

A writer never loses, duplicates or reorders a record. In every state of every run, the batches
handed to a flush so far, what the consumer holds and what is queued are together exactly the
records that were taken in, in the order in which they were taken in. It does not matter how
producers, owners and background work interleave, nor what the store does.

When a writer has come to rest and no call of the store has brought anyone down, nothing is held
back: every record taken in has been handed to a flush, once and in order, and every record that
comes later is turned away.
-/

namespace LinkQuality

/-- A store that answers at once, and always well. -/
def Store.prompt : Store Unit where
  name := "prompt"
  accept _ _ := (some 0, ())
  answer _ _ := (.done, ())

/-- A record of a node without delay or loss. -/
def Record.smooth (node : String) : Record :=
  ⟨node, "p", .ofSecond 60 (by decide) (by decide), 0, 0, 0, false⟩

namespace Writer

variable {σ : Type}

/-- **Every record taken in has been handed over**, and no more are taken in. -/
structure Spent (w : Writer σ) (records : List Record) : Prop where
  batch_eq_nil : w.batch = []
  queue_eq_nil : w.queue = []
  handedOver_eq : w.handedOver = records
  /-- Whatever happens from here, every write is refused. -/
  write_eq_closed : ∀ deeds record, ((w.after deeds).write (some record)).1 = .error .closed

/-- Without a crash, a writer at rest has an empty queue. -/
theorem queue_of_stopped {s : WriterSettings} {store : Store σ} {state : σ} {w : Writer σ}
    (h : Reaches (ofSettings s store state) w) (hs : w.consumer = .stopped)
    (hcrash : w.hasCrashed = false) : w.queue = [] := by
  have hrests := rests_of_reaches h (by rw [books, hs]; rfl)
  rcases hrests.2 with hwaiting | ⟨settlement, hmem, -, hlost⟩
  · exact (List.append_eq_nil_iff.mp hwaiting).2
  · have hany : w.books.settled.any (·.fate = .lost) = true :=
      List.any_eq_true.mpr ⟨settlement, hmem, by simpa using hlost⟩
    have hcrashed : w.hasCrashed = true := (witnessed_of_reaches h).trans hany
    exact absurd (hcrash.symm.trans hcrashed) Bool.false_ne_true

/-- What was handed over, what the consumer holds and what is queued are what was accepted. -/
theorem accepted_of_reaches {s : WriterSettings} {store : Store σ} {state : σ} {w : Writer σ}
    (h : Reaches (ofSettings s store state) w) :
    w.handedOver ++ w.batch ++ w.queue = w.accepted := by
  rw [List.append_assoc]
  exact conserves_of_reaches h

/-- Without a crash, a writer at rest has handed over all that was accepted. -/
theorem spent_of_stopped {s : WriterSettings} {store : Store σ} {state : σ} {w : Writer σ}
    (h : Reaches (ofSettings s store state) w) (hs : w.consumer = .stopped)
    (hcrash : w.hasCrashed = false) : w.Spent w.accepted := by
  have hw := Sound.of_reaches h
  have hqueue := queue_of_stopped h hs hcrash
  have hbatch : w.batch = [] := hw.gathering_or_batch.resolve_left (by simp [hs])
  refine ⟨hbatch, hqueue, ?_, fun deeds record => ?_⟩
  · rw [← accepted_of_reaches h, hbatch, hqueue, List.append_nil, List.append_nil]
  · exact write_of_closed (hw.closed_of_gone (.inr hs)) deeds record

/-- **A writer never loses, duplicates or reorders a record.** At every moment of every run, what
was handed over, what the consumer holds and what is queued are what the run has taken in. Once
the writer has come to rest without a crash, in whatever way it was stopped, all of it has been
handed over; and a stop brings it there. -/
theorem handedOver_append_batch_append_queue (s : WriterSettings) (store : Store σ) (state : σ)
    (deeds : List (Deed σ)) :
    let records := (ofSettings s store state).admitted deeds
    let w := (ofSettings s store state).after deeds
    w.handedOver ++ w.batch ++ w.queue = records ∧
      (w.hasCrashed = false → w.consumer = .stopped → w.Spent records) ∧
      ∀ now, w.closed = false → (w.stop now).2.hasCrashed = false →
        (w.stop now).2.consumer = .stopped ∧ (w.stop now).2.Spent records := by
  intro records w
  have hreaches : Reaches (ofSettings s store state) w := reaches_after deeds _
  have haccepted : w.accepted = records := accepted_after (sound_ofSettings s store state) deeds
  refine ⟨?_, fun hcrash hs => ?_, fun now hc hcrash => ?_⟩
  · rw [← haccepted]
    exact accepted_of_reaches hreaches
  · rw [← haccepted]
    exact spent_of_stopped hreaches hs hcrash
  · have hw := Sound.of_reaches hreaches
    obtain ⟨moves, hstop⟩ := exists_stop_eq now w
    have hrest := (stop_atRest hw hc now).1
    have hsame : (w.stop now).2.accepted = records := by
      rw [hstop, afterMoves, accepted_after hw, admitted_moves, List.append_nil, haccepted]
    have hend : Reaches (ofSettings s store state) (w.stop now).2 :=
      hreaches.trans (reaches_stop now w)
    rw [← hsame]
    exact ⟨hrest, spent_of_stopped hend hrest hcrash⟩

/-- Two records are taken in; the consumer takes one of them out of the queue. -/
def halfway : List (Deed Unit) :=
  [.move .start, .write (some (.smooth "a")), .move (.turn 0), .move (.turn 0),
    .write (some (.smooth "b"))]

/-- The writer is closed, and more turns are taken than two records can need. -/
def windingUp : List (Deed Unit) := .move .close :: .replicate 12 (.move (.turn 0))

/-- A stop hands over what the consumer holds and what is queued, turn by turn or at once. -/
theorem spent_after_halfway :
    ((ofSettings {} Store.prompt ()).after (halfway ++ windingUp)).Spent
        [.smooth "a", .smooth "b"] ∧
      (((ofSettings {} Store.prompt ()).after halfway).stop 0).2.Spent
        [.smooth "a", .smooth "b"] := by
  have hrun := handedOver_append_batch_append_queue {} Store.prompt () (halfway ++ windingUp)
  have hstop := handedOver_append_batch_append_queue {} Store.prompt () halfway
  exact ⟨hrun.2.1 (by decide +kernel) (by decide +kernel),
    (hstop.2.2 0 (by decide +kernel) (by decide +kernel)).2⟩

end Writer

end LinkQuality
