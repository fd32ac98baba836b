import LinkQuality.Writer.Flush

/-!
# The consumer and the stop

What the background work does next, one step at a time. The consumer looks first whether it has
been told to end, then for a record, and only then at its timer. A timer that is handled within
five milliseconds keeps its schedule; a later one skips to the next multiple of the interval.

Once the consumer is gone, a stopped writer flushes what is left in its queue, a batch at a time,
and comes to rest. If the consumer was lost on the way, so was the batch it was gathering.
-/

namespace LinkQuality

/-- When a timer that was due at `due` and is handled at `now` is due again, in nanoseconds. -/
def nextDue (now due interval : Nat) : Nat :=
  if due + 5000000 < now then now + interval - (now - due) % interval else due + interval

namespace Writer

variable {σ : Type}

/-- The writer with an empty batch. The consumer reports so before it does anything with what it
has gathered. -/
def takeBatch (w : Writer σ) : Writer σ := { w with batch := [], inFlight := 0 }

/-- Hands over what has been gathered. -/
def handOverBatch (now : Nat) (trigger : Trigger) (w : Writer σ) : Writer σ :=
  handOver now trigger w.batch w.takeBatch

/-- The consumer has taken a record out of the queue. -/
def gather (now : Nat) (record : Record) (queue : List Record) (w : Writer σ) : Writer σ :=
  let w := { w with queue, batch := w.batch ++ [record], inFlight := w.batch.length + 1 }
  if w.limits.batchSize ≤ w.batch.length then w.handOverBatch now .size else w.showBacklog

/-- The timer has come due. -/
def tick (now due : Nat) (w : Writer σ) : Writer σ :=
  let w := { w with
    consumer := .gathering (nextDue (now * 1000000) due w.limits.interval.nanoseconds) }
  if w.batch.isEmpty then w.showBacklog else w.handOverBatch now .timer

/-- The next step of a consumer that gathers. -/
def gatherTurn? (now due : Nat) (w : Writer σ) : Option (Writer σ) :=
  if w.closed then
    some (if w.batch.isEmpty then { w.takeBatch with consumer := .ended }
      else w.handOverBatch now .shutdown)
  else
    match w.queue with
    | record :: queue => some (w.gather now record queue)
    | [] => if due ≤ now * 1000000 then some (w.tick now due) else none

/-- The next step of a stop, when the consumer is gone. -/
def drainTurn (now : Nat) (w : Writer σ) : Writer σ :=
  if w.queue.isEmpty then showBacklog { w.takeBatch with consumer := .stopped }
  else
    let n := w.limits.batchSize
    handOver now .drain (w.queue.take n) { w.takeBatch with queue := w.queue.drop n }

/-- The loss of the consumer is noticed: what it had reported to hold is taken for lost with it. -/
def mourn (w : Writer σ) : Writer σ :=
  let lost := w.inFlight
  tell (.consumerFailed lost)
    { w.takeBatch with
      consumer := .ended
      stats := { w.stats with droppedAfterRetries := w.stats.droppedAfterRetries + lost } }

/-- **The next step of the background work** at time `now`, if there is one. -/
def turn? (now : Nat) (w : Writer σ) : Option (Writer σ) :=
  match w.flight with
  | some f => w.flightTurn? now f
  | none =>
    match w.consumer with
    | .spawned =>
      some { w with consumer := .gathering (now * 1000000 + w.limits.interval.nanoseconds) }
    | .gathering due => w.gatherTurn? now due
    | .idle | .ended => if w.closed then some (w.drainTurn now) else none
    | .crashed => if w.closed then some w.mourn else none
    | .stopped => none

/-- When the background work goes on by itself, if it waits for the clock. -/
def wakeTime? (w : Writer σ) : Option Nat :=
  match w.flight with
  | some f =>
    match f.phase with
    | .asking _ (some ready) => some (min ready f.deadline)
    | .asking _ none => some f.deadline
    | .resting wake => some wake
  | none =>
    match w.consumer with
    | .gathering due => some (Span.ceilMillis ⟨due⟩)
    | _ => none

end Writer

end LinkQuality
