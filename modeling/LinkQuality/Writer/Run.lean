import LinkQuality.Writer.Turn

/-!
# Running the writer on a clock

The clock counts milliseconds and moves only when there is nothing left to do: then it jumps to
the next time the writer waits for. Within a span of time the number of steps is bounded by the
work at hand, so the run ends by itself; the bound is computed from the writer and hidden behind
`run` and `stop`.
-/

namespace LinkQuality.Writer

variable {σ : Type}

/-- Takes steps, letting the clock jump up to `limit` when none is left. Gives the time of the
last step. -/
def drive (limit : Option Nat) : Nat → Nat → Writer σ → Nat × Writer σ
  | 0, now, w => (now, w)
  | fuel + 1, now, w =>
    match w.turn? now with
    | some w => drive limit fuel now w
    | none =>
      match w.wakeTime? with
      | some t => if now < t ∧ limit.all (t ≤ ·) then drive limit fuel t w else (now, w)
      | none => (now, w)

/-- More steps than the flush of one batch can take, jumps of the clock included: per attempt a
few and one for each record. -/
def flushBound (w : Writer σ) : Nat :=
  let size := w.limits.batchSize + w.batch.length +
    (match w.flight with
      | some f => f.batch.length
      | none => 0)
  2 * (w.limits.backoff.maxAttempts + 1) * (size + 6)

/-- More steps than can be taken within a span of time. -/
def workBound (span : Nat) (w : Writer σ) : Nat :=
  (w.queue.length + 4) * (w.flushBound + 4) + 2 * span

/-- **Runs the writer** from time `now` for `span` milliseconds. -/
def run (now span : Nat) (w : Writer σ) : Writer σ :=
  (drive (some (now + span)) (w.workBound span) now w).2

/-- **Stops the writer** at time `now` and runs it until it has come to rest. Gives the time of
that. A writer that was stopped before is left alone. -/
def stop (now : Nat) (w : Writer σ) : Nat × Writer σ :=
  if w.closed then (now, w) else drive none (w.workBound 0) now w.close

end LinkQuality.Writer
