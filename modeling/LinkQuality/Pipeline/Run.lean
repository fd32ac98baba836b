import LinkQuality.Pipeline.Basic

/-!
# Running a pipeline on a clock

Background sweep and consumer share one clock. When both wait for the same millisecond, the one
that set its timer first goes first, and each does all it can before the other has its turn.
-/

namespace LinkQuality

/-- **A pipeline on its clock.** -/
structure PipelineRun (σ : Type) where
  /-- The clock, in milliseconds. -/
  now : Nat
  pipeline : Pipeline σ
  /-- Whether the timer of the writer was set before that of the sweep. -/
  writerFirst : Bool := false

namespace PipelineRun

variable {σ : Type}

/-- The consumer does all it can. If it now waits for another time, it has set its timer. -/
def writerTurn (r : PipelineRun σ) : PipelineRun σ :=
  let writer := r.pipeline.writer.run r.now 0
  { r with
    pipeline := { r.pipeline with writer }
    writerFirst := r.writerFirst && writer.wakeTime? = r.pipeline.writer.wakeTime? }

/-- The background sweep does what is due, and sets its timer. -/
def sweepTurn (reading : Timestamp) (r : PipelineRun σ) : PipelineRun σ :=
  let p := if r.pipeline.cache.ticks then (r.pipeline.sweep reading).2 else r.pipeline
  { r with pipeline := { p with cache := p.cache.rearm r.now }, writerFirst := true }

/-- The next turn, if there is one at this time. -/
def turn? (reading : Timestamp) (r : PipelineRun σ) : Option (PipelineRun σ) :=
  let sweep := r.pipeline.cache.sweepDue r.now
  let write := (r.pipeline.writer.turn? r.now).isSome
  if sweep && !(write && r.writerFirst) then some (r.sweepTurn reading)
  else if write then some r.writerTurn
  else none

/-- The next time anyone waits for. -/
def wakeTime? (r : PipelineRun σ) : Option Nat :=
  match r.pipeline.cache.wakeTime?, r.pipeline.writer.wakeTime? with
  | some a, some b => some (min a b)
  | some a, none => some a
  | none, b => b

/-- Takes turns, letting the clock jump up to `limit`. -/
def drive (reading : Timestamp) (limit : Nat) : Nat → PipelineRun σ → PipelineRun σ
  | 0, r => r
  | fuel + 1, r =>
    match r.turn? reading with
    | some r => drive reading limit fuel r
    | none =>
      match r.wakeTime? with
      | some t =>
        if r.now < t ∧ t ≤ limit then drive reading limit fuel { r with now := t } else r
      | none => r

/-- **Runs a pipeline** for `span` milliseconds. Per millisecond there is at most one jump of
the clock, one sweep, and the consumer before and after it. -/
def run (reading : Timestamp) (span : Nat) (r : PipelineRun σ) : PipelineRun σ :=
  { drive reading (r.now + span) (5 * (span + 2)) r with now := r.now + span }

/-- Stops the pipeline. -/
def stop (reading : Timestamp) (r : PipelineRun σ) : PipelineRun σ :=
  let (now, pipeline) := r.pipeline.stop r.now reading
  { r with now, pipeline }

end PipelineRun

end LinkQuality
