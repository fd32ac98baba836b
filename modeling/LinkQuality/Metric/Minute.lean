import LinkQuality.Metric.Sample

/-!
# Summing up by the minute

Samples are grouped by the minute of their time, each group is folded in the order the samples
came in, and the groups are listed by time. The table of groups is kept sorted by minute, so a
sample finds its group, or the place where a new one belongs, in one walk. What a group folds
into is left open: the grouping is the same for any sums.

Minimum and maximum pass over values that are no numbers. They start at the two infinities,
which is what a minute without any number shows.
-/

namespace LinkQuality

/-- Something kept per minute, in ascending order of time. -/
abbrev MinuteTable (τ : Type) : Type := List (Timestamp × τ)

namespace MinuteTable

variable {τ : Type}

/-- The table with one more sample in the given minute. -/
def record (start : τ) (step : τ → Sample → τ) (minute : Timestamp) (s : Sample) :
    MinuteTable τ → MinuteTable τ
  | [] => [(minute, step start s)]
  | (m, t) :: rest =>
    if minute < m then (minute, step start s) :: (m, t) :: rest
    else if minute = m then (m, step t s) :: rest
    else (m, t) :: record start step minute s rest

/-- **Folds the samples of each minute.** -/
def ofSamples (start : τ) (step : τ → Sample → τ) (samples : List Sample) : MinuteTable τ :=
  samples.foldl (fun table s => record start step s.time.minute s table) []

end MinuteTable

/-- **The running sums of one minute.** -/
structure Tally where
  count : Nat
  latencySum : Float
  latencyMin : Float
  latencyMax : Float
  lossSum : Float
  jitterSum : Float

namespace Tally

/-- Nothing counted yet. -/
def empty : Tally := ⟨0, 0, 1 / 0, -1 / 0, 0, 0⟩

/-- The lesser of two values, or the one that is a number. -/
def lesser (a b : Float) : Float := if a.isNaN || b < a then b else a

/-- The greater of two values, or the one that is a number. -/
def greater (a b : Float) : Float := if a.isNaN || a < b then b else a

/-- The sums with one more sample. -/
def record (t : Tally) (s : Sample) : Tally where
  count := t.count + 1
  latencySum := t.latencySum + s.latency
  latencyMin := lesser t.latencyMin s.latency
  latencyMax := greater t.latencyMax s.latency
  lossSum := t.lossSum + s.loss
  jitterSum := t.jitterSum + s.jitter

/-- The summary of the minute that starts at `time`. -/
def finish (t : Tally) (time : Timestamp) : Summary :=
  let n := Float.ofNat t.count
  { time
    latencyMean := t.latencySum / n
    latencyMax := t.latencyMax
    latencyMin := t.latencyMin
    lossMean := t.lossSum / n
    jitterMean := t.jitterSum / n
    count := t.count }

end Tally

/-- **One summary per minute**, in order of time, whatever the order of the samples. -/
def summarise (samples : List Sample) : List Summary :=
  (MinuteTable.ofSamples Tally.empty Tally.record samples).map fun (m, t) => t.finish m

end LinkQuality
