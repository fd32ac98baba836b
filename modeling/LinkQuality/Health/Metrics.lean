import LinkQuality.NameTable

/-!
# Metrics

Counters, gauges and histograms of the writer and of the cache. A metric that is kept per label
is a family: it has a member for each label ever touched, in the order of the labels.

Nothing here depends on what kind of number is counted in. The service counts in whole numbers,
which never lose a step; anything that can be added up serves as well.

How long flushes and sweeps take is a matter of the machine they run on. The writer and the cache
count everything else as they go, and leave their durations to whoever has measured them
(`WriterMetrics.observeFlush`, `CacheMetrics.observeSweep`).
-/

namespace LinkQuality

/-- What a metric can be counted in. -/
class Quantity (ν : Type) where
  ofNat : Nat → ν
  add : ν → ν → ν
  toFloat : ν → Float

instance : Quantity Nat := ⟨id, (· + ·), Float.ofNat⟩
instance : Quantity Float := ⟨Float.ofNat, (· + ·), id⟩

variable {ν : Type}

/-- Nothing counted. -/
def Quantity.zero [Quantity ν] : ν := Quantity.ofNat 0

/-- **A metric kept per label.** -/
abbrev Family (α : Type) : Type := NameTable α

/-- **A histogram**: per upper bound the values that fell below it and not below the one before;
the sum and the number of all values. -/
structure Histogram (ν : Type) where
  buckets : List (Float × Nat)
  sum : ν
  count : Nat

namespace Histogram

/-- A histogram without values. -/
def empty [Quantity ν] (bounds : List Float) : Histogram ν :=
  ⟨bounds.map (·, 0), Quantity.zero, 0⟩

/-- Counts a value in the first bucket that has room for it, if any. -/
def hit (x : Float) : List (Float × Nat) → List (Float × Nat)
  | [] => []
  | (bound, n) :: rest => if x ≤ bound then (bound, n + 1) :: rest else (bound, n) :: hit x rest

/-- The histogram with one more value. -/
def observe [Quantity ν] (h : Histogram ν) (x : ν) : Histogram ν :=
  ⟨hit (Quantity.toFloat x) h.buckets, Quantity.add h.sum x, h.count + 1⟩

end Histogram

/-- **The metrics of the writer.** -/
structure WriterMetrics (ν : Type) where
  /-- Records accepted onto the queue. -/
  accepted : ν
  /-- Records dropped, by reason. -/
  dropped : Family ν
  /-- Records committed to the store. -/
  committed : ν
  /-- Batches committed, by what set off the flush. -/
  batches : Family ν
  /-- Failed attempts, by store. -/
  attemptErrors : Family ν
  /-- Batches dropped after the last attempt. -/
  flushFailures : ν
  /-- Duration of flushes, by store. -/
  flushDuration : Family (Histogram ν)
  /-- Records per committed batch. -/
  batchSize : Histogram ν
  /-- Records accepted and not yet handed to a flush. -/
  queueDepth : ν

namespace WriterMetrics

variable [Quantity ν]

/-- Bounds of flush durations in seconds. -/
def durationBounds : List Float := [0.001, 0.005, 0.01, 0.05, 0.1, 0.5, 1, 5, 30]

/-- Bounds of batch sizes. -/
def sizeBounds : List Float := [1, 10, 50, 100, 250, 500, 1000]

/-- Metrics before anything has happened. -/
def fresh : WriterMetrics ν where
  accepted := Quantity.zero
  dropped := []
  committed := Quantity.zero
  batches := []
  attemptErrors := []
  flushFailures := Quantity.zero
  flushDuration := []
  batchSize := .empty sizeBounds
  queueDepth := Quantity.zero

/-- One more record accepted. -/
def countAccepted (m : WriterMetrics ν) (n : ν) : WriterMetrics ν :=
  { m with accepted := Quantity.add m.accepted n }

/-- More records dropped for a reason. -/
def countDropped (m : WriterMetrics ν) (reason : String) (n : ν) : WriterMetrics ν :=
  { m with dropped := NameTable.update reason Quantity.zero (Quantity.add · n) m.dropped }

/-- More records committed. -/
def countCommitted (m : WriterMetrics ν) (n : ν) : WriterMetrics ν :=
  { m with committed := Quantity.add m.committed n }

/-- More batches committed. -/
def countBatches (m : WriterMetrics ν) (trigger : String) (n : ν) : WriterMetrics ν :=
  { m with batches := NameTable.update trigger Quantity.zero (Quantity.add · n) m.batches }

/-- More attempts failed. -/
def countAttemptErrors (m : WriterMetrics ν) (sink : String) (n : ν) : WriterMetrics ν :=
  { m with attemptErrors := NameTable.update sink Quantity.zero (Quantity.add · n) m.attemptErrors }

/-- More batches dropped. -/
def countFlushFailures (m : WriterMetrics ν) (n : ν) : WriterMetrics ν :=
  { m with flushFailures := Quantity.add m.flushFailures n }

/-- The duration of a flush, in seconds, as it was measured from outside. -/
def observeFlush (m : WriterMetrics ν) (sink : String) (seconds : ν) : WriterMetrics ν :=
  { m with flushDuration :=
      NameTable.update sink (.empty durationBounds) (·.observe seconds) m.flushDuration }

/-- The size of a committed batch. -/
def observeBatch (m : WriterMetrics ν) (size : ν) : WriterMetrics ν :=
  { m with batchSize := m.batchSize.observe size }

/-- The number of records waiting now. -/
def setQueueDepth (m : WriterMetrics ν) (n : ν) : WriterMetrics ν :=
  { m with queueDepth := n }

end WriterMetrics

/-- **The metrics of the cache.** -/
structure CacheMetrics (ν : Type) where
  /-- Nodes known. -/
  nodes : ν
  /-- Samples that gave way to newer ones. -/
  evictions : ν
  /-- Sweeps completed. -/
  sweeps : ν
  /-- Duration of sweeps in seconds. -/
  sweepDuration : Histogram ν

namespace CacheMetrics

variable [Quantity ν]

/-- Bounds of sweep durations in seconds. -/
def durationBounds : List Float := [0.0001, 0.001, 0.01, 0.1, 1]

/-- Metrics before anything has happened. -/
def fresh : CacheMetrics ν where
  nodes := Quantity.zero
  evictions := Quantity.zero
  sweeps := Quantity.zero
  sweepDuration := .empty durationBounds

/-- The number of nodes known now. -/
def setNodes (m : CacheMetrics ν) (n : ν) : CacheMetrics ν := { m with nodes := n }

/-- More samples gave way. -/
def countEvictions (m : CacheMetrics ν) (n : ν) : CacheMetrics ν :=
  { m with evictions := Quantity.add m.evictions n }

/-- More sweeps completed. -/
def countSweeps (m : CacheMetrics ν) (n : ν) : CacheMetrics ν :=
  { m with sweeps := Quantity.add m.sweeps n }

/-- The duration of a sweep, in seconds, as it was measured from outside. -/
def observeSweep (m : CacheMetrics ν) (seconds : ν) : CacheMetrics ν :=
  { m with sweepDuration := m.sweepDuration.observe seconds }

end CacheMetrics

/-- **All metrics of the service.** -/
structure Metrics (ν : Type) where
  writer : WriterMetrics ν
  cache : CacheMetrics ν

/-- Metrics before anything has happened. -/
def Metrics.fresh [Quantity ν] : Metrics ν := ⟨.fresh, .fresh⟩

end LinkQuality
