import LinkQuality.Decimal.Layout
import LinkQuality.Health.Metrics

/-!
# The text form of metrics

The form in which metrics are scraped: per metric a line of help, a line with its type and a
line per value, the metrics in order of their names. A family without members is left out, and
the buckets of a histogram are written as running totals with a last one that has no bound.
-/

namespace LinkQuality

namespace Exposition

/-- What all metric names begin with. -/
def space : String := "netquality_"

/-- A label value inside its quotes. -/
def escaped (label : String) : String :=
  String.ofList <| label.toList.flatMap fun c =>
    if c = '\\' then ['\\', '\\']
    else if c = '\n' then ['\\', 'n']
    else if c = '"' then ['\\', '"']
    else [c]

/-- Labels in braces; nothing without labels. -/
def labelled (labels : List (String × String)) : String :=
  if labels.isEmpty then ""
  else
    let parts := labels.map fun (name, value) => name ++ "=\"" ++ escaped value ++ "\""
    "\x7b" ++ String.intercalate "," parts ++ "\x7d"

/-- One line with a value. -/
def line (name : String) (labels : List (String × String)) (value : String) : String :=
  space ++ name ++ labelled labels ++ " " ++ value

/-- The two lines that introduce a metric. -/
def heading (name kind help : String) : List String :=
  ["# HELP " ++ space ++ name ++ " " ++ help, "# TYPE " ++ space ++ name ++ " " ++ kind]

variable {ν : Type} [Quantity ν]

/-- The text of a value. -/
def valueText (x : ν) : String := NumberLayout.plain.text (Quantity.toFloat x)

/-- A metric with one value. -/
def single (name kind help : String) (x : ν) : List String :=
  heading name kind help ++ [line name [] (valueText x)]

/-- A counter kept per label. -/
def family (name label help : String) (xs : Family ν) : List String :=
  if xs.isEmpty then []
  else heading name "counter" help ++
    xs.map fun (l, x) => line name [(label, l)] (valueText x)

/-- The lines of one histogram. -/
def histogramLines (name : String) (labels : List (String × String)) (h : Histogram ν) :
    List String :=
  let bucket (bound : String) (n : Nat) : String :=
    line (name ++ "_bucket") (labels ++ [("le", bound)]) (toString n)
  let rec totals (sofar : Nat) : List (Float × Nat) → List String
    | [] => []
    | (bound, n) :: rest =>
      bucket (NumberLayout.plain.text bound) (sofar + n) :: totals (sofar + n) rest
  totals 0 h.buckets ++
    [bucket "+Inf" h.count,
     line (name ++ "_sum") labels (valueText h.sum),
     line (name ++ "_count") labels (toString h.count)]

/-- A histogram. -/
def histogram (name help : String) (h : Histogram ν) : List String :=
  heading name "histogram" help ++ histogramLines name [] h

/-- A histogram kept per label. -/
def histograms (name label help : String) (hs : Family (Histogram ν)) : List String :=
  if hs.isEmpty then []
  else heading name "histogram" help ++
    hs.flatMap fun (l, h) => histogramLines name [(label, l)] h

end Exposition

open Exposition in
/-- **The lines of all metrics**, in order of their names. -/
def Metrics.lines {ν : Type} [Quantity ν] (m : Metrics ν) : List String :=
  single "batch_flush_failures_total" "counter" "Total batches dropped after exhausting retries."
    m.writer.flushFailures ++
  histogram "batch_size" "Records per flushed batch." m.writer.batchSize ++
  family "batches_flushed_total" "trigger" "Total batches committed by flush trigger."
    m.writer.batches ++
  single "cache_evictions_total" "counter" "Total samples overwritten in node ring buffers."
    m.cache.evictions ++
  single "cache_nodes" "gauge" "Number of nodes with a ring buffer." m.cache.nodes ++
  single "cache_sweeps_total" "counter" "Total aggregation sweeps." m.cache.sweeps ++
  family "flush_attempt_errors_total" "sink" "Total failed flush attempts by sink."
    m.writer.attemptErrors ++
  histograms "flush_duration_seconds" "sink" "Batch flush duration including retries."
    m.writer.flushDuration ++
  single "queue_depth" "gauge" "Records accepted but not yet handed to a flush."
    m.writer.queueDepth ++
  single "records_accepted_total" "counter" "Total records accepted onto the writer queue."
    m.writer.accepted ++
  single "records_committed_total" "counter" "Total records committed to the sink."
    m.writer.committed ++
  family "records_dropped_total" "reason" "Total records dropped by reason." m.writer.dropped ++
  histogram "sweep_duration_seconds" "Aggregation sweep duration." m.cache.sweepDuration

end LinkQuality
