import LinkQuality.Decimal.Layout
import LinkQuality.Time.Timestamp

/-!
# Samples, minute summaries and records

A sample is what a probe measured on the way to a node at one moment. While it waits in the
cache it does not know whose it is; a record, the unit that is written to a store, does. A
record is made from a sample or from the summary of a minute.
-/

namespace LinkQuality

/-- **One measurement** of the way to a node. -/
structure Sample where
  time : Timestamp
  /-- Round trip in milliseconds. -/
  latency : Float
  /-- Share of packets lost, from zero to one. -/
  loss : Float
  /-- Variation of the latency in milliseconds. -/
  jitter : Float

/-- **One minute of samples, summed up.** -/
structure Summary where
  /-- The start of the minute. -/
  time : Timestamp
  latencyMean : Float
  latencyMax : Float
  latencyMin : Float
  lossMean : Float
  jitterMean : Float
  /-- Number of samples summed up. -/
  count : Nat

/-- **The unit of durable storage**: a measurement with the node it belongs to and the probe
that made it. -/
structure Record where
  node : String
  probe : String
  time : Timestamp
  latency : Float
  loss : Float
  jitter : Float
  /-- Whether the values are means of a minute. -/
  aggregated : Bool

namespace Record

/-- The record of a single sample. -/
def ofSample (node probe : String) (s : Sample) : Record :=
  ⟨node, probe, s.time, s.latency, s.loss, s.jitter, false⟩

/-- The record of a minute; its values are the means. -/
def ofSummary (node probe : String) (s : Summary) : Record :=
  ⟨node, probe, s.time, s.latencyMean, s.lossMean, s.jitterMean, true⟩

end Record

/-! ## Physical ranges -/

/-- Which value of a measurement is out of its range. -/
inductive RangeError where
  | latency (value : Float)
  | jitter (value : Float)
  | loss (value : Float)

namespace RangeError

/-- The wording of a range error. -/
def message : RangeError → String
  | latency x => "invalid latency_ms: " ++ NumberLayout.plain.text x
  | jitter x => "invalid jitter_ms: " ++ NumberLayout.plain.text x
  | loss x => "packet_loss_rate outside [0, 1]: " ++ NumberLayout.plain.text x

end RangeError

/-- Is `x` a finite number not below zero? -/
def isAmount (x : Float) : Bool := x.isFinite && !(x < 0)

/-- Does `x` lie between zero and one? -/
def isShare (x : Float) : Bool := 0 ≤ x && x ≤ 1

/-- **The range check.** Latency and jitter are finite and not negative, loss lies between zero
and one; the first value in breach is reported, latency before jitter before loss. -/
def checkRanges (latency loss jitter : Float) : Except RangeError Unit :=
  if !isAmount latency then .error (.latency latency)
  else if !isAmount jitter then .error (.jitter jitter)
  else if !isShare loss then .error (.loss loss)
  else .ok ()

end LinkQuality
