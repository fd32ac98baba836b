import LinkQuality.Json.Reading
import LinkQuality.Metric.Sample
import LinkQuality.Time.Reading

/-!
# Samples in a feed

A feed line is a JSON object, or a list of the same values in a fixed order. Names that are not
known are passed over, names that are known may come once. Only the time may be left open; it is
then the time at which the line is read.
-/

namespace LinkQuality

/-- **A sample as a feed brings it.** -/
structure FeedSample where
  node : String
  probe : String
  /-- The time of the measurement; without one it counts as made now. -/
  time : Option Timestamp
  latency : Float
  loss : Float
  jitter : Float

namespace FeedSample

/-- The sample proper, read at time `now`. -/
def toSample (s : FeedSample) (now : Timestamp) : Sample :=
  ⟨s.time.getD now, s.latency, s.loss, s.jitter⟩

/-- The range check of the values. -/
def check (s : FeedSample) : Except RangeError Unit := checkRanges s.latency s.loss s.jitter

/-! ## Reading -/

/-- The values read so far. -/
structure Draft where
  node : Option String := none
  probe : Option String := none
  time : Option (Option Timestamp) := none
  latency : Option Float := none
  loss : Option Float := none
  jitter : Option Float := none

/-- The sample, once node, probe and latency are there. -/
def Draft.finish (d : Draft) : Option FeedSample := do
  some { node := ← d.node
         probe := ← d.probe
         time := d.time.getD none
         latency := ← d.latency
         loss := d.loss.getD 0
         jitter := d.jitter.getD 0 }

/-- A string value. -/
def readString (cs : List Char) : Option (String × List Char) :=
  match Json.skipBlanks cs with
  | '"' :: rest => (Json.readString rest).map fun (s, r) => (String.ofList s, r)
  | _ => none

/-- A number value. -/
def readNumber (cs : List Char) : Option (Float × List Char) :=
  Json.readNumber (Json.skipBlanks cs)

/-- A time, or the word for none. -/
def readTime (cs : List Char) : Option (Option Timestamp × List Char) :=
  match Json.skipBlanks cs with
  | '"' :: rest => do
    let (text, rest) ← Json.readString rest
    some (some (← Timestamp.ofText? text), rest)
  | cs => (Json.readWord ['n', 'u', 'l', 'l'] cs).map (none, ·)

/-- The known values, in the order of the list form. -/
inductive Key where
  | node
  | probe
  | time
  | latency
  | loss
  | jitter
  deriving DecidableEq, Repr

/-- The name of a value in the object form. -/
def Key.name : Key → String
  | node => "node_id"
  | probe => "probe_id"
  | time => "timestamp"
  | latency => "latency_ms"
  | loss => "packet_loss_rate"
  | jitter => "jitter_ms"

/-- All known values, in order. -/
def Key.all : List Key := [.node, .probe, .time, .latency, .loss, .jitter]

/-- Has the value been read already? -/
def Draft.has (d : Draft) : Key → Bool
  | .node => d.node.isSome
  | .probe => d.probe.isSome
  | .time => d.time.isSome
  | .latency => d.latency.isSome
  | .loss => d.loss.isSome
  | .jitter => d.jitter.isSome

/-- Reads one known value into the draft. -/
def Draft.read (d : Draft) (key : Key) (cs : List Char) : Option (Draft × List Char) :=
  match key with
  | .node => (readString cs).map fun (x, r) => ({ d with node := some x }, r)
  | .probe => (readString cs).map fun (x, r) => ({ d with probe := some x }, r)
  | .time => (readTime cs).map fun (x, r) => ({ d with time := some x }, r)
  | .latency => (readNumber cs).map fun (x, r) => ({ d with latency := some x }, r)
  | .loss => (readNumber cs).map fun (x, r) => ({ d with loss := some x }, r)
  | .jitter => (readNumber cs).map fun (x, r) => ({ d with jitter := some x }, r)

/-- Reads one name with its value. -/
def Draft.readMember (d : Draft) (cs : List Char) : Option (Draft × List Char) :=
  match Json.skipBlanks cs with
  | '"' :: rest => do
    let (name, rest) ← Json.readString rest
    match Json.skipBlanks rest with
    | ':' :: rest =>
      match Key.all.find? (·.name = String.ofList name) with
      | some key => if d.has key then none else d.read key rest
      | none => (Json.skipValue rest).map (d, ·)
    | _ => none
  | _ => none

/-- Reads names and values up to the closing brace. Each takes a character at least. -/
def Draft.readMembers : Nat → Draft → List Char → Option (Draft × List Char)
  | 0, _, _ => none
  | fuel + 1, d, cs => do
    let (d, rest) ← d.readMember cs
    match Json.skipBlanks rest with
    | ',' :: rest => readMembers fuel d rest
    | '\x7d' :: rest => some (d, rest)
    | _ => none

/-- Reads values in order up to the closing bracket. -/
def Draft.readItems : List Key → Draft → List Char → Option (Draft × List Char)
  | [], _, _ => none
  | key :: keys, d, cs => do
    let (d, rest) ← d.read key cs
    match Json.skipBlanks rest with
    | ',' :: rest => readItems keys d rest
    | ']' :: rest => some (d, rest)
    | _ => none

/-- Reads an object or a list. -/
def Draft.readValue (cs : List Char) : Option (Draft × List Char) :=
  match Json.skipBlanks cs with
  | '\x7b' :: rest =>
    match Json.skipBlanks rest with
    | '\x7d' :: rest => some ({}, rest)
    | _ => Draft.readMembers (rest.length + 1) {} rest
  | '[' :: rest => Draft.readItems Key.all {} rest
  | _ => none

/-- **The sample a text stands for.** Only white space may follow it. -/
def ofText? (cs : List Char) : Option FeedSample := do
  let (d, rest) ← Draft.readValue cs
  if (Json.skipBlanks rest).isEmpty then d.finish else none

end FeedSample

end LinkQuality
