import LinkQuality.Json.Quoted
import LinkQuality.Metric.Sample

/-!
# Records as JSON lines

One object per record and line, its names in a fixed order. Inside a string a line break is
always escaped, so the lines of a text are its records.
-/

namespace LinkQuality.Record

/-- One name with its value. -/
def field (name : String) (value : List Char) : List Char :=
  Json.quoted name.toList ++ ':' :: value

/-- The word for a truth value. -/
def flag (b : Bool) : List Char := if b then "true".toList else "false".toList

/-- The record as an object on one line. -/
def json (r : Record) : List Char :=
  '\x7b' :: field "node_id" (Json.quoted r.node.toList) ++
    ',' :: field "probe_id" (Json.quoted r.probe.toList) ++
    ',' :: field "timestamp" (Json.quoted r.time.rfc3339) ++
    ',' :: field "latency_ms" (NumberLayout.json.chars r.latency) ++
    ',' :: field "packet_loss_rate" (NumberLayout.json.chars r.loss) ++
    ',' :: field "jitter_ms" (NumberLayout.json.chars r.jitter) ++
    ',' :: field "is_aggregated" (flag r.aggregated) ++ ['\x7d']

/-- **The line of a record**, with its end. -/
def ndjson (r : Record) : List Char := r.json ++ ['\n']

end LinkQuality.Record
