import LinkQuality.NameTable
import LinkQuality.Settings.Check
import LinkQuality.Time.SpanText
import LinkQuality.Yaml.Document

/-!
# Reading settings

Settings are written in YAML. What is not mentioned keeps its default, and keys that mean nothing
here are passed over with whatever stands under them; a key that means something may occur once.
Any scalar serves as a text. A number or truth value is a plain scalar, or a block of lines with a
tag that says so.
-/

namespace LinkQuality

open Yaml (Node Document)

/-! ## Values -/

namespace Yaml.Document

/-- The text of a scalar. -/
def text? (d : Document) (n : Node) : Option String :=
  match d.content n with
  | some (.scalar s) => some (String.ofList s.text)
  | _ => none

/-- The characters of a scalar that can be a value of a kind. A plain scalar can be of any kind,
whatever its tag. -/
def value? (kind : String) (d : Document) (n : Node) : Option (List Char) :=
  match d.content n with
  | some (.scalar s) =>
    if s.style = .plain then some s.text
    else if s.style = .literal && s.tag = some ("tag:yaml.org,2002:" ++ kind).toList then
      some s.text
    else none
  | _ => none

/-- The value of digits in a base, of which there is at least one. -/
def natOfBase? (base : Nat) (cs : List Char) : Option Nat :=
  if cs.isEmpty then none
  else cs.foldlM (fun n c => do
    let digit ← Text.hexValue? c
    if digit < base then some (n * base + digit) else none) 0

/-- A number that is not negative: decimal without leading zeros, or in one of three other bases,
after a plus sign or none. -/
def readNat : List Char → Option Nat
  | '+' :: cs => unsigned cs
  | cs => unsigned cs
where
  unsigned : List Char → Option Nat
    | '0' :: 'x' :: cs => natOfBase? 16 cs
    | '0' :: 'o' :: cs => natOfBase? 8 cs
    | '0' :: 'b' :: cs => natOfBase? 2 cs
    | ['0'] => some 0
    | '0' :: _ => none
    | cs => natOfBase? 10 cs

/-- A whole number below a limit. -/
def nat? (d : Document) (limit : Nat) (n : Node) : Option Nat := do
  let value ← readNat (← d.value? "int" n)
  if value < limit then some value else none

/-- A truth value, in small letters, capitals or capitalised. -/
def bool? (d : Document) (n : Node) : Option Bool := do
  let word := String.ofList (← d.value? "bool" n)
  if ["true", "True", "TRUE"].contains word then some true
  else if ["false", "False", "FALSE"].contains word then some false
  else none

/-- The words for infinity, and for what is no number. -/
def infinityWords : List String := [".inf", ".Inf", ".INF"]

@[inherit_doc infinityWords]
def nanWords : List String := [".nan", ".NaN", ".NAN"]

/-- A double: a word, or a decimal within the range of doubles. -/
def readFloat (cs : List Char) : Option Float :=
  let unsigned := match cs with
    | '+' :: rest => rest
    | rest => rest
  if infinityWords.contains (String.ofList unsigned) then some (1.0 / 0.0)
  else if infinityWords.any fun word => cs = '-' :: word.toList then some (-1.0 / 0.0)
  else if nanWords.contains (String.ofList cs) then some (0.0 / 0.0)
  else (Decimal.readFloat false cs).filter Float.isFinite

/-- A double. -/
def float? (d : Document) (n : Node) : Option Float := d.value? "float" n >>= readFloat

/-- A length of time. -/
def span? (d : Document) (n : Node) : Option Span := do
  Span.ofText? (← d.text? n).toList

/-- The entries of a mapping. Where a node is left out there are none. -/
def entries? (d : Document) (n : Node) : Option (List (String × Node)) :=
  match d.content n with
  | some (.mapping entries) => entries.mapM fun (k, v) => (d.text? k).map (·, v)
  | some (.scalar ⟨[], .plain, _⟩) => some []
  | _ => none

end Yaml.Document

/-! ## Parts -/

/-- **What a key of a mapping is given.** A key that is left out stands for `absent`, one that is
given twice stands for nothing. -/
def Yaml.Document.given {α : Type} (d : Document) (entries : List (String × Node)) (name : String)
    (read : Document → Node → Option α) (absent : α) : Option α :=
  match entries.filter (·.1 = name) with
  | [] => some absent
  | [(_, n)] => read d n
  | _ => none

/-- Reads the settings of the cache. -/
def CacheSettings.read (d : Document) (n : Node) : Option CacheSettings := do
  let entries ← d.entries? n
  return {
    capacity := ← d.given entries "capacity" (·.nat? UInt64.size) History.defaultCapacity
    sweepInterval := ← d.given entries "sweep_interval" (·.span?) (.ofSeconds 60)
    persistAggregates := ← d.given entries "persist_aggregates" (·.bool?) false }

/-- Reads the settings of the writer. -/
def WriterSettings.read (d : Document) (n : Node) : Option WriterSettings := do
  let entries ← d.entries? n
  return {
    queueCapacity := ← d.given entries "queue_capacity" (·.nat? UInt64.size) 1000
    batchSize := ← d.given entries "batch_size" (·.nat? UInt64.size) 100
    flushInterval := ← d.given entries "flush_interval" (·.span?) (.ofSeconds 60)
    maxAttempts := ← d.given entries "max_attempts" (·.nat? UInt32.size) 3
    retryBaseDelay := ← d.given entries "retry_base_delay" (·.span?) (.ofSeconds 1)
    retryMultiplier := ← d.given entries "retry_multiplier" (·.float?) 2
    maxRetryDelay := ← d.given entries "max_retry_delay" (·.span?) (.ofSeconds 30)
    transactionTimeout := ← d.given entries "transaction_timeout" (·.span?) (.ofSeconds 30) }

/-- Reads the settings of a ClickHouse server. -/
def ClickHouseSettings.read (d : Document) (n : Node) : Option ClickHouseSettings := do
  let entries ← d.entries? n
  return {
    enabled := ← d.given entries "enabled" (·.bool?) false
    endpoint := ← d.given entries "endpoint" (·.text?) ""
    database := ← d.given entries "database" (·.text?) "default"
    table := ← d.given entries "table" (·.text?) "network_metrics"
    username := ← d.given entries "username" (·.text?) ""
    password := ← d.given entries "password" (·.text?) "" }

/-- Headers of a request; of several with one name the last counts. -/
def readHeaders (d : Document) (n : Node) : Option (NameTable String) := do
  (← d.entries? n).foldlM (fun table (name, value) => do
    some (table.insert name (← d.text? value))) []

/-- Reads the settings of an HTTP service. -/
def HttpSettings.read (d : Document) (n : Node) : Option HttpSettings := do
  let entries ← d.entries? n
  return {
    enabled := ← d.given entries "enabled" (·.bool?) false
    address := ← d.given entries "address" (·.text?) ""
    headers := ← d.given entries "headers" readHeaders []
    compression := ← d.given entries "compression" (·.text?) "gzip"
    timeout := ← d.given entries "timeout" (·.span?) (.ofSeconds 30)
    keepAlive := ← d.given entries "keep_alive" (·.bool?) true }

/-- Reads the choice of the store. -/
def SinkSettings.read (d : Document) (n : Node) : Option SinkSettings := do
  let entries ← d.entries? n
  return {
    clickHouse := ← d.given entries "clickhouse" ClickHouseSettings.read {}
    http := ← d.given entries "http" HttpSettings.read {} }

/-- Reads the place where metrics are served, which is kept as it is written. -/
def Settings.readHealth (d : Document) (n : Node) : Option String := do
  let entries ← d.entries? n
  d.given entries "addr" (·.text?) ":9090"

/-! ## Settings -/

/-- **Reads all settings.** A part that is left out as a whole has the settings it has when nothing
is said about it. -/
def Settings.read (d : Document) (n : Node) : Option Settings := do
  let entries ← d.entries? n
  return {
    logLevel := ← d.given entries "log_level" (·.text?) "info"
    cache := ← d.given entries "cache" CacheSettings.read {}
    writer := ← d.given entries "writer" WriterSettings.read {}
    sink := ← d.given entries "sink" SinkSettings.read {}
    healthAddress := ← d.given entries "health" Settings.readHealth (Settings.healthAddress {}) }

/-- The settings a text describes, not yet checked. A text that holds nothing is like one whose root
is left out. -/
def Settings.read? (text : List Char) : Option Settings := do
  let d := (← Document.ofText text).getD (.ofRoot .absent)
  Settings.read d d.root

/-- **Reads and checks settings.** -/
def Settings.ofText (text : String) : Except SettingsError Settings :=
  match Settings.read? text.toList with
  | none => .error .malformed
  | some s => do
    s.check
    .ok s

end LinkQuality
