import LinkQuality.Metric.History
import LinkQuality.Time.Span

/-!
# Settings

What an operator can decide, with the value each setting has when nothing is said about it. The
settings are plain values: whether they make sense together is checked in one place, before any
part of the service is built from them.
-/

namespace LinkQuality

/-- The samples kept in memory. -/
structure CacheSettings where
  /-- Samples kept per node. -/
  capacity : Nat := History.defaultCapacity
  /-- Time between two sweeps over all nodes. -/
  sweepInterval : Span := .ofSeconds 60
  /-- Whether completed minutes are written to the store. -/
  persistAggregates : Bool := false
  deriving DecidableEq

/-- How records are gathered into batches and written. -/
structure WriterSettings where
  /-- Records that can wait; more are turned away. -/
  queueCapacity : Nat := 1000
  /-- Records per batch. -/
  batchSize : Nat := 100
  /-- The longest a part of a batch waits for the rest. -/
  flushInterval : Span := .ofSeconds 60
  /-- Attempts per batch, the first included. -/
  maxAttempts : Nat := 3
  /-- Wait after the first failed attempt. -/
  retryBaseDelay : Span := .ofSeconds 1
  /-- Factor from one wait to the next. -/
  retryMultiplier : Float := 2
  /-- The longest wait between two attempts. -/
  maxRetryDelay : Span := .ofSeconds 30
  /-- The longest one attempt may take. -/
  transactionTimeout : Span := .ofSeconds 30

/-- A ClickHouse server as the store. -/
structure ClickHouseSettings where
  enabled : Bool := false
  /-- Host and port of the server. -/
  endpoint : String := ""
  database : String := "default"
  table : String := "network_metrics"
  username : String := ""
  password : String := ""
  deriving DecidableEq

/-- An HTTP service as the store. -/
structure HttpSettings where
  enabled : Bool := false
  /-- Where batches are posted to. -/
  address : String := ""
  /-- Headers added to each request. -/
  headers : List (String × String) := []
  /-- Name of the compression: `none`, `gzip`, `zstd` or `zlib`. -/
  compression : String := "gzip"
  timeout : Span := .ofSeconds 30
  keepAlive : Bool := true
  deriving DecidableEq

/-- The choice of the store; exactly one is to be enabled. -/
structure SinkSettings where
  clickHouse : ClickHouseSettings := {}
  http : HttpSettings := {}
  deriving DecidableEq

/-- **All settings of the service.** -/
structure Settings where
  logLevel : String := "info"
  cache : CacheSettings := {}
  writer : WriterSettings := {}
  sink : SinkSettings := {}
  /-- Where the metrics are served; a port alone stands for every interface. -/
  healthAddress : String := ":9090"

end LinkQuality
