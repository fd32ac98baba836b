import LinkQuality.Decimal.Layout
import LinkQuality.Settings.Basic

/-!
# Checking settings

Settings are accepted as a whole or refused for the first fault in a fixed order: cache, writer,
choice of the store, then the chosen store alone. A fault is a value of its own; its wording is
in one place.
-/

namespace LinkQuality

/-- **Why settings are refused.** -/
inductive SettingsError where
  /-- The text is no description of settings at all. -/
  | malformed
  | cacheCapacity
  | sweepInterval
  | queueCapacity
  | batchSize
  | flushInterval
  | maxAttempts
  | retryMultiplier (value : Float)
  | retryDelays
  | transactionTimeout
  | bothSinks
  | noSink
  | clickHouseEndpoint
  | clickHouseTable
  | httpAddress
  | httpTimeout
  | compression (name : String)

namespace SettingsError

/-- The wording of a fault. -/
def message : SettingsError → String
  | malformed => "parsing config"
  | cacheCapacity => "cache.capacity must be positive"
  | sweepInterval => "cache.sweep_interval must be positive"
  | queueCapacity => "writer.queue_capacity must be positive"
  | batchSize => "writer.batch_size must be positive"
  | flushInterval => "writer.flush_interval must be positive"
  | maxAttempts => "writer.max_attempts must be at least 1"
  | retryMultiplier x =>
    "writer.retry_multiplier must be a finite value >= 1, got " ++ NumberLayout.plain.text x
  | retryDelays => "writer.max_retry_delay must not be shorter than writer.retry_base_delay"
  | transactionTimeout => "writer.transaction_timeout must be positive"
  | bothSinks => "only one of sink.clickhouse and sink.http may be enabled"
  | noSink => "one of sink.clickhouse or sink.http must be enabled"
  | clickHouseEndpoint => "clickhouse endpoint is required when enabled"
  | clickHouseTable => "clickhouse table is required when enabled"
  | httpAddress => "http address is required when enabled"
  | httpTimeout => "http timeout must be positive when enabled"
  | compression name => "invalid compression type: " ++ name

end SettingsError

/-- Refuses with `fault` unless the condition holds. -/
def requires (condition : Bool) (fault : SettingsError) : Except SettingsError Unit :=
  if condition then .ok () else .error fault

/-- Checks the cache. -/
def CacheSettings.check (s : CacheSettings) : Except SettingsError Unit := do
  requires (s.capacity ≠ 0) .cacheCapacity
  requires (!s.sweepInterval.isZero) .sweepInterval

/-- Checks the writer. A factor below one would let the waits shrink. -/
def WriterSettings.check (s : WriterSettings) : Except SettingsError Unit := do
  requires (s.queueCapacity ≠ 0) .queueCapacity
  requires (s.batchSize ≠ 0) .batchSize
  requires (!s.flushInterval.isZero) .flushInterval
  requires (s.maxAttempts ≠ 0) .maxAttempts
  requires (1 ≤ s.retryMultiplier && s.retryMultiplier.isFinite)
    (.retryMultiplier s.retryMultiplier)
  requires (s.retryBaseDelay ≤ s.maxRetryDelay) .retryDelays
  requires (!s.transactionTimeout.isZero) .transactionTimeout

/-- Checks a ClickHouse server that is enabled. -/
def ClickHouseSettings.check (s : ClickHouseSettings) : Except SettingsError Unit := do
  requires (s.endpoint ≠ "") .clickHouseEndpoint
  requires (s.table ≠ "") .clickHouseTable

/-- The names of compressions a batch can be sent with. -/
def HttpSettings.compressions : List String := ["none", "gzip", "zstd", "zlib"]

/-- Checks an HTTP service that is enabled. -/
def HttpSettings.check (s : HttpSettings) : Except SettingsError Unit := do
  requires (s.address ≠ "") .httpAddress
  requires (!s.timeout.isZero) .httpTimeout
  requires (compressions.contains s.compression) (.compression s.compression)

/-- Checks the choice of the store. Only the chosen one is looked at any further. -/
def SinkSettings.check (s : SinkSettings) : Except SettingsError Unit :=
  match s.clickHouse.enabled, s.http.enabled with
  | true, true => .error .bothSinks
  | false, false => .error .noSink
  | true, false => s.clickHouse.check
  | false, true => s.http.check

/-- **Checks all settings**, and gives the first fault. -/
def Settings.check (s : Settings) : Except SettingsError Unit := do
  s.cache.check
  s.writer.check
  s.sink.check

end LinkQuality
