import LinkQuality.Agent
import LinkQuality.Cache.Basic
import LinkQuality.Cache.Sweep
import LinkQuality.CommandLine.Arguments
import LinkQuality.CommandLine.LogFilter
import LinkQuality.CommandLine.Program
import LinkQuality.Decimal.Binary64
import LinkQuality.Decimal.Layout
import LinkQuality.Decimal.Reading
import LinkQuality.Decimal.Shortest
import LinkQuality.Failure
import LinkQuality.Feed.Run
import LinkQuality.Feed.Sample
import LinkQuality.Health.Address
import LinkQuality.Health.Exposition
import LinkQuality.Health.Metrics
import LinkQuality.Http.Client
import LinkQuality.Http.Request
import LinkQuality.Http.Status
import LinkQuality.Json.Quoted
import LinkQuality.Json.Reading
import LinkQuality.Main
import LinkQuality.Metric.History
import LinkQuality.Metric.Minute
import LinkQuality.Metric.Sample
import LinkQuality.NameTable
import LinkQuality.Network
import LinkQuality.Notice
import LinkQuality.Pipeline.Basic
import LinkQuality.Pipeline.Run
import LinkQuality.Proofs.Agent
import LinkQuality.Proofs.Cache.Accounts
import LinkQuality.Proofs.Cache.Memory
import LinkQuality.Proofs.Cache.Sweep
import LinkQuality.Proofs.Decimal.Arithmetic
import LinkQuality.Proofs.Decimal.Digits
import LinkQuality.Proofs.Decimal.Rounding
import LinkQuality.Proofs.Decimal.Units
import LinkQuality.Proofs.Feed.Fold
import LinkQuality.Proofs.Feed.Interruption
import LinkQuality.Proofs.Feed.Lines
import LinkQuality.Proofs.Feed.RoundTrip
import LinkQuality.Proofs.Http.Redirects
import LinkQuality.Proofs.Json.Quoted
import LinkQuality.Proofs.Json.Reading
import LinkQuality.Proofs.Metric.BoundedQueue
import LinkQuality.Proofs.Metric.Extremes
import LinkQuality.Proofs.Metric.Grouping
import LinkQuality.Proofs.Metric.History
import LinkQuality.Proofs.Metric.Minute
import LinkQuality.Proofs.Metric.Partition
import LinkQuality.Proofs.Metric.Ranges
import LinkQuality.Proofs.NameTable
import LinkQuality.Proofs.Pipeline.Act
import LinkQuality.Proofs.Pipeline.Archive
import LinkQuality.Proofs.Pipeline.Coverage
import LinkQuality.Proofs.Pipeline.Deferral
import LinkQuality.Proofs.Pipeline.Intake
import LinkQuality.Proofs.Pipeline.Keyed
import LinkQuality.Proofs.Pipeline.Past
import LinkQuality.Proofs.Pipeline.Run
import LinkQuality.Proofs.Pipeline.Shutdown
import LinkQuality.Proofs.Pipeline.Use
import LinkQuality.Proofs.Pipeline.VisitOrder
import LinkQuality.Proofs.Pipeline.Workers
import LinkQuality.Proofs.Settings.Check
import LinkQuality.Proofs.Settings.Components
import LinkQuality.Proofs.Settings.Overlay
import LinkQuality.Proofs.Store.Dsn
import LinkQuality.Proofs.Store.Posting
import LinkQuality.Proofs.Store.Staging
import LinkQuality.Proofs.Store.Statement
import LinkQuality.Proofs.Time.Calendar
import LinkQuality.Proofs.Time.Minute
import LinkQuality.Proofs.Time.Reading
import LinkQuality.Proofs.Time.Span
import LinkQuality.Proofs.Writer.Accounts
import LinkQuality.Proofs.Writer.Admission
import LinkQuality.Proofs.Writer.Atomicity
import LinkQuality.Proofs.Writer.Backoff
import LinkQuality.Proofs.Writer.Batches
import LinkQuality.Proofs.Writer.Books
import LinkQuality.Proofs.Writer.Clock
import LinkQuality.Proofs.Writer.Conservation
import LinkQuality.Proofs.Writer.Counters
import LinkQuality.Proofs.Writer.Courses
import LinkQuality.Proofs.Writer.Gauge
import LinkQuality.Proofs.Writer.Insertion
import LinkQuality.Proofs.Writer.Ledger
import LinkQuality.Proofs.Writer.Metrics
import LinkQuality.Proofs.Writer.Past
import LinkQuality.Proofs.Writer.Rest
import LinkQuality.Proofs.Writer.Retries
import LinkQuality.Proofs.Writer.Rollback
import LinkQuality.Proofs.Writer.Schedule
import LinkQuality.Proofs.Writer.Sound
import LinkQuality.Proofs.Writer.Step
import LinkQuality.Proofs.Writer.Timeliness
import LinkQuality.Proofs.Writer.Transcript
import LinkQuality.Refusal
import LinkQuality.Settings.Basic
import LinkQuality.Settings.Check
import LinkQuality.Settings.Reading
import LinkQuality.Store.Basic
import LinkQuality.Store.ClickHouse
import LinkQuality.Store.Compression
import LinkQuality.Store.Dsn
import LinkQuality.Store.Http
import LinkQuality.Store.Keyed
import LinkQuality.Store.Ndjson
import LinkQuality.Store.Scripted
import LinkQuality.Store.Statement
import LinkQuality.Text.Blank
import LinkQuality.Text.Hexadecimal
import LinkQuality.Time.Calendar
import LinkQuality.Time.Reading
import LinkQuality.Time.Span
import LinkQuality.Time.SpanText
import LinkQuality.Time.Timestamp
import LinkQuality.Writer.Backoff
import LinkQuality.Writer.Basic
import LinkQuality.Writer.Flush
import LinkQuality.Writer.Run
import LinkQuality.Writer.Turn
import LinkQuality.Yaml.Document
import LinkQuality.Yaml.Layout
import LinkQuality.Yaml.Node
import LinkQuality.Yaml.Place
import LinkQuality.Yaml.Scalar
import LinkQuality.Yaml.Token
