import LinkQuality.Health.Metrics
import LinkQuality.Notice
import LinkQuality.Store.Basic
import LinkQuality.Writer.Backoff

/-!
# The batch writer

Records wait in a queue. A consumer takes them out one by one into a batch, and hands the batch
to a flush when it is full, when it has waited long enough, or when the consumer is told to end.
A flush carries its batch through one transaction after the other until one commits or the
attempts are used up; while it lasts the consumer takes nothing. When the writer is stopped, the
consumer ends first, and what is left in the queue is flushed after that.

The writer here is a value, and everything that happens to it is a function on that value. A call
is one such function, and so is each step of the consumer: calls come between steps in any order,
but none overlaps with a step or with another call. What has happened is kept as a history, latest
first: it is what the writer can be judged by.
-/

namespace LinkQuality

/-- **The bounds the writer works within.** None of them is zero. -/
structure Limits where
  /-- Records that can wait in the queue. -/
  capacity : Nat
  /-- Records per batch. -/
  batchSize : Nat
  /-- The longest a part of a batch waits. -/
  interval : Span
  /-- The longest one attempt may take. -/
  timeout : Span
  backoff : Backoff
  capacity_pos : 0 < capacity
  batchSize_pos : 0 < batchSize
  interval_ge : 1000000 ≤ interval.nanoseconds

/-- The bounds that settings ask for: no number below one, no interval below a millisecond. There is
always a writer for them: that a queue may be too large to be set up, or an interval too long for a
clock, is left out. -/
def Limits.ofSettings (s : WriterSettings) : Limits where
  capacity := max s.queueCapacity 1
  batchSize := max s.batchSize 1
  interval := ⟨max s.flushInterval.nanoseconds 1000000⟩
  timeout := s.transactionTimeout
  backoff := .ofSettings s
  capacity_pos := by omega
  batchSize_pos := by omega
  interval_ge := Nat.le_max_right ..

/-- Lifetime counts of a writer. -/
structure WriterStats where
  accepted : Nat := 0
  droppedQueueFull : Nat := 0
  droppedAfterRetries : Nat := 0
  batchesCommitted : Nat := 0
  recordsCommitted : Nat := 0
  flushFailures : Nat := 0
  deriving DecidableEq, Repr

/-! ## A flush under way -/

/-- The request a flush waits for an answer to. -/
inductive Pending where
  | begin
  /-- One record is with the store, `rest` comes after it. -/
  | insert (record : Record) (rest : List Record)
  | commit
  /-- An insertion failed for `cause`. -/
  | rollback (cause : Failure)

/-- What the store is asked for, in the transaction of a batch. -/
def Pending.request (batch : List Record) : Pending → Request
  | begin => .begin
  | insert record _ => .insert record
  | commit => .commit batch
  | rollback _ => .rollback

/-- The insertion of the next record, or the commit when there is none. -/
def Pending.next : List Record → Pending
  | [] => .commit
  | record :: rest => .insert record rest

/-- What a flush waits for. Times are milliseconds of the clock. -/
inductive Phase where
  /-- For the store, which answers at `ready` if at all. -/
  | asking (pending : Pending) (ready : Option Nat)
  /-- For the next attempt, which begins at `wake`. -/
  | resting (wake : Nat)

/-- **A flush under way.** -/
structure Flight where
  trigger : Trigger
  batch : List Record
  /-- Number of the present attempt, or of the last one while resting. -/
  attempt : Nat
  /-- When the present attempt is given up. -/
  deadline : Nat
  phase : Phase

/-! ## The writer -/

/-- Where the consumer is. -/
inductive Consumer where
  /-- There has been none. -/
  | idle
  /-- It has not yet looked at the clock. -/
  | spawned
  /-- It gathers records; its timer is due at `due`, in nanoseconds of the clock. -/
  | gathering (due : Nat)
  /-- It has ended because it was told to. -/
  | ended
  /-- It did not survive an answer of the store. -/
  | crashed
  /-- It is gone, and the writer has come to rest for good. -/
  | stopped
  deriving DecidableEq, Repr

/-- **What happens to a writer.** -/
inductive WriterEvent where
  /-- A record was accepted. -/
  | accepted (record : Record)
  /-- A batch was handed to a flush. -/
  | handedOver (trigger : Trigger) (batch : List Record)
  /-- An attempt at the batch began. -/
  | attempted (time : Nat) (number : Nat)
  /-- The store was asked for something. -/
  | asked (time : Nat) (request : Request)
  /-- The store answered. -/
  | answered (time : Nat) (request : Request) (reply : Reply)
  /-- An attempt failed. -/
  | attemptFailed (time : Nat) (number : Nat) (why : Failure)
  /-- The batch was committed. -/
  | committed (trigger : Trigger) (batch : List Record)
  /-- The batch was dropped. -/
  | dropped (trigger : Trigger) (batch : List Record)
  /-- The operator was told something. -/
  | told (notice : Notice)

/-- **A batch writer** in front of a store. -/
structure Writer (σ : Type) where
  limits : Limits
  store : Store σ
  /-- The state of the store. -/
  state : σ
  /-- Records accepted and not yet taken by the consumer, oldest first. -/
  queue : List Record := []
  /-- Records the consumer has taken and not yet handed to a flush. -/
  batch : List Record := []
  /-- How many records the consumer has last reported to hold. It outlives the consumer. -/
  inFlight : Nat := 0
  /-- The flush under way; while there is one, nothing else is done. -/
  flight : Option Flight := none
  consumer : Consumer := .idle
  /-- Whether the writer has been stopped. -/
  closed : Bool := false
  stats : WriterStats := {}
  metrics : WriterMetrics Nat := .fresh
  /-- What has happened, latest first. -/
  history : List WriterEvent := []

namespace Writer

variable {σ : Type}

/-- A writer at rest, for the given settings. -/
def ofSettings (s : WriterSettings) (store : Store σ) (state : σ) : Writer σ :=
  { limits := .ofSettings s, store, state }

/-- Number of records accepted and not yet handed to a flush: those in the queue, and those the
consumer has reported. -/
def backlog (w : Writer σ) : Nat := w.queue.length + w.inFlight

/-- One more event. -/
def note (e : WriterEvent) (w : Writer σ) : Writer σ := { w with history := e :: w.history }

/-- Tells the operator something. -/
def tell (n : Notice) (w : Writer σ) : Writer σ := w.note (.told n)

/-- Shows the backlog on the gauge. -/
def showBacklog (w : Writer σ) : Writer σ :=
  { w with metrics := w.metrics.setQueueDepth w.backlog }

/-- Counts one record dropped at the door. -/
def countRefused (reason : String) (w : Writer σ) : Writer σ :=
  { w with metrics := w.metrics.countDropped reason 1 }

/-! ## What producers do -/

/-- The writer with one more record in its queue. -/
def enqueue (record : Record) (w : Writer σ) : Writer σ :=
  showBacklog
    { w with
      queue := w.queue ++ [record]
      stats := { w.stats with accepted := w.stats.accepted + 1 }
      metrics := w.metrics.countAccepted 1
      history := .accepted record :: w.history }

/-- The writer after turning a record away because the queue was full. -/
def overflow (record : Record) (w : Writer σ) : Writer σ :=
  tell (.queueFull record.node w.limits.capacity) <| countRefused "queue_full"
    { w with stats := { w.stats with droppedQueueFull := w.stats.droppedQueueFull + 1 } }

/-- **Takes a record in, or turns it away.** Nothing is waited for. -/
def write (record : Option Record) (w : Writer σ) : Except RecordRefusal Unit × Writer σ :=
  match record with
  | none => (.error .missing, w)
  | some record =>
    if w.closed then (.error .closed, w.countRefused "closed")
    else if w.queue.length < w.limits.capacity then (.ok (), w.enqueue record)
    else (.error .queueFull, w.overflow record)

/-! ## What owners do -/

/-- Starts the consumer, unless there has been one or the writer has been stopped. -/
def start (w : Writer σ) : Writer σ :=
  if w.closed then w.tell .stoppedWriter
  else if w.consumer ≠ .idle then w.tell .alreadyStarted
  else { w with consumer := .spawned }

/-- Asks the writer to stop: no more records are accepted and the consumer is told to end. -/
def close (w : Writer σ) : Writer σ := { w with closed := true }

end Writer

end LinkQuality
