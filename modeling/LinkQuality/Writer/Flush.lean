import LinkQuality.Writer.Basic

/-!
# Flushing a batch

One attempt is one transaction: begin, every record in order, commit. A record that is refused
ends the attempt with a rollback; any other failure ends it as it stands. An attempt that has
not ended when its time is up has failed at that moment. An answer that comes at the very
millisecond the time is up still counts.

After a failed attempt the flush rests and tries again, or gives the batch up; after a commit it
is done. Either way the batch is counted once.
-/

namespace LinkQuality

/-- The whole milliseconds that cover a span. -/
def Span.ceilMillis (s : Span) : Nat := (s.nanoseconds + 999999) / 1000000

namespace Writer

variable {σ : Type}

/-- The failure of an attempt whose time is up. -/
def timedOut (limits : Limits) : Failure :=
  ⟨"transaction timed out after " ++ limits.timeout.text, []⟩

/-- Puts a request to the store and waits for the answer. -/
def ask (now : Nat) (f : Flight) (pending : Pending) (w : Writer σ) : Writer σ :=
  let request := pending.request f.batch
  let (delay, state) := w.store.accept w.state request
  { w with
    state
    flight := some { f with phase := .asking pending (delay.map (now + ·)) }
    history := .asked now request :: w.history }

/-- Begins attempt number `f.attempt`. -/
def beginAttempt (now : Nat) (f : Flight) (w : Writer σ) : Writer σ :=
  ask now { f with deadline := now + w.limits.timeout.ceilMillis } .begin <|
    w.note (.attempted now f.attempt)

/-- **Hands a batch to a flush.** -/
def handOver (now : Nat) (trigger : Trigger) (batch : List Record) (w : Writer σ) : Writer σ :=
  beginAttempt now ⟨trigger, batch, 1, now, .resting now⟩ <| w.note (.handedOver trigger batch)

/-- What follows a flush. A full batch restarts the timer; told to end, the consumer ends; a
flush of what was left over is followed by the next one. -/
def resume (now : Nat) (trigger : Trigger) (w : Writer σ) : Writer σ :=
  match trigger with
  | .size =>
    showBacklog
      { w with consumer := .gathering (now * 1000000 + w.limits.interval.nanoseconds) }
  | .timer => w.showBacklog
  | .shutdown => { w with consumer := .ended }
  | .drain => w

/-- The batch has been committed. -/
def succeed (now : Nat) (f : Flight) (w : Writer σ) : Writer σ :=
  let n := f.batch.length
  resume now f.trigger
    { w with
      flight := none
      stats := { w.stats with
        batchesCommitted := w.stats.batchesCommitted + 1
        recordsCommitted := w.stats.recordsCommitted + n }
      metrics := ((w.metrics.countBatches f.trigger.name 1).countCommitted n).observeBatch n
      history := .committed f.trigger f.batch :: w.history }

/-- The batch is dropped. -/
def giveUp (now : Nat) (f : Flight) (why : Failure) (w : Writer σ) : Writer σ :=
  let n := f.batch.length
  resume now f.trigger <| tell (.dropping w.store.name n f.attempt f.trigger why)
    { w with
      flight := none
      stats := { w.stats with
        flushFailures := w.stats.flushFailures + 1
        droppedAfterRetries := w.stats.droppedAfterRetries + n }
      metrics := (w.metrics.countFlushFailures 1).countDropped "retry_exhausted" n
      history := .dropped f.trigger f.batch :: w.history }

/-- Rests before the next attempt. -/
def rest (now : Nat) (f : Flight) (why : Failure) (w : Writer σ) : Writer σ :=
  let backoff := w.limits.backoff
  let delay := backoff.delayAfter f.attempt
  tell (.retrying w.store.name f.batch.length f.attempt backoff.maxAttempts delay why)
    { w with flight := some { f with phase := .resting (now + delay.ceilMillis) } }

/-- The present attempt has failed. -/
def failAttempt (now : Nat) (f : Flight) (why : Failure) (w : Writer σ) : Writer σ :=
  let w := { w with
    metrics := w.metrics.countAttemptErrors w.store.name 1
    history := .attemptFailed now f.attempt why :: w.history }
  if w.limits.backoff.retries f.attempt then w.rest now f why else w.giveUp now f why

/-- The flush dies with the one who carried it. A consumer leaves the rest to be flushed when the
writer is stopped; when that itself goes down, nothing more is done. -/
def crash (f : Flight) (w : Writer σ) : Writer σ :=
  { w with flight := none, consumer := if f.trigger = .drain then .stopped else .crashed }

/-- The request has gone well. -/
def proceed (now : Nat) (f : Flight) (pending : Pending) (w : Writer σ) : Writer σ :=
  match pending with
  | .begin => w.ask now f (.next f.batch)
  | .insert _ rest => w.ask now f (.next rest)
  | .commit => w.succeed now f
  | .rollback cause => w.failAttempt now f cause

/-- The request has been refused. A failed rollback is only reported: the attempt has failed
before it, and for a reason of its own. -/
def refuse (now : Nat) (f : Flight) (pending : Pending) (why : Failure) (w : Writer σ) :
    Writer σ :=
  match pending with
  | .begin => w.failAttempt now f (why.during "beginning transaction")
  | .insert record _ =>
    w.ask now f (.rollback (why.during ("inserting record for node " ++ record.node)))
  | .commit => w.failAttempt now f (why.during "committing transaction")
  | .rollback cause => (w.tell (.rollbackFailed why)).failAttempt now f cause

/-- The store answers. -/
def receive (now : Nat) (f : Flight) (pending : Pending) (w : Writer σ) : Writer σ :=
  let request := pending.request f.batch
  let (reply, state) := w.store.answer w.state request
  let w := { w with state, history := .answered now request reply :: w.history }
  match reply with
  | .done => w.proceed now f pending
  | .failed why => w.refuse now f pending why
  | .crashed => w.crash f

/-- **The next step of a flush**, if there is one at time `now`. -/
def flightTurn? (now : Nat) (f : Flight) (w : Writer σ) : Option (Writer σ) :=
  match f.phase with
  | .asking pending ready =>
    if ready.any (· ≤ now) then some (w.receive now f pending)
    else if f.deadline ≤ now then some (w.failAttempt now f (timedOut w.limits))
    else none
  | .resting wake =>
    if wake ≤ now then some (w.beginAttempt now { f with attempt := f.attempt + 1 }) else none

end Writer

end LinkQuality
