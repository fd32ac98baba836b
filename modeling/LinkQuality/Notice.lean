import LinkQuality.Failure
import LinkQuality.Refusal
import LinkQuality.Time.Span
import LinkQuality.Time.Timestamp

/-!
# Notices to the operator

Everything that goes wrong and is not answered to anyone is told to the operator. A notice is a
value with its details; its first line and its weight follow from its kind.
-/

namespace LinkQuality

/-- **What set off a flush.** -/
inductive Trigger where
  /-- The batch was full. -/
  | size
  /-- The time to wait for more was over. -/
  | timer
  /-- The consumer was told to end. -/
  | shutdown
  /-- Records were left over after the consumer had ended. -/
  | drain
  deriving DecidableEq, Repr

/-- The name of a trigger. -/
def Trigger.name : Trigger → String
  | size => "size"
  | timer => "timer"
  | shutdown => "shutdown"
  | drain => "drain"

/-- **Something the operator is told.** -/
inductive Notice where
  | retrying (sink : String) (records attempt attempts : Nat) (delay : Span) (why : Failure)
  | dropping (sink : String) (records attempts : Nat) (trigger : Trigger) (why : Failure)
  | rollbackFailed (why : Failure)
  | queueFull (node : String) (capacity : Nat)
  | alreadyStarted
  | stoppedWriter
  | stoppedCache
  | consumerFailed (lost : Nat)
  | deferring (node : String) (minute : Timestamp) (why : RecordRefusal)
  | malformedLine
  | rejected (node : String) (why : String)

/-- How grave a notice is. -/
inductive Notice.Weight where
  | warning
  | error
  deriving DecidableEq, Repr

namespace Notice

/-- Lost records are errors, all else is a warning. -/
def weight : Notice → Weight
  | dropping .. | consumerFailed .. => .error
  | _ => .warning

/-- The first line of a notice. -/
def message : Notice → String
  | retrying .. => "batch flush failed, retrying"
  | dropping .. => "dropping batch after exhausting retries"
  | rollbackFailed .. => "transaction rollback failed"
  | queueFull .. => "write queue full, dropping record"
  | alreadyStarted => "batch writer already started"
  | stoppedWriter => "batch writer already stopped, not starting"
  | stoppedCache => "metric cache already stopped, not starting sweep"
  | consumerFailed .. => "batch writer consumer task failed"
  | deferring .. => "deferring minute aggregate"
  | malformedLine => "skipping malformed sample line"
  | rejected .. => "sample rejected"

end Notice

end LinkQuality
