/-!
# What is turned away at the door

A sample or record can be refused at once, before anything is done with it. Each refusal is a
value; the cache knows its own, the writer its own, and taking in a sample can fail for either.
-/

namespace LinkQuality

/-- Why the cache refuses a sample. -/
inductive SampleRefusal where
  /-- The sample is about no node. -/
  | emptyNode
  /-- There is no sample. -/
  | missing
  deriving DecidableEq, Repr

/-- The wording of a refusal. -/
def SampleRefusal.message : SampleRefusal → String
  | emptyNode => "node id must not be empty"
  | missing => "metric point is missing"

/-- Why the writer refuses a record. -/
inductive RecordRefusal where
  /-- There is no record. -/
  | missing
  /-- No more records can wait. -/
  | queueFull
  /-- The writer has been stopped. -/
  | closed
  deriving DecidableEq, Repr

/-- The wording of a refusal. -/
def RecordRefusal.message : RecordRefusal → String
  | missing => "metric record is missing"
  | queueFull => "write queue is full"
  | closed => "batch writer is closed"

/-- Why a sample is not taken in, or only by half. -/
inductive IngestRefusal where
  | cache (why : SampleRefusal)
  | writer (why : RecordRefusal)
  /-- Nothing is there to take it in. -/
  | notRunning
  deriving DecidableEq, Repr

/-- The wording of a refusal. -/
def IngestRefusal.message : IngestRefusal → String
  | cache why => "cache rejected sample: " ++ why.message
  | writer why => "writer rejected record: " ++ why.message
  | notRunning => "pipeline is not running"

end LinkQuality
