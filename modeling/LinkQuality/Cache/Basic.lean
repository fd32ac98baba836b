import LinkQuality.Health.Metrics
import LinkQuality.Metric.History
import LinkQuality.Notice
import LinkQuality.Settings.Basic

/-!
# The cache

A history per node, begun with the first sample of the node and kept for good. Reading never
changes anything; a sample that is refused changes nothing either.

At intervals the cache is swept: every node is visited, and everyone who has asked for it is
told the summaries of the node. When a sweep is due is settled here; what a sweep does is the
subject of its own module.
-/

namespace LinkQuality

/-- What someone who is told of visits does with it. -/
inductive Role where
  /-- Takes note. -/
  | observer (name : Nat)
  /-- Takes note, and on being told for the first time brings in another observer. -/
  | herald (name successor : Nat)
  /-- Writes completed minutes to the store. -/
  | archivist
  deriving DecidableEq, Repr

/-- **Someone who is told of visits.** -/
structure Hook where
  /-- Number of hooks registered before. -/
  key : Nat
  role : Role
  deriving DecidableEq, Repr

/-- When the next sweep is due. -/
inductive Sweeper where
  /-- There is no background sweep. -/
  | absent
  /-- It has not yet looked at the clock. -/
  | spawned
  /-- It is due at `due`, in nanoseconds of the clock. -/
  | waiting (due : Nat)
  deriving DecidableEq, Repr

/-- **What happens to a cache** beside being read and filled. -/
inductive CacheEvent where
  /-- A hook was told the summaries of a node. -/
  | visited (hook : Hook) (node : String) (summaries : List Summary)
  /-- The operator was told something. -/
  | told (notice : Notice)

/-- **The cache.** -/
structure Cache where
  /-- Samples kept per node. -/
  capacity : Nat
  /-- Time between two sweeps. -/
  interval : Span
  nodes : NameTable History := []
  /-- In the order of their registration. -/
  hooks : List Hook := []
  sweeper : Sweeper := .absent
  stopped : Bool := false
  metrics : CacheMetrics Nat := .fresh
  /-- What has happened, latest first. -/
  history : List CacheEvent := []

namespace Cache

/-- An empty cache for the given settings; no interval is shorter than a millisecond. That one may
be too long for a clock is left out. -/
def ofSettings (s : CacheSettings) : Cache :=
  { capacity := s.capacity, interval := ⟨max s.sweepInterval.nanoseconds 1000000⟩ }

/-! ## Reading -/

/-- The samples of a node, oldest first. -/
def get (c : Cache) (node : String) : List Sample :=
  ((c.nodes.get? node).map History.toList).getD []

/-- The samples of a node summed up by the minute. -/
def summaries (c : Cache) (node : String) : List Summary :=
  ((c.nodes.get? node).map History.summaries).getD []

/-- The nodes known, in order of their names. -/
def nodeNames (c : Cache) : List String := c.nodes.names

/-- Number of nodes known. -/
def size (c : Cache) : Nat := c.nodes.length

/-- Is no node known? -/
def isEmpty (c : Cache) : Bool := c.size = 0

/-- The description of a cache for people. -/
def description (c : Cache) : String :=
  "MetricCache \x7b capacity: " ++ toString c.capacity ++ ", nodes: " ++ toString c.size ++ " \x7d"

/-! ## Filling -/

/-- The history of a node, begun if there is none. A node that is new is counted. -/
def register (c : Cache) (node : String) : Cache × History :=
  match c.nodes.get? node with
  | some h => (c, h)
  | none =>
    let h := History.empty c.capacity
    let c := { c with nodes := c.nodes.insert node h }
    ({ c with metrics := c.metrics.setNodes c.size }, h)

/-- **Stores a sample of a node**, or refuses it. That the node has no name is noticed before
that the sample is missing. -/
def store (c : Cache) (node : String) (sample : Option Sample) :
    Except SampleRefusal Unit × Cache :=
  if node = "" then (.error .emptyNode, c)
  else
    match sample with
    | none => (.error .missing, c)
    | some sample =>
      let (c, h) := c.register node
      let (h, evicted) := h.write sample
      let c := { c with nodes := c.nodes.insert node h }
      (.ok (), if evicted then { c with metrics := c.metrics.countEvictions 1 } else c)

/-! ## Hooks -/

/-- Registers a hook. It is told of sweeps that begin after this. -/
def onSweep (c : Cache) (role : Role) : Cache :=
  { c with hooks := c.hooks ++ [⟨c.hooks.length, role⟩] }

/-- Has a hook been told of a visit yet? -/
def hasVisited (c : Cache) (hook : Hook) : Bool :=
  c.history.any fun
    | .visited h _ _ => h.key = hook.key
    | .told _ => false

/-- A hook takes note of a visit. -/
def witness (c : Cache) (hook : Hook) (node : String) (summaries : List Summary) : Cache :=
  let first := !c.hasVisited hook
  let c := { c with history := .visited hook node summaries :: c.history }
  match hook.role with
  | .herald _ successor => if first then c.onSweep (.observer successor) else c
  | _ => c

/-! ## The background sweep -/

/-- Starts the background sweep, unless there is one already or the cache has been stopped. -/
def start (c : Cache) : Cache :=
  if c.stopped then { c with history := .told .stoppedCache :: c.history }
  else if c.sweeper ≠ .absent then c
  else { c with sweeper := .spawned }

/-- Ends the background sweep for good. -/
def stop (c : Cache) : Cache := { c with stopped := true, sweeper := .absent }

end Cache

end LinkQuality
