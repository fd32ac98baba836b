import LinkQuality.Cache.Sweep
import LinkQuality.Writer.Run

/-!
# The pipeline

Every sample goes two ways: into the history of its node, and as a record to the writer. Neither
waits for the other. When minutes are to be kept, each sweep also writes the minutes that are
over: for each node in order of time, once, and never one that is not over yet.

How far a node has got is kept as a mark, the last minute written for it. A minute the writer
turns away ends the visit of that node, so that the next sweep begins with it.
-/

namespace LinkQuality

/-- **Cache and writer side by side.** -/
structure Pipeline (σ : Type) where
  cache : Cache
  writer : Writer σ
  /-- Whether completed minutes are written. -/
  persists : Bool
  /-- The last minute written for each node. -/
  marks : NameTable Timestamp := []

namespace Pipeline

variable {σ : Type}

/-- A pipeline at rest, for the given settings. -/
def ofSettings (cache : CacheSettings) (writer : WriterSettings) (store : Store σ) (state : σ) :
    Pipeline σ :=
  let c := Cache.ofSettings cache
  { cache := if cache.persistAggregates then c.onSweep .archivist else c
    writer := .ofSettings writer store state
    persists := cache.persistAggregates }

/-- Tells the operator something. -/
def tell (n : Notice) (p : Pipeline σ) : Pipeline σ := { p with writer := p.writer.tell n }

/-- **Takes in a sample.** One that the cache refuses goes no further; one that the writer
refuses stays in the cache. -/
def ingest (node probe : String) (sample : Sample) (p : Pipeline σ) :
    Except IngestRefusal Unit × Pipeline σ :=
  match p.cache.store node (some sample) with
  | (.error why, cache) => (.error (.cache why), { p with cache })
  | (.ok _, cache) =>
    match p.writer.write (some (.ofSample node probe sample)) with
    | (.error why, writer) => (.error (.writer why), { p with cache, writer })
    | (.ok _, writer) => (.ok (), { p with cache, writer })

/-! ## Writing completed minutes -/

/-- Is a minute to be written: over by now, and later than the mark? -/
def isEligible (current : Timestamp) (mark : Option Timestamp) (s : Summary) : Bool :=
  !(current ≤ s.time) && mark.all fun m => !(s.time ≤ m)

/-- Writes the eligible minutes of a node in order, up to the first that is turned away. Gives
the last one written, or `newest` if there is none. -/
def persistMinutes (node : String) (current : Timestamp) (mark : Option Timestamp) :
    List Summary → Option Timestamp → Writer σ → Option Timestamp × Writer σ
  | [], newest, w => (newest, w)
  | s :: rest, newest, w =>
    if isEligible current mark s then
      match w.write (some (.ofSummary node "" s)) with
      | (.ok _, w) => persistMinutes node current mark rest (some s.time) w
      | (.error why, w) => (newest, w.tell (.deferring node s.time why))
    else persistMinutes node current mark rest newest w

/-- **Writes the completed minutes of a node**, with `reading` on the clock. -/
def persist (reading : Timestamp) (node : String) (summaries : List Summary) (p : Pipeline σ) :
    Pipeline σ :=
  let mark := p.marks.get? node
  let (newest, writer) := persistMinutes node reading.minute mark summaries mark p.writer
  let p := { p with writer }
  match newest with
  | some m => if newest = mark then p else { p with marks := p.marks.insert node m }
  | none => p

/-- What a hook does on being told of a visit. -/
def react (reading : String → Timestamp) (hook : Hook) (node : String) (summaries : List Summary)
    (p : Pipeline σ) : Pipeline σ :=
  match hook.role with
  | .archivist => p.persist (reading node) node summaries
  | _ => { p with cache := p.cache.witness hook node summaries }

/-- **One sweep** over the nodes in the given order, `reading` telling what the clock shows at
each visit. -/
def sweepIn (order : List String) (reading : String → Timestamp) (p : Pipeline σ) : Pipeline σ :=
  let p := Sweep.visits Pipeline.cache (react reading) order p
  { p with cache := p.cache.countSweep }

/-- One sweep over all nodes with one reading of the clock. Gives the number of nodes visited. -/
def sweep (reading : Timestamp) (p : Pipeline σ) : Nat × Pipeline σ :=
  (p.cache.size, p.sweepIn p.cache.nodeNames (fun _ => reading))

/-! ## Start and stop -/

/-- Starts the background sweep, then the consumer. -/
def start (p : Pipeline σ) : Pipeline σ :=
  { p with cache := p.cache.start, writer := p.writer.start }

/-- **Stops the pipeline.** The background sweep ends first, so that no minute arrives after the
writer has been drained; while it ends, the consumer may do what it has at hand. A last sweep
writes the minutes completed until now. Gives the time at which the writer has come to rest. -/
def stop (now : Nat) (reading : Timestamp) (p : Pipeline σ) : Nat × Pipeline σ :=
  let yields := p.cache.sweeper ≠ .absent
  let p := { p with cache := p.cache.stop }
  let p := if yields then { p with writer := p.writer.run now 0 } else p
  let p := if p.persists then (p.sweep reading).2 else p
  let (now, writer) := p.writer.stop now
  (now, { p with writer })

end Pipeline

end LinkQuality
