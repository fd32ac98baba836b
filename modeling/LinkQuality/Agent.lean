import LinkQuality.Health.Exposition
import LinkQuality.Http.Status
import LinkQuality.Network
import LinkQuality.Pipeline.Run

/-!
# The agent

The agent owns all parts of the service: it serves the metrics, builds the store and runs a
pipeline in front of it. When it is started the metrics come first, so that it can be asked about
itself while the store is being reached; when it is stopped the pipeline comes first, so that what
was accepted is written before anything else goes away.

Each start begins with a new pipeline. Those of earlier starts are kept, since what they accepted
is still owed to someone. A pipeline that was running when the agent was started once more is kept
as it was: what its consumer would still do, and count on the metrics that it has in common with the
new one, is left out.
-/

namespace LinkQuality

/-- **The agent.** -/
structure Agent (σ : Type) where
  settings : Settings
  /-- The clock, in milliseconds, when no pipeline is running. -/
  clock : Nat := 0
  /-- Are the metrics served? -/
  serving : Bool := false
  run : Option (PipelineRun σ) := none
  /-- The pipelines of earlier starts, latest first. -/
  former : List (Pipeline σ) := []

namespace Agent

variable {σ : Type}

/-- Is a pipeline running? -/
def isRunning (a : Agent σ) : Bool := a.run.isSome

/-- The time on the clock. -/
def now (a : Agent σ) : Nat :=
  match a.run with
  | some r => r.now
  | none => a.clock

/-- All pipelines of the agent, latest first. -/
def pipelines (a : Agent σ) : List (Pipeline σ) := (a.run.map (·.pipeline)).toList ++ a.former

/-- The states of the stores in front of which pipelines have been run, oldest first. -/
def stores (a : Agent σ) : List σ := a.pipelines.reverse.map (·.writer.state)

/-- The metrics so far: they outlast the pipeline that counted them. Only the latest pipeline goes
on counting. -/
def metrics (a : Agent σ) : Metrics Nat :=
  match a.pipelines with
  | p :: _ => ⟨p.writer.metrics, p.cache.metrics⟩
  | [] => .fresh

/-- A pipeline in front of a store that goes on counting where the last one has stopped. -/
def newPipeline (a : Agent σ) (store : Store σ) (state : σ) : Pipeline σ :=
  let p := Pipeline.ofSettings a.settings.cache a.settings.writer store state
  { p with
    writer := { p.writer with metrics := a.metrics.writer }
    cache := { p.cache with metrics := a.metrics.cache } }

/-- The agent with a new pipeline that has been started. -/
def begin (a : Agent σ) (store : Store σ) (state : σ) : Agent σ :=
  { a with
    run := some { now := a.now, pipeline := (a.newPipeline store state).start }
    former := a.pipelines }

/-- **Starts the agent**, given how it goes to listen for requests about the metrics and to build
the store. If either fails nothing else is begun, but metrics that are served remain so. -/
def start (listening : Except Failure Unit) (built : Except Failure (Store σ × σ)) (a : Agent σ) :
    Except Failure Unit × Agent σ :=
  match listening with
  | .error why => (.error (why.during "starting health metrics server"), a)
  | .ok _ =>
    let a := { a with serving := true }
    match built with
    | .error why => (.error why, a)
    | .ok (store, state) => (.ok (), a.begin store state)

/-- **Takes in a sample**, if a pipeline is running. -/
def ingest (node probe : String) (sample : Sample) (a : Agent σ) :
    Except IngestRefusal Unit × Agent σ :=
  match a.run with
  | none => (.error .notRunning, a)
  | some r =>
    let (result, pipeline) := r.pipeline.ingest node probe sample
    (result, { a with run := some { r with pipeline } })

/-- **Stops the agent**: the pipeline, if one is running, and then the serving of metrics. -/
def stop (reading : Timestamp) (a : Agent σ) : Agent σ :=
  match a.run with
  | none => { a with serving := false }
  | some r =>
    let r := r.stop reading
    { a with
      serving := false
      clock := r.now
      run := none
      former := r.pipeline :: a.former }

/-- The background work does what is due at this time. -/
def settle (reading : Timestamp) (a : Agent σ) : Agent σ :=
  { a with run := a.run.map (·.run reading 0) }

/-! ## Being asked -/

/-- What is served: the metrics, and a word for those who ask whether the agent is alive. -/
def page (a : Agent σ) (path : String) : Http.Status × List String :=
  match (path.splitOn "?").headD "" with
  | "/metrics" => (⟨200⟩, a.metrics.lines)
  | "/healthz" => (⟨200⟩, ["ok"])
  | _ => (⟨404⟩, [])

/-- **Asks for a page.** There is no answer while nothing is served or the network lets no request
through. -/
def visit {τ : Type} (network : Network τ) (path : String) (a : Agent σ) :
    Option (Http.Status × List String) :=
  if network.isOpen && a.serving then some (a.page path) else none

end Agent

/-- **Starts the agent in its surroundings.** -/
def Agent.launch {τ : Type} (network : Network τ) (state : τ) (a : Agent (Export τ)) :
    Except Failure Unit × Agent (Export τ) :=
  a.start (network.listen a.settings.healthAddress a.serving)
    (Export.build a.settings.sink network state)

end LinkQuality
