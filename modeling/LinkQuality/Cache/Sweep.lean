import LinkQuality.Cache.Basic
import LinkQuality.Writer.Turn

/-!
# Sweeping the cache

A sweep fixes at its beginning which hooks it will tell and which nodes it will visit. It then
goes from node to node, and tells every hook the summaries the node has at the time of the
visit. What a hook does with that may change the cache and whatever surrounds it, so a sweep
works on any state that has a cache in it.
-/

namespace LinkQuality

namespace Sweep

variable {ω : Type}

/-- Tells all hooks of one node. -/
def visit (cache : ω → Cache) (tell : Hook → String → List Summary → ω → ω) (hooks : List Hook)
    (s : ω) (node : String) : ω :=
  let summaries := (cache s).summaries node
  hooks.foldl (fun s hook => tell hook node summaries s) s

/-- **Visits nodes in the given order**, telling the hooks registered beforehand. -/
def visits (cache : ω → Cache) (tell : Hook → String → List Summary → ω → ω) (order : List String)
    (s : ω) : ω :=
  order.foldl (visit cache tell (cache s).hooks) s

end Sweep

namespace Cache

/-- Counts a sweep. -/
def countSweep (c : Cache) : Cache := { c with metrics := c.metrics.countSweeps 1 }

/-- **Sweeps a cache that stands alone.** Gives the number of nodes visited. -/
def sweep (c : Cache) : Nat × Cache :=
  let order := c.nodeNames
  let swept := Sweep.visits id (fun hook node ss c => c.witness hook node ss) order c
  (order.length, swept.countSweep)

/-- Is the background sweep to do anything at time `now`? -/
def sweepDue (now : Nat) (c : Cache) : Bool :=
  match c.sweeper with
  | .absent => false
  | .spawned => true
  | .waiting due => due ≤ now * 1000000

/-- When the background sweep is due next, if it waits for the clock. -/
def wakeTime? (c : Cache) : Option Nat :=
  match c.sweeper with
  | .waiting due => some (Span.ceilMillis ⟨due⟩)
  | _ => none

/-- Sets the timer of the background sweep after what is due now has been done. -/
def rearm (now : Nat) (c : Cache) : Cache :=
  match c.sweeper with
  | .absent => c
  | .spawned => { c with sweeper := .waiting (now * 1000000 + c.interval.nanoseconds) }
  | .waiting due =>
    { c with sweeper := .waiting (nextDue (now * 1000000) due c.interval.nanoseconds) }

/-- Is the sweep itself due, rather than its first look at the clock? -/
def ticks (c : Cache) : Bool :=
  match c.sweeper with
  | .waiting _ => true
  | _ => false

/-- The next step of the background sweep of a cache that stands alone. -/
def turn? (now : Nat) (c : Cache) : Option Cache :=
  if c.sweepDue now then some (rearm now (if c.ticks then c.sweep.2 else c)) else none

/-- Takes steps, letting the clock jump up to `limit`. -/
def drive (limit : Nat) : Nat → Nat → Cache → Cache
  | 0, _, c => c
  | fuel + 1, now, c =>
    match c.turn? now with
    | some c => drive limit fuel now c
    | none =>
      match c.wakeTime? with
      | some t => if now < t ∧ t ≤ limit then drive limit fuel t c else c
      | none => c

/-- **Runs the background sweep** from time `now` for `span` milliseconds. There is a sweep at
most every millisecond, with one jump of the clock before it. -/
def run (now span : Nat) (c : Cache) : Cache := drive (now + span) (2 * span + 3) now c

end Cache

end LinkQuality
