import LinkQuality.Metric.Minute

/-!
# Bounded histories

A history holds the latest samples of one node, at most as many as its capacity, in a ring of
slots: each write goes to the slot after the last, and a write into a full ring takes the place
of the oldest sample.
-/

namespace LinkQuality

/-- **A ring of samples.** -/
structure History where
  slots : Array (Option Sample)
  /-- The slot the next sample goes to. -/
  writeAt : Nat
  /-- The slot of the oldest sample. -/
  oldest : Nat
  /-- Number of samples held. -/
  size : Nat

namespace History

/-- Samples held per node when nothing else is asked for: one a minute for an hour. -/
def defaultCapacity : Nat := 60

/-- An empty history; room for no sample at all is raised to one. However much room is asked for, it
is there: that memory may not suffice is left out. -/
def empty (capacity : Nat) : History :=
  ⟨Array.replicate (max capacity 1) none, 0, 0, 0⟩

/-- The greatest number of samples held. -/
def capacity (h : History) : Nat := h.slots.size

/-- **Appends a sample**, and tells whether the oldest one had to give way. -/
def write (h : History) (s : Sample) : History × Bool :=
  let full := h.size = h.capacity
  ({ slots := h.slots.setIfInBounds h.writeAt (some s)
     writeAt := (h.writeAt + 1) % h.capacity
     oldest := if full then (h.oldest + 1) % h.capacity else h.oldest
     size := if full then h.size else h.size + 1 },
   full)

/-- The sample `i` places after the oldest. -/
def at? (h : History) (i : Nat) : Option Sample :=
  h.slots.getD ((h.oldest + i) % h.capacity) none

/-- **All samples held**, oldest first. -/
def toList (h : History) : List Sample := (List.range h.size).filterMap h.at?

/-- The sample written last. -/
def latest (h : History) : Option Sample :=
  if h.size = 0 then none
  else h.slots.getD ((h.writeAt + h.capacity - 1) % h.capacity) none

/-- Does the history hold nothing? -/
def isEmpty (h : History) : Bool := h.size = 0

/-- The samples held, summed up by the minute. -/
def summaries (h : History) : List Summary := summarise h.toList

/-- The description of a history for people. -/
def description (h : History) : String :=
  "RingBuffer \x7b capacity: " ++ toString h.capacity ++ ", len: " ++ toString h.size ++ " \x7d"

end History

end LinkQuality
