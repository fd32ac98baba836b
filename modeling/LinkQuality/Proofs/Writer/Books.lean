import LinkQuality.Writer.Basic

/-!
# Books

What can be said of a writer by someone who does not look inside: which records it has accepted,
which batches it has handed to a flush, how each flush has ended, what still waits, what is being
flushed and what has been counted. `Entry` lists the few ways in which such books can change.

A law of bookkeeping is something that every entry keeps. The batches handed over and what waits
are together the records accepted, in order (`Books.Conserves`). The flushes come one after the
other: those that have ended and the one under way are exactly the batches handed over, in order
(`Books.Sequential`). A flush is lost exactly if a call of the store brings someone down
(`Books.Witnessed`), and whoever has come to rest has nothing left (`Books.Rests`).
-/

namespace LinkQuality

/-! ## Flushes and their ends -/

/-- **How a flush ends.** -/
inductive Fate where
  /-- A commit of the batch went well. -/
  | committed
  /-- The last attempt that was allowed failed. -/
  | dropped
  /-- Whoever carried the flush did not survive an answer of the store. -/
  | lost
  deriving DecidableEq, Repr

/-- **A flush that has ended.** -/
structure Settlement where
  trigger : Trigger
  batch : List Record
  fate : Fate

/-- The batch of a flush that has ended, and what set it off. -/
def Settlement.handover (s : Settlement) : Trigger × List Record := (s.trigger, s.batch)

/-- The end of the flush that was handed over last. -/
def settleLast (handovers : List (Trigger × List Record)) (fate : Fate) : List Settlement :=
  handovers.getLast?.toList.map fun (trigger, batch) => ⟨trigger, batch, fate⟩

/-- **Who is there to gather records.** -/
inductive Presence where
  /-- The consumer, or one that can still be started. -/
  | present
  /-- The consumer has died, and nobody has noticed. -/
  | dead
  /-- The consumer has ended. -/
  | gone
  /-- Nobody, and nothing more is done. -/
  | atRest
  deriving DecidableEq, Repr

/-- Whose flushes a trigger sets off: those of the consumer, or those of a stop. -/
def Trigger.Allowed : Trigger → Presence → Prop
  | size, p | timer, p | shutdown, p => p = .present
  | drain, p => p = .present ∨ p = .gone

/-- Who is there after a flush. -/
def Presence.after (p : Presence) : Fate → Trigger → Presence
  | .lost, .drain => .atRest
  | .lost, _ => .dead
  | _, .shutdown => .gone
  | _, _ => p

/-- Nobody flushes anything once at rest. -/
theorem Trigger.Allowed.ne_atRest {trigger : Trigger} {p : Presence} (h : trigger.Allowed p) :
    p ≠ .atRest := by
  cases trigger <;> simp only [Allowed] at h <;> rcases h with rfl | rfl <;> nofun

/-- Only the loss of a flush of what was left over puts anyone to rest. -/
theorem Presence.after_eq_atRest {p : Presence} {fate : Fate} {trigger : Trigger}
    (hp : p ≠ .atRest) (h : p.after fate trigger = .atRest) : trigger = .drain ∧ fate = .lost := by
  cases fate <;> cases trigger <;> simp_all [after]

/-- The counts after a flush. -/
def WriterStats.settle (stats : WriterStats) (records : Nat) : Fate → WriterStats
  | .committed =>
    { stats with
      batchesCommitted := stats.batchesCommitted + 1
      recordsCommitted := stats.recordsCommitted + records }
  | .dropped =>
    { stats with
      flushFailures := stats.flushFailures + 1
      droppedAfterRetries := stats.droppedAfterRetries + records }
  | .lost => stats

/-! ## The books -/

/-- **The books of a writer**: what its history says, beside what it holds and counts. -/
structure Books where
  /-- The records accepted. -/
  accepted : List Record
  /-- The batches handed to a flush, and what set that off. -/
  handovers : List (Trigger × List Record)
  /-- The flushes that have ended. -/
  settled : List Settlement
  /-- The numbers of records reported lost with the consumer. -/
  losses : List Nat
  /-- Has any call of the store brought down whoever made it? -/
  crashed : Bool
  /-- The records not handed over, oldest first. -/
  waiting : List Record
  /-- The batch of the flush under way, and what set it off. -/
  flying : Option (Trigger × List Record)
  presence : Presence
  stats : WriterStats

namespace Books

/-- The books of a writer nothing has happened to. -/
def blank : Books := ⟨[], [], [], [], false, [], none, .present, {}⟩

/-- The books with one more record. -/
def accept (b : Books) (record : Record) : Books :=
  { b with
    accepted := b.accepted ++ [record]
    waiting := b.waiting ++ [record]
    stats := { b.stats with accepted := b.stats.accepted + 1 } }

/-- The books after a hand-over, with what is left waiting. -/
def handOver (b : Books) (trigger : Trigger) (batch waiting : List Record) : Books :=
  { b with
    handovers := b.handovers ++ [(trigger, batch)]
    waiting
    flying := some (trigger, batch) }

/-- The books after the end of the flush under way. -/
def settle (b : Books) (trigger : Trigger) (batch : List Record) (fate : Fate) : Books :=
  { b with
    settled := b.settled ++ settleLast b.handovers fate
    crashed := b.crashed || fate = .lost
    flying := none
    presence := b.presence.after fate trigger
    stats := b.stats.settle batch.length fate }

end Books

/-- **A change of the books**, with the record that was accepted, if one was. -/
inductive Entry (b : Books) : Option Record → Books → Prop
  | nothing : Entry b none b
  | accept (record : Record) (hp : b.presence = .present ∨ b.presence = .dead) :
    Entry b (some record) (b.accept record)
  | turnAway :
    Entry b none { b with
      stats := { b.stats with droppedQueueFull := b.stats.droppedQueueFull + 1 } }
  | handOver {trigger batch waiting} (hf : b.flying = none) (hw : b.waiting = batch ++ waiting)
      (hn : batch ≠ []) (hp : trigger.Allowed b.presence) :
    Entry b none (b.handOver trigger batch waiting)
  | settle {trigger batch} (fate : Fate) (hf : b.flying = some (trigger, batch))
      (hp : trigger.Allowed b.presence) :
    Entry b none (b.settle trigger batch fate)
  | leave (hp : b.presence = .present) (hf : b.flying = none) :
    Entry b none { b with presence := .gone }
  | retire (hp : b.presence = .present ∨ b.presence = .gone) (hf : b.flying = none)
      (hw : b.waiting = []) :
    Entry b none { b with presence := .atRest }
  /-- The death of the consumer is noticed. Nothing is ever reported to have been lost with it:
  before a flush begins the consumer reports that it holds nothing. -/
  | report (hp : b.presence = .dead) :
    Entry b none { b with losses := b.losses ++ [0], presence := .gone }

/-- Books that are the same have changed by no entry. -/
theorem Entry.of_eq {b b' : Books} (h : b' = b) : Entry b none b' := by
  rw [h]
  exact .nothing

/-- Only what is accepted is accepted. -/
theorem Entry.accepted {b b' : Books} {record : Option Record} (h : Entry b record b') :
    b'.accepted = b.accepted ++ record.toList := by
  cases h with
  | accept record hp => rfl
  | nothing | turnAway | handOver | settle | leave | retire | report =>
    exact (List.append_nil _).symm

/-! ## The laws -/

namespace Books

/-- **Nothing is lost, entered twice or put out of order**: what was handed over and what is
waiting are what was accepted. -/
def Conserves (b : Books) : Prop := b.handovers.flatMap (·.2) ++ b.waiting = b.accepted

/-- **One flush at a time**: what was handed over is what has ended and what is under way. -/
def Sequential (b : Books) : Prop :=
  b.handovers = b.settled.map Settlement.handover ++ b.flying.toList

/-- A flush was lost exactly if a call of the store brought someone down. -/
def Witnessed (b : Books) : Prop := b.crashed = b.settled.any (·.fate = .lost)

/-- **Who rests has nothing left**, unless the flush of what was left over was itself lost. -/
def Rests (b : Books) : Prop :=
  b.presence = .atRest →
    b.flying = none ∧
      (b.waiting = [] ∨ ∃ s ∈ b.settled, s.trigger = .drain ∧ s.fate = .lost)

/-- Only what has been accepted comes to wait, and only what waits is handed over. -/
theorem Conserves.entry {b b' : Books} {record : Option Record} (h : Entry b record b')
    (hb : b.Conserves) : b'.Conserves := by
  unfold Conserves at hb ⊢
  cases h with
  | nothing | turnAway | settle | leave | retire | report => exact hb
  | accept record hp =>
    show b.handovers.flatMap (·.2) ++ (b.waiting ++ [record]) = b.accepted ++ [record]
    rw [← List.append_assoc, hb]
  | @handOver trigger batch waiting hf hw hn hp =>
    show (b.handovers ++ [(trigger, batch)]).flatMap (·.2) ++ waiting = b.accepted
    rw [hw, ← List.append_assoc] at hb
    rw [List.flatMap_append, List.flatMap_singleton, hb]

/-- What ends is what is under way. -/
theorem Sequential.settled_settle {b : Books} {trigger : Trigger} {batch : List Record}
    (hb : b.Sequential) (hf : b.flying = some (trigger, batch)) (fate : Fate) :
    (b.settle trigger batch fate).settled = b.settled ++ [⟨trigger, batch, fate⟩] := by
  have hlast : b.handovers.getLast? = some (trigger, batch) := by
    rw [hb, hf, Option.toList_some, List.getLast?_concat]
  simp [settle, settleLast, hlast]

/-- There is no hand-over while a flush is under way, and each flush ends once. -/
theorem Sequential.entry {b b' : Books} {record : Option Record} (h : Entry b record b')
    (hb : b.Sequential) : b'.Sequential := by
  cases h with
  | nothing | turnAway | accept | leave | retire | report => exact hb
  | @handOver trigger batch waiting hf hw hn hp =>
    show b.handovers ++ [(trigger, batch)] =
      b.settled.map Settlement.handover ++ [(trigger, batch)]
    have hall : b.handovers = b.settled.map Settlement.handover ++ b.flying.toList := hb
    rw [hf, Option.toList_none, List.append_nil] at hall
    rw [hall]
  | @settle trigger batch fate hf hp =>
    show b.handovers = (b.settle trigger batch fate).settled.map Settlement.handover ++ []
    have hall : b.handovers = b.settled.map Settlement.handover ++ b.flying.toList := hb
    rw [hb.settled_settle hf, List.append_nil, List.map_append, hall, hf]
    rfl

/-- A flush is lost with whoever carried it. -/
theorem Witnessed.entry {b b' : Books} {record : Option Record} (h : Entry b record b')
    (hq : b.Sequential) (hb : b.Witnessed) : b'.Witnessed := by
  cases h with
  | nothing | turnAway | accept | handOver | leave | retire | report => exact hb
  | @settle trigger batch fate hf hp =>
    show (b.crashed || fate = .lost) =
      (b.settle trigger batch fate).settled.any (·.fate = .lost)
    have hall : b.crashed = b.settled.any (·.fate = .lost) := hb
    rw [hq.settled_settle hf, List.any_append, hall, List.any_cons, List.any_nil, Bool.or_false]

/-- Nobody comes to rest with anything left but by the loss of a flush. -/
theorem Rests.entry {b b' : Books} {record : Option Record} (h : Entry b record b')
    (hq : b.Sequential) (hb : b.Rests) : b'.Rests := by
  cases h with
  | nothing | turnAway => exact hb
  | accept record hp =>
    rintro (h : b.presence = .atRest)
    simp [h] at hp
  | handOver hf hw hn hp => exact fun h => absurd h hp.ne_atRest
  | @settle trigger batch fate hf hp =>
    -- nobody who flushes is at rest, so it is the flush that put them there
    intro h
    obtain ⟨rfl, rfl⟩ := Presence.after_eq_atRest hp.ne_atRest h
    refine ⟨rfl, .inr ⟨⟨.drain, batch, .lost⟩, ?_, rfl, rfl⟩⟩
    rw [hq.settled_settle hf]
    exact List.mem_concat_self
  | leave hp hf => exact fun h => absurd h nofun
  | retire hp hf hw => exact fun _ => ⟨hf, .inl hw⟩
  | report hp => exact fun h => absurd h nofun

end Books

end LinkQuality
