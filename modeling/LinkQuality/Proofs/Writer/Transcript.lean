import LinkQuality.Proofs.Writer.Ledger
import Mathlib.Data.List.ModifyLast

/-!
# What a store sees of a flush

The history of a writer, read flush by flush and attempt by attempt, shows every call of the store:
what it was asked for, and what it answered if it did (`Writer.transcripts`). Each batch that was
handed over has a transcript (`map_handover_transcripts`); that nothing is asked of a store outside
of them is a fact about the runs of a writer, not about its history alone.

A store that makes the records of a transaction durable when it answers the commit, and not
before, holds what can be read off a transcript (`Transcript.durable`).
-/

namespace LinkQuality

/-- **A call of the store**: what it was asked for, and its answer if it gave one. -/
structure Call where
  request : Request
  reply : Option Reply := none

namespace Call

/-- The record that the store was asked to insert. -/
def record? (c : Call) : Option Record :=
  match c.request with
  | .insert record => some record
  | _ => none

/-- Was the store asked to begin a transaction? -/
def isBegin (c : Call) : Bool :=
  match c.request with
  | .begin => true
  | _ => false

/-- Was the store asked to end a transaction, one way or the other? -/
def isEnd (c : Call) : Bool :=
  match c.request with
  | .commit _ | .rollback => true
  | _ => false

/-- Has the store said that a request went well? -/
def isDone (c : Call) : Bool :=
  match c.reply with
  | some .done => true
  | _ => false

/-- Has the store said that it has committed? -/
def hasCommitted (c : Call) : Bool :=
  match c.request with
  | .commit _ => c.isDone
  | _ => false

end Call

/-- **A flush as the history shows it.** -/
structure Transcript where
  trigger : Trigger
  batch : List Record
  /-- The calls of each attempt, in order. -/
  attempts : List (List Call) := []
  /-- Whether the flush has ended with a commit or by giving up; neither if it is still under way
  or has died. -/
  outcome : Option Bool := none

namespace Transcript

/-- The batch of a flush, and what set it off. -/
def handover (t : Transcript) : Trigger × List Record := (t.trigger, t.batch)

/-- What the store was asked for, in all attempts. -/
def requests (t : Transcript) : List Request := t.attempts.flatten.map Call.request

/-- One more attempt. -/
def attempt (t : Transcript) : Transcript := { t with attempts := t.attempts ++ [[]] }

/-- One more call in the present attempt. -/
def ask (t : Transcript) (request : Request) : Transcript :=
  { t with attempts := t.attempts.modifyLast (· ++ [⟨request, none⟩]) }

/-- The answer to the call that came last. -/
def answer (t : Transcript) (reply : Reply) : Transcript :=
  { t with attempts :=
      t.attempts.modifyLast (·.modifyLast fun c => { c with reply := some reply }) }

/-- The end of the flush. -/
def finish (t : Transcript) (outcome : Bool) : Transcript := { t with outcome := some outcome }

end Transcript

/-- **What is durable after an attempt**: if its commit went well, the records whose insertion
did. -/
def durable (calls : List Call) : List Record :=
  if calls.any Call.hasCommitted then (calls.filter Call.isDone).filterMap Call.record? else []

/-- What is durable after all attempts of a flush. -/
def Transcript.durable (t : Transcript) : List Record := t.attempts.flatMap LinkQuality.durable

/-- **The flushes that a history shows**, oldest first. What comes after a hand-over belongs to the
flush of that batch. -/
def transcripts : List WriterEvent → List Transcript
  | [] => []
  | .handedOver trigger batch :: earlier => transcripts earlier ++ [{ trigger, batch }]
  | .attempted .. :: earlier => (transcripts earlier).modifyLast Transcript.attempt
  | .asked _ request :: earlier => (transcripts earlier).modifyLast (·.ask request)
  | .answered _ _ reply :: earlier => (transcripts earlier).modifyLast (·.answer reply)
  | .committed .. :: earlier => (transcripts earlier).modifyLast (·.finish true)
  | .dropped .. :: earlier => (transcripts earlier).modifyLast (·.finish false)
  | .accepted _ :: earlier | .attemptFailed .. :: earlier | .told _ :: earlier =>
    transcripts earlier

/-- What comes in does not change whose flush it is. -/
theorem map_handover_modifyLast {change : Transcript → Transcript}
    (h : ∀ t, (change t).handover = t.handover) (ts : List Transcript) :
    (ts.modifyLast change).map Transcript.handover = ts.map Transcript.handover := by
  rcases List.eq_nil_or_concat ts with rfl | ⟨past, t, rfl⟩
  · rfl
  · rw [List.concat_eq_append, List.modifyLast_concat, List.map_append, List.map_append,
      List.map_singleton, List.map_singleton, h]

/-- **Each hand-over has a transcript.** -/
theorem map_handover_transcripts (history : List WriterEvent) :
    (transcripts history).map Transcript.handover =
      WriterEvent.gleaned WriterEvent.handover? history := by
  induction history with
  | nil => rfl
  | cons e earlier ih =>
    rw [WriterEvent.gleaned_cons, ← ih]
    cases e with
    | handedOver trigger batch => rw [transcripts, List.map_append]; rfl
    | accepted | attemptFailed | told => exact (List.append_nil _).symm
    | attempted | asked | answered | committed | dropped =>
      rw [transcripts, map_handover_modifyLast]
      · exact (List.append_nil _).symm
      · exact fun _ => rfl

/-- What the store was asked for. -/
@[simp] def WriterEvent.request? : WriterEvent → Option Request
  | asked _ request => some request
  | _ => none

namespace Writer

variable {σ : Type}

/-- **The flushes of a writer**, oldest first. -/
def transcripts (w : Writer σ) : List Transcript := LinkQuality.transcripts w.history

/-- **What the store of a writer was asked for**, in order. -/
def requests (w : Writer σ) : List Request :=
  WriterEvent.gleaned WriterEvent.request? w.history

end Writer

end LinkQuality
