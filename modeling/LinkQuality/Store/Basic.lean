import LinkQuality.Store.Keyed

/-!
# Stores as the writer meets them

A store is asked to begin a transaction, to take records one by one, and to commit or to roll
back. It takes its time over each request and then answers; it may refuse, never answer at all,
or bring down whoever asked. The state of a store is its own, so that any behaviour over time is
the behaviour of some store.
-/

namespace LinkQuality

/-- **What a store is asked for.** -/
inductive Request where
  | begin
  | insert (record : Record)
  /-- Make the records inserted durable. -/
  | commit (records : List Record)
  | rollback

/-- **What comes of a request.** -/
inductive Reply where
  | done
  | failed (why : Failure)
  /-- The one who asked does not survive the answer. -/
  | crashed

/-- **A store with state of type `σ`.** -/
structure Store (σ : Type) where
  name : String
  /-- Takes a request. Gives the milliseconds until the answer, or nothing if none will come. -/
  accept : σ → Request → Option Nat × σ
  /-- Answers a request, when its time has come. -/
  answer : σ → Request → Reply × σ

end LinkQuality
