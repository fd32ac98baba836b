import LinkQuality.Store.Basic

/-!
# Stores that follow a script

For rehearsals there is a store that behaves as it is told, one line of its script per
transaction, and well once the script is over. Beside the script it can have a grudge against
one node, check records, and refuse every rollback.
-/

namespace LinkQuality

/-- One line of a script: how one transaction goes. -/
inductive Scene where
  | fine
  | failBegin
  | failInsert
  | failCommit
  | crash
  /-- The request waits that many milliseconds and then goes well. -/
  | slowBegin (wait : Nat)
  | slowInsert (wait : Nat)
  | slowCommit (wait : Nat)
  deriving DecidableEq, Repr

/-- **The script that is left, and the habits of the store.** -/
structure Script where
  scenes : List Scene := []
  rejectNode : Option String := none
  rollbackFails : Bool := false
  validates : Bool := false
  /-- How the transaction that is open goes. -/
  current : Scene := .fine
  deriving DecidableEq, Repr

namespace Script

/-- The script with its next line under way. -/
def next (s : Script) : Script :=
  match s.scenes with
  | [] => { s with current := .fine }
  | scene :: rest => { s with scenes := rest, current := scene }

/-- The wait before a request. -/
def wait (s : Script) : Request → Nat
  | .begin => match s.current with
    | .slowBegin n => n
    | _ => 0
  | .insert _ => match s.current with
    | .slowInsert n => n
    | _ => 0
  | .commit _ => match s.current with
    | .slowCommit n => n
    | _ => 0
  | .rollback => 0

/-- The refusal of a record. -/
def violation (r : Record) : Failure := ⟨"constraint violation for " ++ r.node, []⟩

/-- The answer to a request. -/
def reply (s : Script) : Request → Reply
  | .begin =>
    if s.current = .failBegin then .failed ⟨"sink unavailable", []⟩
    else if s.current = .crash then .crashed
    else .done
  | .insert r =>
    if s.current = .failInsert ∨ s.rejectNode = some r.node then .failed (violation r)
    else if s.validates then
      match r.check with
      | .ok _ => .done
      | .error why => .failed why
    else .done
  | .commit _ => if s.current = .failCommit then .failed ⟨"commit refused", []⟩ else .done
  | .rollback => if s.rollbackFails then .failed ⟨"rollback refused", []⟩ else .done

/-- **The store that follows its script.** -/
def store (name : String) : Store Script where
  name
  accept s request :=
    let s := match request with
      | .begin => s.next
      | _ => s
    (some (s.wait request), s)
  answer s request := (s.reply request, s)

end Script

end LinkQuality
