import LinkQuality.Http.Request
import LinkQuality.Http.Status

/-!
# Talking to a service

A service has a state of its own, takes its time, and answers with a status or not at all. A
status can send the client on to another address: then the request is repeated there, whole or
without its body, a limited number of times. What has been sent and answered is kept, latest
first.

The client is a library, and some things are left to it (`Client`): what it takes for an address,
and which headers it sends along to another one. Nothing is assumed of either.
-/

namespace LinkQuality.Http

/-- What a service says to a request. -/
inductive Answer where
  /-- It cannot be reached. -/
  | unreachable
  /-- A status, with the address to turn to instead if it gives one that can be read. -/
  | status (status : Status) (location : Option String)
  deriving DecidableEq, Repr

/-- **What is left to a client library.** -/
structure Client where
  /-- Is this an address that requests can be sent to? -/
  isAddress : String → Bool
  /-- The headers that go along when a request has been answered by a status, and is followed by
  another to an address. -/
  onward : Request → Status → String → List Header

/-- **A service** with state of type `τ`, and the client library through which it is met. -/
structure Service (τ : Type) where
  client : Client
  /-- The milliseconds until the head of the last answer that follows from a request, or nothing if
  that never comes. -/
  wait : τ → Request → Option Nat
  /-- The milliseconds from there to the end of its body, or nothing if that never comes. The end is
  waited for, but what becomes of the body makes no difference. -/
  drain : τ → Request → Option Nat
  respond : τ → Request → Answer × τ

/-- The state of a service and what has passed between client and service. -/
structure Exchange (τ : Type) where
  state : τ
  /-- Requests sent and the answers to them, latest first. -/
  log : List (Request × Answer) := []

/-- Has the service been reached? -/
def Answer.isReached (a : Answer) : Bool := a ≠ .unreachable

/-- The requests that have reached the service, oldest first. -/
def Exchange.received {τ : Type} (e : Exchange τ) : List Request :=
  (e.log.reverse.filter (·.2.isReached)).map (·.1)

/-- Why a request was not answered in the end. -/
inductive SendError where
  /-- It was not sent, for its address or a header is not allowed. -/
  | invalid
  | unreachable
  | timedOut
  | tooManyRedirects
  deriving DecidableEq, Repr

/-- The wording of an error. -/
def SendError.message : SendError → String
  | invalid => "builder error"
  | unreachable => "error sending request"
  | timedOut => "operation timed out"
  | tooManyRedirects => "error following redirect"

/-- How often a client lets itself be sent on. -/
def redirectLimit : Nat := 10

variable {τ : Type}

/-- Can the request be sent? -/
def Request.isValid (c : Client) (r : Request) : Bool :=
  c.isAddress r.address && r.headers.all isHeader

/-- The request that follows from a status with an address, if the client is sent on. -/
def Request.redirected? (c : Client) (r : Request) (s : Status) (location : Option String) :
    Option Request :=
  match location with
  | some address =>
    let headers := c.onward r s address
    if s.dropsBody then some ⟨.get, address, headers, none⟩
    else if s.keepsBody then some { r with address, headers }
    else none
  | none => none

/-- One request and its answer. -/
def Exchange.pass (service : Service τ) (r : Request) (e : Exchange τ) : Answer × Exchange τ :=
  let (answer, state) := service.respond e.state r
  (answer, ⟨state, (r, answer) :: e.log⟩)

/-- Sends a request and lets itself be sent on, `left` times at most. -/
def Exchange.follow (service : Service τ) :
    Nat → Request → Exchange τ → Except SendError Status × Exchange τ
  | left, r, e =>
    match e.pass service r with
    | (.unreachable, e) => (.error .unreachable, e)
    | (.status s location, e) =>
      match r.redirected? service.client s location, left with
      | none, _ => (.ok s, e)
      | some _, 0 => (.error .tooManyRedirects, e)
      | some r, left + 1 => follow service left r e

/-- **Sends a request** and waits for the head of the answer, `patience` milliseconds at most. An
answer that comes later is not waited for, but the request has been sent. -/
def Exchange.send (service : Service τ) (patience : Nat) (r : Request) (e : Exchange τ) :
    Except SendError Status × Exchange τ :=
  if !r.isValid service.client then (.error .invalid, e)
  else if (service.wait e.state r).any (· ≤ patience) then e.follow service redirectLimit r
  else (.error .timedOut, (e.pass service r).2)

end LinkQuality.Http
