import LinkQuality.Http.Client
import LinkQuality.Settings.Basic
import LinkQuality.Store.Basic
import LinkQuality.Store.Ndjson

/-!
# An HTTP service as the store

A transaction stages one JSON line per record and posts them all at once when it is committed. The
service has taken the batch when it answers with success; a rollback has nothing to undo, since
nothing has been sent before.
-/

namespace LinkQuality

/-- **What a transaction has staged.** -/
structure StagedLines where
  body : List Char := []
  /-- Number of records staged. -/
  items : Nat := 0
  deriving DecidableEq, Repr

namespace HttpSettings

/-- The fault of having nowhere to post to. -/
def missingAddress : Failure := ⟨"http address is required", []⟩

/-- **Can a store be built from the settings?** Without an address or with an unknown compression
it cannot. -/
def checkStore (s : HttpSettings) : Except Failure Unit :=
  if s.address = "" then .error missingAddress
  else (Compression.pack s.compression []).map fun _ => ()

/-- The headers of a post: what the body is, how it is packed, and those of the operator. -/
def postHeaders (s : HttpSettings) : List Http.Header :=
  ("Content-Type", "application/x-ndjson") ::
    ((Compression.coding s.compression).map fun coding => ("Content-Encoding", coding)).toList ++
    s.headers

/-- The post of a body. -/
def post (s : HttpSettings) (body : Body) : Http.Request :=
  ⟨.post, s.address, s.postHeaders, some body⟩

/-- The longest a post may take, in milliseconds. -/
def patience (s : HttpSettings) : Nat := s.timeout.millis

end HttpSettings

namespace StagedLines

/-- **Stages a record**, if a store can key it. -/
def insert (t : StagedLines) (r : Record) : Except Failure StagedLines :=
  match r.check with
  | .error why => .error why
  | .ok _ => .ok ⟨t.body ++ r.ndjson, t.items + 1⟩

/-- The failure of a post that was not answered. -/
def notSent (why : Http.SendError) : Failure := ⟨"sending HTTP export request", [why.message]⟩

/-- The failure of a post that was answered otherwise than with success. -/
def notTaken (s : Http.Status) : Failure := ⟨"HTTP export unexpected status: " ++ s.text, []⟩

variable {τ : Type}

/-- **Posts what is staged.** With nothing staged there is nothing to post. -/
def commit (settings : HttpSettings) (service : Http.Service τ) (t : StagedLines)
    (e : Http.Exchange τ) : Except Failure Unit × Http.Exchange τ :=
  if t.items = 0 then (.ok (), e)
  else
    match Compression.pack settings.compression t.body with
    | .error why => (.error (why.during "compressing NDJSON data"), e)
    | .ok body =>
      match e.send service settings.patience (settings.post body) with
      | (.error why, e) => (.error (notSent why), e)
      | (.ok s, e) => (if s.isSuccess then .ok () else .error (notTaken s), e)

/-- How long a commit takes, in milliseconds: until the answer is over, and no longer than a post
may take. -/
def wait (settings : HttpSettings) (service : Http.Service τ) (t : StagedLines)
    (e : Http.Exchange τ) : Nat :=
  if t.items = 0 then 0
  else
    match Compression.pack settings.compression t.body with
    | .error _ => 0
    | .ok body =>
      let r := settings.post body
      if !r.isValid service.client then 0
      else match service.wait e.state r, service.drain e.state r with
        | some head, some body => min (head + body) settings.patience
        | _, _ => settings.patience

end StagedLines

/-- The state of the store: what has been exchanged, and the open transaction. -/
structure HttpStore (τ : Type) where
  exchange : Http.Exchange τ
  staged : StagedLines := {}

namespace HttpStore

variable {τ : Type}

/-- The milliseconds until a request is answered. Only a commit takes time. -/
def wait (settings : HttpSettings) (service : Http.Service τ) (s : HttpStore τ) : Request → Nat
  | .commit _ => s.staged.wait settings service s.exchange
  | _ => 0

/-- The answer to a request. -/
def reply (settings : HttpSettings) (service : Http.Service τ) (s : HttpStore τ) :
    Request → Reply × HttpStore τ
  | .begin => (.done, { s with staged := {} })
  | .insert r =>
    match s.staged.insert r with
    | .ok staged => (.done, { s with staged })
    | .error why => (.failed why, s)
  | .commit _ =>
    match s.staged.commit settings service s.exchange with
    | (.ok _, exchange) => (.done, { s with exchange })
    | (.error why, exchange) => (.failed why, { s with exchange })
  | .rollback => (.done, s)

/-- **The store in front of a service.** -/
def store (settings : HttpSettings) (service : Http.Service τ) : Store (HttpStore τ) where
  name := "http"
  accept s request := (some (s.wait settings service request), s)
  answer s request := s.reply settings service request

end HttpStore

end LinkQuality
