import LinkQuality.Health.Address
import LinkQuality.Http.Client
import LinkQuality.Store.ClickHouse
import LinkQuality.Store.Http

/-!
# The network

Everything beyond the process: the hosts it can listen on, the service and the server it writes
to, and whether what it serves can be reached. The store that settings ask for is built from it.
-/

namespace LinkQuality

/-- **The surroundings of the process**, with a state of type `τ`. -/
structure Network (τ : Type) where
  /-- The names and addresses of this machine. -/
  hosts : List String
  /-- Do requests reach what is served on this machine? -/
  isOpen : Bool
  service : Http.Service τ
  server : ClickHouse.Server τ

/-- **A network on which nothing can be reached**, whatever its address. -/
def Network.offline : Network Unit where
  hosts := ["127.0.0.1", "0.0.0.0", "localhost", "[::1]", "[::]"]
  isOpen := false
  service :=
    { client := { isAddress := fun _ => true, onward := fun r _ _ => r.headers }
      wait := fun _ _ => some 0
      drain := fun _ _ => some 0
      respond := fun _ _ => (.unreachable, ()) }
  server :=
    { connect := fun _ _ => (some (.failed "connection refused"), ())
      ping := fun _ => (some (.failed "connection refused"), ())
      wait := fun _ _ => some 0
      execute := fun _ _ => (.failed "connection refused", ()) }

variable {τ : Type}

/-- **Opens a listener.** A port that has been given out already is refused. -/
def Network.listen (n : Network τ) (address : String) (taken : Bool) : Except Failure Unit :=
  let refused (why : String) : Except Failure Unit :=
    .error ⟨"listening on " ++ ListenAddress.completed address, [why]⟩
  match ListenAddress.ofText? address with
  | none => refused "invalid socket address"
  | some a =>
    if !n.hosts.contains a.host then refused "failed to lookup address information"
    else if taken && a.port ≠ 0 then refused "Address already in use (os error 98)"
    else .ok ()

/-! ## The store of the settings -/

/-- The state of the store that was chosen. -/
inductive Export (τ : Type) where
  | http (store : HttpStore τ)
  | clickHouse (store : ClickHouseStore τ)

namespace Export

/-- The request is passed on to the store that was chosen. -/
def accept (s : SinkSettings) (n : Network τ) (e : Export τ) (request : Request) :
    Option Nat × Export τ :=
  match e with
  | .http h =>
    let (wait, h) := (HttpStore.store s.http n.service).accept h request
    (wait, .http h)
  | .clickHouse c =>
    let (wait, c) := (ClickHouseStore.store s.clickHouse n.server).accept c request
    (wait, .clickHouse c)

/-- The answer comes from the store that was chosen. -/
def answer (s : SinkSettings) (n : Network τ) (e : Export τ) (request : Request) :
    Reply × Export τ :=
  match e with
  | .http h =>
    let (reply, h) := (HttpStore.store s.http n.service).answer h request
    (reply, .http h)
  | .clickHouse c =>
    let (reply, c) := (ClickHouseStore.store s.clickHouse n.server).answer c request
    (reply, .clickHouse c)

/-- The bodies that have reached an HTTP service, oldest first. -/
def posted : Export τ → List Body
  | .http h => h.exchange.received.filterMap (·.body)
  | .clickHouse _ => []

/-- The statements that a ClickHouse server was sent, oldest first. -/
def statements : Export τ → List (List Char)
  | .http _ => []
  | .clickHouse c => c.log.reverse

/-- **The store that was chosen.** -/
def store (s : SinkSettings) (n : Network τ) : Store (Export τ) where
  name := if s.clickHouse.enabled then "clickhouse" else "http"
  accept := accept s n
  answer := answer s n

/-- **Builds the store of the settings**: a ClickHouse server must answer first, while an HTTP
service is left alone until there is something to post. -/
def build (s : SinkSettings) (n : Network τ) (state : τ) :
    Except Failure (Store (Export τ) × Export τ) :=
  if s.clickHouse.enabled then
    match s.clickHouse.connect n.server state with
    | (.error why, _) => .error (why.during "starting ClickHouse writer")
    | (.ok _, state) =>
      .ok (store s n, .clickHouse { state, staged := .into s.clickHouse.qualifiedTable })
  else
    match s.http.checkStore with
    | .error why => .error (why.during "creating HTTP sink")
    | .ok _ => .ok (store s n, .http { exchange := { state } })

end Export

end LinkQuality
