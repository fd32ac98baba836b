import LinkQuality.Store.Basic
import LinkQuality.Store.Dsn
import LinkQuality.Store.Statement

/-!
# A ClickHouse server as the store

Before anything is written the server must have answered once. A transaction takes a connection
and stages its rows in one statement, which is sent when it is committed; the server applies it as
a whole. A rollback has nothing to undo.
-/

namespace LinkQuality

namespace ClickHouse

/-- What comes of a request to the server. -/
inductive Outcome where
  | done
  | failed (why : String)
  deriving DecidableEq, Repr

/-- **A server** with state of type `τ`. -/
structure Server (τ : Type) where
  /-- Opens a connection to an address. Gives nothing if the time for it runs out. -/
  connect : τ → String → Option Outcome × τ
  /-- Asks for a sign of life. Gives nothing if the time for it runs out. -/
  ping : τ → Option Outcome × τ
  /-- The milliseconds a statement takes, or nothing if it never ends. -/
  wait : τ → List Char → Option Nat
  execute : τ → List Char → Outcome × τ

end ClickHouse

namespace ClickHouseSettings

/-- The name of the table with its database. -/
def qualifiedTable (s : ClickHouseSettings) : String := s.database ++ "." ++ s.table

/-- The failure of waiting too long for the first answer. -/
def lateAnswer (s : ClickHouseSettings) : Failure :=
  ⟨"connecting to ClickHouse at " ++ s.endpoint, ["deadline has elapsed"]⟩

variable {τ : Type}

/-- **Opens the first connection** and waits for the server to answer. -/
def connect (s : ClickHouseSettings) (server : ClickHouse.Server τ) (state : τ) :
    Except Failure Unit × τ :=
  match server.connect state s.dsn with
  | (none, state) => (.error s.lateAnswer, state)
  | (some (.failed why), state) => (.error ⟨"opening ClickHouse connection", [why]⟩, state)
  | (some .done, state) =>
    match server.ping state with
    | (none, state) => (.error s.lateAnswer, state)
    | (some (.failed why), state) => (.error ⟨"pinging ClickHouse", [why]⟩, state)
    | (some .done, state) => (.ok (), state)

end ClickHouseSettings

namespace Statement

/-- **Stages a record**, if a store can key it. -/
def insert (s : Statement) (r : Record) : Except Failure Statement :=
  match r.check with
  | .error why => .error why
  | .ok _ => .ok (s.push r)

end Statement

/-- The state of the store: that of the server, the statements it was sent, latest first, and the
one that is open. -/
structure ClickHouseStore (τ : Type) where
  state : τ
  log : List (List Char) := []
  staged : Statement

namespace ClickHouseStore

variable {τ : Type}

/-- Takes a connection for a transaction. -/
def begin (settings : ClickHouseSettings) (server : ClickHouse.Server τ) (s : ClickHouseStore τ) :
    Except Failure Unit × ClickHouseStore τ :=
  match server.connect s.state settings.dsn with
  | (some .done, state) =>
    (.ok (), { s with state, staged := .into settings.qualifiedTable })
  | (some (.failed why), state) =>
    (.error ⟨"getting handle for metrics insert", [why]⟩, { s with state })
  | (none, state) =>
    (.error ⟨"getting handle for metrics insert", ["deadline has elapsed"]⟩, { s with state })

/-- **Sends the statement.** Without rows there is nothing to send. -/
def commit (server : ClickHouse.Server τ) (s : ClickHouseStore τ) :
    Except Failure Unit × ClickHouseStore τ :=
  if s.staged.rows = 0 then (.ok (), s)
  else
    let (outcome, state) := server.execute s.state s.staged.sql
    let s := { s with state, log := s.staged.sql :: s.log }
    match outcome with
    | .done => (.ok (), s)
    | .failed why => (.error ⟨"inserting " ++ toString s.staged.rows ++ " rows", [why]⟩, s)

/-- The milliseconds until a request is answered. Only a commit takes time. -/
def wait (server : ClickHouse.Server τ) (s : ClickHouseStore τ) : Request → Option Nat
  | .commit _ => if s.staged.rows = 0 then some 0 else server.wait s.state s.staged.sql
  | _ => some 0

/-- The answer to a request. -/
def reply (settings : ClickHouseSettings) (server : ClickHouse.Server τ) (s : ClickHouseStore τ)
    (request : Request) : Reply × ClickHouseStore τ :=
  let answer (r : Except Failure Unit × ClickHouseStore τ) : Reply × ClickHouseStore τ :=
    match r with
    | (.ok _, s) => (.done, s)
    | (.error why, s) => (.failed why, s)
  match request with
  | .begin => answer (s.begin settings server)
  | .insert r =>
    match s.staged.insert r with
    | .ok staged => (.done, { s with staged })
    | .error why => (.failed why, s)
  | .commit _ => answer (s.commit server)
  | .rollback => (.done, s)

/-- **The store in front of a server.** -/
def store (settings : ClickHouseSettings) (server : ClickHouse.Server τ) :
    Store (ClickHouseStore τ) where
  name := "clickhouse"
  accept s request := (s.wait server request, s)
  answer s request := s.reply settings server request

end ClickHouseStore

end LinkQuality
