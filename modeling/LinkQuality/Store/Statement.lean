import LinkQuality.Store.Keyed

/-!
# Insert statements

All rows of a batch go into one statement, which the server applies as a whole. Strings are
literals between single quotes; first each backslash inside one is doubled and then each quote gets
a backslash before it, so that no record can end its literal early. The other way round the
backslashes of the quotes would be doubled too.
-/

namespace LinkQuality

/-- **A statement with the rows staged so far.** -/
structure Statement where
  sql : List Char
  rows : Nat
  deriving DecidableEq, Repr

namespace Statement

/-- The columns of a row, in order. -/
def columns : String :=
  "node_id, probe_id, timestamp, latency_ms, packet_loss_rate, jitter_ms, is_aggregated"

/-- The text with `new` in place of each `old`. -/
def replace (old : Char) (new s : List Char) : List Char :=
  s.flatMap fun c => if c = old then new else [c]

/-- A string inside a literal. -/
def escaped (s : List Char) : List Char :=
  replace '\'' ['\\', '\''] (replace '\\' ['\\', '\\'] s)

/-- A string as a literal. -/
def literal (s : List Char) : List Char := '\'' :: escaped s ++ ['\'']

/-- The values of a row, as they are written. -/
def values (r : Record) : List (List Char) :=
  [literal r.node.toList, literal r.probe.toList, '\'' :: r.time.sqlText ++ ['\''],
    NumberLayout.literal.chars r.latency, NumberLayout.literal.chars r.loss,
    NumberLayout.literal.chars r.jitter, [if r.aggregated then '1' else '0']]

/-- What stands between two values, and between two rows. -/
def comma : List Char := [',', ' ']

/-- The row of a record. -/
def row (r : Record) : List Char := '(' :: List.intercalate comma (values r) ++ [')']

/-- A statement without rows. -/
def into (table : String) : Statement :=
  ⟨("INSERT INTO " ++ table ++ " (" ++ columns ++ ") VALUES ").toList, 0⟩

/-- **Stages one more row.** -/
def push (s : Statement) (r : Record) : Statement :=
  ⟨s.sql ++ (if s.rows = 0 then [] else comma) ++ row r, s.rows + 1⟩

end Statement

end LinkQuality
