import LinkQuality.Settings.Basic

/-!
# The address of a ClickHouse server

User, server and database are put together into one address. Nothing is escaped: a part that
holds a character with a meaning in addresses changes what the address says.
-/

namespace LinkQuality.ClickHouseSettings

/-- User and password before the server; a password alone counts for nothing. -/
def userInfo (s : ClickHouseSettings) : String :=
  if s.username = "" then ""
  else if s.password = "" then s.username ++ "@"
  else s.username ++ ":" ++ s.password ++ "@"

/-- What is always asked of the connection. -/
def query : String := "compression=lz4&pool_min=2&pool_max=5"

/-- **The address of the server.** -/
def dsn (s : ClickHouseSettings) : String :=
  "tcp://" ++ s.userInfo ++ s.endpoint ++ "/" ++ s.database ++ "?" ++ query

end LinkQuality.ClickHouseSettings
