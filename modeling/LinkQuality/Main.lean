import LinkQuality.CommandLine.Program
import Std.Time.DateTime.Timestamp

/-!
# The executable

Reads the command line, the file with the settings and the standard input, and leaves all else to
the program. No network is attached to it: what it accepts is refused by the store and counted as
dropped.
-/

namespace LinkQuality

/-- All bytes of a stream. -/
partial def readAll (stream : IO.FS.Stream) (bytes : ByteArray) : IO ByteArray := do
  let more ← stream.read 65536
  if more.isEmpty then return bytes else readAll stream (bytes ++ more)

/-- The text of a file, if it can be read. -/
def readFile? (path : String) : IO (Option String) := do
  try
    let bytes ← IO.FS.readBinFile path
    return String.fromUTF8? bytes
  catch _ => return none

/-- The time on the wall clock. -/
def currentTime : IO Timestamp := do
  let nanos := (← Std.Time.Timestamp.now).toNanosecondsSinceUnixEpoch.val
  return (Timestamp.ofParts? (nanos / 1000000000) (nanos % 1000000000).toNat).getD
    (.ofSecond 0 (by decide) (by decide))

end LinkQuality

open LinkQuality in
/-- Runs the program. -/
def main (args : List String) : IO UInt32 := do
  let command := CommandLine.read args
  let file ← match command with
    | .invocation { config := some path, .. } => (·.map (path, ·)) <$> readFile? path
    | _ => pure none
  let bytes ← match command with
    | .invocation { stdin := true, command := none, .. } => readAll (← IO.getStdin) .empty
    | _ => pure .empty
  let outcome := command.run { platform := "linux/x86_64" } Network.offline () (← currentTime)
    (fun path => file.bind fun (name, text) => if name = path then some text else none)
    { bytes := bytes.toList }
  IO.print outcome.stdout
  IO.eprint outcome.stderr
  return outcome.code.toUInt32
