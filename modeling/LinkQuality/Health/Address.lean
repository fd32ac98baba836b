import LinkQuality.Decimal.Reading

/-!
# Where the metrics are served

An address to listen on is a host and a port. A port alone, after its colon, stands for every
interface of the machine, and nothing at all for the standard port. Port zero asks for any port
that is free.
-/

namespace LinkQuality

/-- **An address to listen on.** -/
structure ListenAddress where
  host : String
  port : Nat
  deriving DecidableEq, Repr

namespace ListenAddress

/-- The address that is meant when none is given. -/
def standard : String := ":9090"

/-- The address with its host, if it was left out. -/
def completed (address : String) : String :=
  let address := if address = "" then standard else address
  if address.toList.head? = some ':' then "0.0.0.0" ++ address else address

/-- A port: digits after a plus sign or none. -/
def readPort (cs : List Char) : Option Nat :=
  let digits := match cs with
    | '+' :: rest => rest
    | rest => rest
  let n := Decimal.natOfDigits digits
  if digits.isEmpty || !digits.all Decimal.isDigit || 65536 ≤ n then none else some n

/-- **Reads an address**; the port follows its last colon. -/
def ofText? (address : String) : Option ListenAddress :=
  let cs := (completed address).toList.reverse
  let port := cs.takeWhile (· ≠ ':')
  match cs.drop port.length with
  | [] => none
  | _ :: host => (readPort port.reverse).map fun n => ⟨String.ofList host.reverse, n⟩

end ListenAddress

end LinkQuality
