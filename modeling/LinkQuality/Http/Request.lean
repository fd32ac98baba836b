import LinkQuality.Store.Compression

/-!
# Requests

What is sent to an HTTP service, and what headers it can be sent with: their names are made of a few
characters, and their values hold no control characters. What an address may look like is left to
the client library that is used.
-/

namespace LinkQuality.Http

/-! ## Headers -/

/-- Can `c` occur in the name of a header? -/
def isNameChar (c : Char) : Bool :=
  c.isAlphanum ||
    ['!', '#', '$', '%', '&', '\'', '*', '+', '-', '.', '^', '_', '\x60', '|', '~'].contains c

/-- A name and a value. -/
abbrev Header : Type := String × String

/-- Does HTTP allow the name? One of more than 65535 characters is taken for none. -/
def isName (name : String) : Bool :=
  name ≠ "" && name.toList.length < 65536 && name.toList.all isNameChar

/-- Does HTTP allow the value? -/
def isValue (value : String) : Bool :=
  value.toList.all fun c => c = '\t' || (32 ≤ c.toNat && c.toNat ≠ 127)

/-- Does HTTP allow the header? -/
def isHeader (h : Header) : Bool := isName h.1 && isValue h.2

/-! ## Requests -/

inductive Method where
  | get
  | post
  deriving DecidableEq, Repr

/-- **A request.** -/
structure Request where
  method : Method
  address : String
  headers : List Header
  /-- What is sent along, if anything is. -/
  body : Option Body
  deriving DecidableEq, Repr

end LinkQuality.Http
