import LinkQuality.Decimal.Reading
import LinkQuality.Json.Quoted

/-!
# Reading JSON

The pieces a reader of one known kind of document needs: white space, strings, numbers, the word
for nothing, and a way to pass over any value it has no use for. A reader takes characters and
gives what it read and what is left, or nothing if the text is not as it should be.
-/

namespace LinkQuality.Json

/-- The text without leading white space; JSON knows four characters of it. -/
def skipBlanks (cs : List Char) : List Char :=
  cs.dropWhile fun c => c = ' ' || c = '\n' || c = '\t' || c = '\r'

/-- The rest after a word at the front. -/
def readWord (word : List Char) (cs : List Char) : Option (List Char) :=
  if word.isPrefixOf cs then some (cs.drop word.length) else none

/-! ## Numbers -/

/-- The whole part of a number: a zero alone, or digits that do not begin with one. -/
def readWhole (cs : List Char) : Option (List Char × List Char) :=
  match Decimal.spanDigits cs with
  | ([], _) => none
  | (['0'], rest) => some (['0'], rest)
  | ('0' :: _, _) => none
  | (ds, rest) => some (ds, rest)

/-- The fraction of a number, if there is a point: at least one digit. -/
def readFraction : List Char → Option (List Char × List Char)
  | '.' :: rest =>
    match Decimal.spanDigits rest with
    | ([], _) => none
    | (ds, rest) => some (ds, rest)
  | rest => some ([], rest)

/-- A number without its sign. -/
def readLiteral (cs : List Char) : Option (Decimal.Literal × List Char) := do
  let (whole, rest) ← readWhole cs
  let (fraction, rest) ← readFraction rest
  let (exponent, rest) ← Decimal.readExponent rest
  some (⟨whole, fraction, exponent⟩, rest)

/-- **Reads a number**, which must lie in the range of doubles. A zero keeps its sign. -/
def readNumber (cs : List Char) : Option (Float × List Char) := do
  let (negative, body) := match cs with
    | '-' :: rest => (true, rest)
    | rest => (false, rest)
  let (literal, rest) ← readLiteral body
  let x := literal.value
  if x.isFinite then some (if negative then -x else x, rest) else none

/-- Passes over a number of any size. -/
def skipNumber (cs : List Char) : Option (List Char) :=
  let body := match cs with
    | '-' :: rest => rest
    | rest => rest
  (readLiteral body).map (·.2)

/-! ## Passing over values -/

/-- What an unfinished value is. -/
inductive Bracket where
  | list
  | object
  deriving DecidableEq, Repr

/-- What may come next while a value is passed over. -/
inductive Expected where
  /-- A value. -/
  | value
  /-- A value, or the end of a list that has just begun. -/
  | item
  /-- A name and a value. -/
  | member
  /-- A name and a value, or the end of an object that has just begun. -/
  | entry
  /-- A comma or the end of what is open. -/
  | more
  deriving DecidableEq, Repr

/-- Passes over a value that is neither list nor object. -/
def skipScalar : List Char → Option (List Char)
  | '"' :: rest => skipString rest
  | 'n' :: rest => readWord ['u', 'l', 'l'] rest
  | 't' :: rest => readWord ['r', 'u', 'e'] rest
  | 'f' :: rest => readWord ['a', 'l', 's', 'e'] rest
  | cs => skipNumber cs

/-- Passes over the rest of a value with the given brackets open, the innermost first. Of any
three steps one takes a character, so three per character are enough. -/
def skipOpen : Nat → Expected → List Bracket → List Char → Option (List Char)
  | 0, _, _, _ => none
  | _ + 1, .more, [], cs => some cs
  | fuel + 1, expected, brackets, cs =>
    let cs := skipBlanks cs
    match expected, brackets, cs with
    | .value, _, '[' :: rest => skipOpen fuel .item (.list :: brackets) rest
    | .value, _, '\x7b' :: rest => skipOpen fuel .entry (.object :: brackets) rest
    | .value, _, cs => skipScalar cs >>= skipOpen fuel .more brackets
    | .item, _ :: outer, ']' :: rest => skipOpen fuel .more outer rest
    | .item, _, cs => skipOpen fuel .value brackets cs
    | .entry, _ :: outer, '\x7d' :: rest => skipOpen fuel .more outer rest
    | .entry, _, cs => skipOpen fuel .member brackets cs
    | .member, _, '"' :: rest => do
      match skipBlanks (← skipString rest) with
      | ':' :: rest => skipOpen fuel .value brackets rest
      | _ => none
    | .member, _, _ => none
    | .more, .list :: _, ',' :: rest => skipOpen fuel .value brackets rest
    | .more, .list :: outer, ']' :: rest => skipOpen fuel .more outer rest
    | .more, .object :: _, ',' :: rest => skipOpen fuel .member brackets rest
    | .more, .object :: outer, '\x7d' :: rest => skipOpen fuel .more outer rest
    | .more, _, _ => none

/-- **Passes over any value**, however deeply nested. -/
def skipValue (cs : List Char) : Option (List Char) :=
  skipOpen (3 * cs.length + 3) .value [] cs

end LinkQuality.Json
