import LinkQuality.Decimal.Reading
import LinkQuality.Text.Blank

/-!
# What is logged

A log filter is a list of directives between commas. A directive is a level, or a target with
perhaps a span in square brackets, the fields of which may be named in braces, and perhaps a level
after an equals sign. What a filter lets through is of no concern here, only whether it is one.
-/

namespace LinkQuality.LogFilter

/-- The names of levels. -/
def levels : List String := ["error", "warn", "info", "debug", "trace", "off"]

/-- Is the text a level: a name in any case, or a number up to five? -/
def isLevel (cs : List Char) : Bool :=
  let digits := match cs with
    | '+' :: rest => rest
    | rest => rest
  (!digits.isEmpty && digits.all Decimal.isDigit && Decimal.natOfDigits digits ≤ 5) ||
    levels.contains (String.ofList (cs.map Char.toLower))

/-- The ranges of marks and symbols outside ASCII that are neither letters nor digits, both ends
included. -/
def symbols : List (Nat × Nat) :=
  [(0x80, 0xA9), (0xAB, 0xB1), (0xB4, 0xB4), (0xB6, 0xB8), (0xBB, 0xBB), (0xBF, 0xBF),
    (0xD7, 0xD7), (0xF7, 0xF7), (0x2000, 0x206F), (0x20A0, 0x20FF), (0x2190, 0x245F),
    (0x2500, 0x2BFF), (0x3000, 0x3004), (0x3008, 0x3020), (0xE000, 0xF8FF), (0xFE00, 0xFE6F),
    (0xFF01, 0xFF0F), (0x1F000, 0x1FAFF)]

/-- Can a target begin with `c`? -/
def beginsTarget (c : Char) : Bool :=
  c.isAlphanum || c = '-' || c = ':' || c = '_' ||
    (128 ≤ c.toNat && !symbols.any fun (first, last) => first ≤ c.toNat && c.toNat ≤ last)

/-- How far the reading of a directive has come. -/
inductive Position where
  | start
  | target
  | span
  /-- In the name of a field, of which something may have been read. -/
  | field (begun : Bool)
  | afterFields
  | afterSpan
  /-- In the level that begins at `index`. -/
  | level (index : Nat)

/-- Reads one character at its index. -/
def Position.next (index : Nat) (c : Char) : Position → Option Position
  | start => if c = '[' then some span else if beginsTarget c then some target else none
  | target =>
    if c = '=' then some (level (index + 1)) else if c = '[' then some span else some target
  | span => if c = ']' then some afterSpan else if c = '\x7b' then some (field false) else some span
  | field begun =>
    if c = '\x7d' then (if begun then some afterFields else none) else some (field true)
  | afterFields => if c = ']' then some afterSpan else none
  | afterSpan => if c = '=' then some (level (index + 1)) else none
  | level i => some (level i)

/-- Can a directive end here? The level is taken from the whole text, in which it begins where
it begins in the text without the white space around it. -/
def Position.isFinal (whole : List Char) : Position → Bool
  | target | afterSpan => true
  | level i => (whole.drop i).isEmpty || isLevel (whole.drop i)
  | _ => false

/-- Is the text a directive? -/
def isDirective (cs : List Char) : Bool :=
  let position := (Text.trim cs).zipIdx.foldlM (fun p (c, i) => p.next i c) Position.start
  position.any (·.isFinal cs)

/-- The text cut at commas. -/
def pieces : List Char → List (List Char)
  | [] => [[]]
  | c :: rest =>
    if c = ',' then [] :: pieces rest
    else match pieces rest with
      | first :: others => (c :: first) :: others
      | [] => [[c]]

/-- **Is the text a log filter?** Empty directives do not count. -/
def isValid (filter : String) : Bool :=
  (pieces filter.toList).all fun piece => piece.isEmpty || isDirective piece

end LinkQuality.LogFilter
