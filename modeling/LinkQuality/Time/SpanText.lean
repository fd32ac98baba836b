import LinkQuality.Decimal.Reading
import LinkQuality.Text.Blank
import LinkQuality.Time.Span

/-!
# Reading spans

A span is written as parts that are added up, such as `1h 30m`. A part is a number, perhaps with a
fraction, and a unit; white space can stand anywhere but within a unit. The numbers and the sums
are counted in 64-bit words of seconds or of nanoseconds, and a fraction must come out even.
-/

namespace LinkQuality

/-- A number of seconds or of nanoseconds. -/
inductive SpanCount where
  | seconds (n : Nat)
  | nanos (n : Nat)

/-- A unit of time. -/
structure TimeUnit where
  names : List String
  /-- How its multiples are counted. -/
  length : SpanCount
  /-- How its fractions are counted, if it can have any. -/
  fractions : Option SpanCount := some length

namespace TimeUnit

/-- **The units.** A month and a year have their mean length. -/
def all : List TimeUnit :=
  [⟨["nanos", "nsec", "ns"], .nanos 1, none⟩,
    ⟨["usec", "us", "µs"], .nanos 1000, some (.nanos 1000)⟩,
    ⟨["millis", "msec", "ms"], .nanos 1000000, some (.nanos 1000000)⟩,
    ⟨["seconds", "second", "secs", "sec", "s"], .seconds 1, some (.nanos 1000000000)⟩,
    ⟨["minutes", "minute", "mins", "min", "m"], .seconds 60, some (.nanos 60000000000)⟩,
    { names := ["hours", "hour", "hrs", "hr", "h"], length := .seconds 3600 },
    { names := ["days", "day", "d"], length := .seconds 86400 },
    { names := ["weeks", "week", "wks", "wk", "w"], length := .seconds 604800 },
    { names := ["months", "month", "M"], length := .seconds 2630016 },
    { names := ["years", "year", "yrs", "yr", "y"], length := .seconds 31557600 }]

/-- The unit with a name. -/
def ofName? (name : String) : Option TimeUnit := all.find? (·.names.contains name)

/-- Can `c` occur in the name of a unit? -/
def isNameChar (c : Char) : Bool := c.isAlpha || c = 'µ'

end TimeUnit

/-- A number that fits a word of 64 bits. -/
def word64? (n : Nat) : Option Nat := if n < UInt64.size then some n else none

namespace SpanCount

/-- A count so many times over. -/
def times? (n : Nat) : SpanCount → Option SpanCount
  | .seconds k => (word64? (n * k)).map .seconds
  | .nanos k => (word64? (n * k)).map .nanos

/-- A part of a count, which must come out even. -/
def dividedBy? (d : Nat) : SpanCount → Option SpanCount
  | .seconds k => if k % d = 0 then some (.seconds (k / d)) else none
  | .nanos k => if k % d = 0 then some (.nanos (k / d)) else none

/-- Adds a count to a span. The nanoseconds beyond its whole seconds are added in one word, and
the seconds in another. -/
def addTo? (s : Span) : SpanCount → Option Span
  | .seconds k => (word64? (s.seconds + k)).map fun _ => ⟨s.nanoseconds + k * 1000000000⟩
  | .nanos k => do
    let _ ← word64? (s.nanos + k)
    let sum : Span := ⟨s.nanoseconds + k⟩
    let _ ← word64? sum.seconds
    some sum

end SpanCount

/-- A part of a span as it is written. -/
structure SpanPart where
  whole : List Char
  /-- The digits of the fraction, if there is one. -/
  fraction : Option (List Char)
  unit : TimeUnit

namespace SpanPart

/-- A run of digits and white space: the digits in it, and what follows. -/
def readDigits (cs : List Char) : List Char × List Char :=
  let (run, rest) := cs.span fun c => Decimal.isDigit c || Text.isBlank c
  (run.filter Decimal.isDigit, rest)

/-- A fraction, if there is a point: at least one digit. -/
def readFraction : List Char → Option (Option (List Char) × List Char)
  | '.' :: rest =>
    match readDigits rest with
    | ([], _) => none
    | (digits, rest) => some (some digits, rest)
  | rest => some (none, rest)

/-- Reads a part. -/
def read (cs : List Char) : Option (SpanPart × List Char) := do
  let (whole, rest) := readDigits cs
  let (fraction, rest) ← readFraction rest
  let (name, rest) := rest.span TimeUnit.isNameChar
  let unit ← TimeUnit.ofName? (String.ofList name)
  if whole.isEmpty then none else some (⟨whole, fraction, unit⟩, rest)

/-- Adds a part to a span, first its whole units and then the fraction. -/
def addTo? (part : SpanPart) (s : Span) : Option Span := do
  let whole ← word64? (Decimal.natOfDigits part.whole)
  let s ← (← part.unit.length.times? whole).addTo? s
  match part.fraction with
  | none => some s
  | some digits =>
    let numerator ← word64? (Decimal.natOfDigits digits)
    let denominator ← word64? (Nat.pow 10 digits.length)
    (← (← (← part.unit.fractions).times? numerator).dividedBy? denominator).addTo? s

/-- Reads parts until only white space is left, and adds them up. Each part takes characters, so
there are no more parts than characters. -/
def sum : Nat → Span → List Char → Option Span
  | 0, _, _ => none
  | fuel + 1, s, cs => do
    let (part, rest) ← read cs
    let s ← part.addTo? s
    if rest.all Text.isBlank then some s else sum fuel s rest

end SpanPart

/-- **The span a text stands for.** A zero alone needs no unit. -/
def Span.ofText? (text : List Char) : Option Span :=
  if text = ['0'] then some .zero else SpanPart.sum text.length .zero text

end LinkQuality
