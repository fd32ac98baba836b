import LinkQuality.Decimal.Binary64

/-!
# Lengths of time

A span is a whole number of nanoseconds. Spans are configured and computed to the nanosecond,
while timers fire on whole milliseconds: a deadline that falls between two of them is met at the
later one.
-/

namespace LinkQuality

/-- A length of time. -/
structure Span where
  nanoseconds : Nat
  deriving DecidableEq, Repr

namespace Span

def zero : Span := ⟨0⟩

def ofSeconds (n : Nat) : Span := ⟨n * 1000000000⟩

def ofMillis (n : Nat) : Span := ⟨n * 1000000⟩

/-- Seconds and nanoseconds on top of them. -/
def ofParts (seconds nanos : Nat) : Span := ⟨seconds * 1000000000 + nanos⟩

/-- The whole seconds of a span. -/
def seconds (s : Span) : Nat := s.nanoseconds / 1000000000

/-- The nanoseconds beyond the whole seconds. -/
def nanos (s : Span) : Nat := s.nanoseconds % 1000000000

/-- The whole milliseconds of a span. -/
def millis (s : Span) : Nat := s.nanoseconds / 1000000

instance : LE Span := ⟨fun a b => a.nanoseconds ≤ b.nanoseconds⟩
instance : LT Span := ⟨fun a b => a.nanoseconds < b.nanoseconds⟩

instance (a b : Span) : Decidable (a ≤ b) :=
  inferInstanceAs (Decidable (a.nanoseconds ≤ b.nanoseconds))

instance (a b : Span) : Decidable (a < b) :=
  inferInstanceAs (Decidable (a.nanoseconds < b.nanoseconds))

/-- The longer of two spans. -/
instance : Max Span := ⟨fun a b => if a ≤ b then b else a⟩

/-- Has the span no length? -/
def isZero (s : Span) : Bool := s.nanoseconds = 0

/-! ## Spans as doubles -/

/-- The length in seconds: the whole seconds and the fraction are each rounded to a double and
then added. -/
def toFloat (s : Span) : Float := Float.ofNat s.seconds + Float.ofNat s.nanos / 1000000000

/-- **The span of a number of seconds**, to the nearest nanosecond, of two equally near ones to
the even. Only a finite number that is not negative is the length of a span, and its whole seconds
have to fit into 64 bits. -/
def ofFloat? (x : Float) : Option Span :=
  match Binary64.ofFloat x with
  | .finite negative b =>
    if negative ∧ b.significand ≠ 0 then none
    else
      let (num, den) := b.quotient
      if num < Nat.pow 2 64 * den then some ⟨Binary.roundHalfEven (num * 1000000000) den⟩ else none
  | _ => none

/-! ## Writing -/

/-- A quotient with at most `places` digits after the point and no zero at the end. -/
def decimalText (whole fraction places : Nat) : List Char :=
  let digits := Nat.toDigits 10 fraction
  let padded := List.replicate (places - digits.length) '0' ++ digits
  let kept := (padded.reverse.dropWhile (· = '0')).reverse
  Nat.toDigits 10 whole ++ (if kept.isEmpty then [] else '.' :: kept)

/-- **The length in its largest unit** among seconds, milli-, micro- and nanoseconds, such as
`1.5s` or `999.999µs`. -/
def text (s : Span) : String :=
  let n := s.nanoseconds
  String.ofList <|
    if 1000000000 ≤ n then decimalText s.seconds s.nanos 9 ++ ['s']
    else if 1000000 ≤ n then decimalText (n / 1000000) (n % 1000000) 6 ++ ['m', 's']
    else if 1000 ≤ n then decimalText (n / 1000) (n % 1000) 3 ++ ['µ', 's']
    else decimalText n 0 0 ++ ['n', 's']

end Span

end LinkQuality
