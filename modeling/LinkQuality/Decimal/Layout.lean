import LinkQuality.Decimal.Shortest

/-!
# How a number is written

The digits come from the shortest decimal; what remains is a handful of decisions each output
format makes for itself, held in one record per format. Two formats matter here: numbers in
JSON, and plain numbers in messages, statements and metrics.
-/

namespace LinkQuality

/-- **The decisions of a number format.** -/
structure NumberLayout where
  /-- Which of two equally near shortest decimals is written. -/
  tie : Tie
  /-- The exponents of the leading digit for which no exponent is written. -/
  positional : Int → Bool
  /-- Whether a whole number still shows a fraction. -/
  pointZero : Bool
  /-- What stands for a value that is no number. -/
  nan : String
  /-- What stands for an infinity, given whether it is negative. -/
  infinity : Bool → String

namespace NumberLayout

/-- Numbers in JSON: positional from `0.00001` up to sixteen digits before the point, and always
recognisable as fractional. JSON has no other values, and `null` stands for them. -/
def json : NumberLayout where
  tie := .even
  positional e := -5 ≤ e && e < 16
  pointZero := true
  nan := "null"
  infinity _ := "null"

/-- Plain numbers: never an exponent, no fraction without need. -/
def plain : NumberLayout where
  tie := .up
  positional _ := true
  pointZero := false
  nan := "NaN"
  infinity negative := if negative then "-inf" else "inf"

/-- Plain numbers inside a statement, where the word for no number is in lower case. -/
def literal : NumberLayout := { plain with nan := "nan" }

/-- Digits with the point placed `point` digits after their start, zeros filled in on either
side. -/
def place (pointZero : Bool) (digits : List Char) (point : Int) : List Char :=
  match point with
  | .negSucc n => '0' :: '.' :: List.replicate (n + 1) '0' ++ digits
  | .ofNat 0 => '0' :: '.' :: digits
  | .ofNat n =>
    if digits.length ≤ n then
      digits ++ List.replicate (n - digits.length) '0' ++ (if pointZero then ['.', '0'] else [])
    else digits.take n ++ '.' :: digits.drop n

/-- Digits with a point after the first and an exponent that shows its sign. -/
def scientific (digits : List Char) (e : Int) : List Char :=
  let mantissa := match digits with
    | [] => []
    | [d] => [d]
    | d :: rest => d :: '.' :: rest
  mantissa ++ 'e' :: (if e < 0 then '-' else '+') :: Decimal.digitsOf e.natAbs

/-- The text of a magnitude. -/
def magnitude (layout : NumberLayout) (b : Binary) : List Char :=
  if b.significand = 0 then place layout.pointZero ['0'] 1
  else
    let d := Decimal.shortest layout.tie b
    let digits := Decimal.digitsOf d.digits
    let top := d.exponent + digits.length - 1
    if layout.positional top then place layout.pointZero digits (top + 1)
    else scientific digits top

/-- **The text of a double.** -/
def chars (layout : NumberLayout) (x : Float) : List Char :=
  match Binary64.ofFloat x with
  | .nan => layout.nan.toList
  | .infinite s => (layout.infinity s).toList
  | .finite s b => (if s then ['-'] else []) ++ layout.magnitude b

/-- The text of a double, as a string. -/
def text (layout : NumberLayout) (x : Float) : String := String.ofList (layout.chars x)

end NumberLayout

end LinkQuality
