/-!
# Reading decimals

A decimal text names a rational, and reading it takes the nearest double. The exponent in a text
may be anything, so values that are certainly too large or too small are settled before any
power of ten is computed.
-/

namespace LinkQuality.Decimal

/-- The number a run of digits denotes; other characters do not occur in one. -/
def natOfDigits (cs : List Char) : Nat :=
  cs.foldl (fun n c => n * 10 + (c.toNat - '0'.toNat)) 0

/-- Is `c` one of the ten digits? -/
def isDigit (c : Char) : Bool := '0' ≤ c && c ≤ '9'

/-- **The double nearest to `digits * 10 ^ exponent`**; infinity if the value is out of range. A
positive number with `n` digits lies between `10 ^ (n - 1)` and `10 ^ n`, and `10 ^ 310` is
beyond every double while `10 ^ -330` is nearer to zero than to any other. -/
def nearest (digits : Nat) (exponent : Int) : Float :=
  let size : Int := (Nat.toDigits 10 digits).length + exponent
  if digits = 0 then 0
  else if 311 < size then 1.0 / 0.0
  else if size < -330 then 0
  else match exponent with
    | .ofNat e => Float.ofScientific digits false e
    | .negSucc e => Float.ofScientific digits true (e + 1)

/-- An unsigned decimal literal, taken apart. -/
structure Literal where
  whole : List Char
  fraction : List Char
  exponent : Int

/-- The double a literal denotes. -/
def Literal.value (l : Literal) : Float :=
  nearest (natOfDigits (l.whole ++ l.fraction)) (l.exponent - l.fraction.length)

/-- Splits off a leading run of digits. -/
def spanDigits (cs : List Char) : List Char × List Char := cs.span isDigit

/-- An optional exponent at the front: the mark `e` or `E`, an optional sign, digits. Gives the
exponent and what follows; `none` if a mark is there without digits. -/
def readExponent : List Char → Option (Int × List Char)
  | c :: rest =>
    if c = 'e' ∨ c = 'E' then
      let (negative, body) := match rest with
        | '-' :: r => (true, r)
        | '+' :: r => (false, r)
        | r => (false, r)
      match spanDigits body with
      | ([], _) => none
      | (ds, after) =>
        let n : Int := natOfDigits ds
        some (if negative then -n else n, after)
    else some (0, c :: rest)
  | [] => some (0, [])

/-- A number in the liberal form: an optional sign, digits with an optional point anywhere among
them, an optional exponent, and nothing else. The words for infinity and for no number are
accepted in any case when `words` is set. -/
def readFloat (words : Bool) (cs : List Char) : Option Float :=
  let (negative, body) := match cs with
    | '-' :: r => (true, r)
    | '+' :: r => (false, r)
    | r => (false, r)
  let signed (x : Float) : Float := if negative then -x else x
  let word := String.ofList (body.map Char.toLower)
  if words && (word = "inf" || word = "infinity") then some (signed (1.0 / 0.0))
  else if words && word = "nan" then some (0.0 / 0.0)
  else
    let (whole, rest) := spanDigits body
    let (fraction, rest) := match rest with
      | '.' :: r => spanDigits r
      | r => ([], r)
    if whole.isEmpty && fraction.isEmpty then none
    else match readExponent rest with
      | some (e, []) => some (signed (Literal.value ⟨whole, fraction, e⟩))
      | _ => none

end LinkQuality.Decimal
