/-!
# Doubles as exact integers

A double is read off its bits as a sign and a natural number times a power of two, so that
everything which has to be exact about it – its shortest decimal text, a length of time in
whole nanoseconds – is a computation on natural numbers.
-/

namespace LinkQuality

/-- The magnitude of a finite double: `significand * 2 ^ exponent`. -/
structure Binary where
  significand : Nat
  exponent : Int
  deriving DecidableEq, Repr

/-- **What a double is.** Both zeros are finite with significand zero, and the sign is kept
beside the magnitude so that they stay two. -/
inductive Binary64 where
  | nan
  | infinite (negative : Bool)
  | finite (negative : Bool) (magnitude : Binary)
  deriving DecidableEq, Repr

namespace Binary64

/-- Width of the fraction field. -/
def fractionWidth : Nat := 52

/-- The fields of a 64-bit word: one sign bit, eleven exponent bits, fifty-two fraction bits.
A word with exponent field zero is subnormal and lacks the implicit leading bit. -/
def ofWord (word : Nat) : Binary64 :=
  let negative := decide (Nat.pow 2 63 ≤ word)
  let fraction : Nat := word % Nat.pow 2 fractionWidth
  let field : Nat := word / Nat.pow 2 fractionWidth % Nat.pow 2 11
  if field = 2047 then
    if fraction = 0 then .infinite negative else .nan
  else if field = 0 then
    .finite negative ⟨fraction, -1074⟩
  else
    .finite negative ⟨Nat.pow 2 fractionWidth + fraction, Int.ofNat field - 1075⟩

/-- The exact value of a double. -/
def ofFloat (x : Float) : Binary64 := ofWord x.toBits.toNat

/-- The sign bit; that of a NaN counts as clear. -/
def negative : Binary64 → Bool
  | .nan => false
  | .infinite s => s
  | .finite s _ => s

end Binary64

namespace Binary

/-- The magnitude as a quotient of naturals, the denominator a power of two. -/
def quotient (b : Binary) : Nat × Nat :=
  match b.exponent with
  | .ofNat e => (b.significand * Nat.pow 2 e, 1)
  | .negSucc e => (b.significand, Nat.pow 2 (e + 1))

/-- The natural number nearest to `num / den`; of two equally near ones, the even one. -/
def roundHalfEven (num den : Nat) : Nat :=
  let q := num / den
  let r := num % den
  if 2 * r < den then q
  else if den < 2 * r then q + 1
  else if q % 2 = 0 then q else q + 1

end Binary

end LinkQuality
