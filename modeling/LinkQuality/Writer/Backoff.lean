import LinkQuality.Settings.Basic

/-!
# Waiting between attempts

A batch that could not be written is tried again, up to a number of attempts, with waits that
grow by a constant factor up to a longest wait. The factor may be any double, so the product may
be infinite or no number at all; the longest wait stands in for those.
-/

namespace LinkQuality

/-- **When a failed batch is tried again.** -/
structure Backoff where
  /-- Attempts per batch, the first included. -/
  maxAttempts : Nat
  base : Span
  factor : Float
  longest : Span

namespace Backoff

/-- The schedule that settings ask for. There is always a first attempt. -/
def ofSettings (s : WriterSettings) : Backoff :=
  ⟨max s.maxAttempts 1, s.retryBaseDelay, s.retryMultiplier, s.maxRetryDelay⟩

/-- The schedule of the standard settings. -/
def standard : Backoff := ofSettings {}

/-- Multiplies `result` by `x` to the number with the given low `bits`, by repeated squaring from
the lowest bit up. Every product is rounded, so the order matters. -/
def powerBits : Nat → Float → Float → Nat → Float
  | 0, result, _, _ => result
  | bits + 1, result, x, n =>
    powerBits bits (if n % 2 = 1 then result * x else result) (x * x) (n / 2)

/-- A power with a whole exponent. -/
def power (x : Float) (n : Nat) : Float := powerBits (n.log2 + 1) 1 x n

/-- The largest exponent a wait is computed with. -/
def largestExponent : Nat := 2147483647

/-- The unbounded wait after a failed attempt, in seconds. -/
def seconds (b : Backoff) (attempt : Nat) : Float :=
  b.base.toFloat * power b.factor (min (attempt - 1) largestExponent)

/-- The seconds that are made a span, what is below zero counting as zero. There are none where the
product is no finite number, or is not below the longest wait. -/
def bounded? (b : Backoff) (attempt : Nat) : Option Float :=
  let s := b.seconds attempt
  if !s.isFinite || b.longest.toFloat ≤ s then none else some (if s < 0 then 0 else s)

/-- **The wait after failed attempt number `attempt`**, the first attempt being number one. -/
def delayAfter (b : Backoff) (attempt : Nat) : Span :=
  match b.bounded? attempt with
  | none => b.longest
  | some s => (Span.ofFloat? s).getD b.longest

/-- Is there another attempt after failed attempt number `attempt`? -/
def retries (b : Backoff) (attempt : Nat) : Bool := attempt < b.maxAttempts

end Backoff

end LinkQuality
