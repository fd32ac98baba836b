import LinkQuality.Proofs.Decimal.Arithmetic
import LinkQuality.Time.Span

/-!
# Spans against doubles

A span becomes a number of seconds by three roundings: its whole seconds are rounded, so are the
nanoseconds divided by their number in a second, and so is the sum of the two. The outcome can be
off by far more than a nanosecond, and still no double comes to lie between the span and the
outcome. A double that is below the span's is not longer than the span itself
(`Span.mul_le_of_lt_units`), and made a span again it is not longer either
(`Span.exists_ofFloat?_of_le`).

Up to fifty-three bits of seconds these are exact, and what a double has beyond them is a double of
its own, against which the nanoseconds are rounded in order. From there on doubles are two seconds
apart or more, and a fraction of a second is rounded away.
-/

namespace LinkQuality

namespace Binary

/-- The quotient of a magnitude is its units at the scale of the number one. -/
theorem Canonical.quotient_eq {b : Binary} (h : b.Canonical) :
    0 < b.quotient.2 ∧ b.quotient.1 * one = b.units * b.quotient.2 := by
  have hlow := h.le_exponent
  have hdepth := depth_eq
  rw [quotient, units, one]
  split
  next e he =>
    have hsum : (b.exponent + 1074).toNat = e + depth := by
      rw [he, Int.ofNat_eq_natCast]
      omega
    refine ⟨Nat.one_pos, ?_⟩
    change b.significand * 2 ^ e * 2 ^ depth = _ * 1
    rw [hsum, Nat.pow_add, Nat.mul_one, Nat.mul_assoc]
  next e he =>
    have hsum : depth = (b.exponent + 1074).toNat + (e + 1) := by omega
    refine ⟨Nat.two_pow_pos _, ?_⟩
    change b.significand * 2 ^ depth = _ * 2 ^ (e + 1)
    rw [hsum, Nat.pow_add, Nat.mul_assoc]

end Binary

open Binary (one limit rounded)
open Double (Worth Shape)

/-- A double that is not negative, read off its bits. The zero with a sign is one of them. -/
theorem Double.Worth.exists_finite {x : Float} {n : Nat} (h : Worth x n) (hn : n < limit) :
    ∃ s b, Binary64.ofFloat x = .finite s b ∧ b.Canonical ∧ b.units = n ∧
      (s = true → b.significand = 0) := by
  have hcanonical := Binary64.canonical_ofFloat x
  have hshape := h.shape
  rw [Binary64.ofFloat_eq_ofUnpacked] at hcanonical ⊢
  generalize x.toModel.unpack = a at hshape hcanonical
  cases hshape with
  | infinity => exact absurd hn (lt_irrefl _)
  | zero s => exact ⟨_, _, rfl, hcanonical, Nat.zero_mul _, fun _ => rfl⟩
  | finite hm hc => exact ⟨_, _, rfl, hc, rfl, fun hs => absurd hs (by decide)⟩

namespace Span

/-- The nanoseconds do not make up a second. -/
theorem nanos_le (s : Span) : s.nanos ≤ 999999999 :=
  Nat.le_of_lt_succ (Nat.mod_lt _ (by decide))

theorem nanoseconds_eq (s : Span) : s.nanoseconds = s.seconds * 1000000000 + s.nanos :=
  (Nat.div_add_mod' _ _).symm

/-! ## A span as a double -/

/-- **What the double of a span is worth.** -/
def units (s : Span) : Nat :=
  rounded (rounded (s.seconds * one) 1 + rounded (s.nanos * one * one) (1000000000 * one)) 1

theorem worth_toFloat (s : Span) : Worth s.toFloat s.units := by
  have hnanos := s.nanos_le
  have hlt {n : Nat} (hn : n ≤ 1000000000) : n < 2 ^ 53 := hn.trans_lt (by decide)
  have hfraction := Double.worth_div (Double.worth_ofNat_of_lt (hlt (hnanos.trans (by decide))))
    (Double.worth_ofNat_of_lt (hlt (le_refl _)))
    (Double.mul_one_lt_limit (hlt (hnanos.trans (by decide))))
    (Double.mul_one_lt_limit (hlt (le_refl _))) (Nat.mul_pos (by decide) Binary.one_pos)
  exact Double.worth_add (Double.worth_ofNat s.seconds) hfraction

/-- The number one has room for fifty-three bits below it. -/
theorem exists_one_eq : ∃ k, one = 2 ^ 53 * 2 ^ k :=
  ⟨1021, by rw [one, Binary.depth_eq, ← Nat.pow_add]⟩

/-- The nanoseconds are rounded to less than a second. -/
theorem fraction_lt (s : Span) : rounded (s.nanos * one * one) (1000000000 * one) < one := by
  obtain ⟨k, hk⟩ := exists_one_eq
  have hden : 0 < 1000000000 * one := Nat.mul_pos (by decide) Binary.one_pos
  have hlt : (2 ^ 53 - 1) * 2 ^ k < one := by
    rw [hk]
    exact Nat.mul_lt_mul_of_pos_right (by decide) (Nat.two_pow_pos k)
  have hle : s.nanos * one * one ≤ (2 ^ 53 - 1) * 2 ^ k * (1000000000 * one) := by
    have hnanos : s.nanos * 2 ^ 53 ≤ (2 ^ 53 - 1) * 1000000000 := by
      have := s.nanos_le
      omega
    calc s.nanos * one * one = s.nanos * 2 ^ 53 * (2 ^ k * one) := by rw [hk]; ring
      _ ≤ (2 ^ 53 - 1) * 1000000000 * (2 ^ k * one) := Nat.mul_le_mul_right _ hnanos
      _ = (2 ^ 53 - 1) * 2 ^ k * (1000000000 * one) := by ring
  refine (Binary.rounded_mono hden hle).trans_lt ?_
  rwa [Binary.rounded_of_lt hden (by decide) (hlt.le.trans Binary.one_lt_limit.le)]

/-- A span that has a length has one as a double. -/
theorem units_pos {s : Span} (h : 0 < s.nanoseconds) : 0 < s.units := by
  obtain ⟨k, hk⟩ := exists_one_eq
  have hone : 1000000000 ≤ one := by
    rw [hk]
    exact (by decide : 1000000000 ≤ 2 ^ 53).trans (Nat.le_mul_of_pos_right _ (Nat.two_pow_pos k))
  have hparts :
      0 < rounded (s.seconds * one) 1 ∨ 0 < rounded (s.nanos * one * one) (1000000000 * one) := by
    rcases Nat.eq_zero_or_pos s.seconds with h0 | hpos
    · have hnanos : 0 < s.nanos := by
        rw [nanoseconds_eq] at h
        omega
      refine .inr (Binary.rounded_pos (Nat.mul_pos (by decide) Binary.one_pos) ?_)
      exact Nat.mul_le_mul_right one (hone.trans (Nat.le_mul_of_pos_left one hnanos))
    · exact .inl (Binary.rounded_pos Nat.one_pos (Nat.mul_pos hpos Binary.one_pos))
  exact Binary.rounded_pos Nat.one_pos (by omega)

/-- Only no length at all is nothing as a double. -/
theorem units_eq_zero_iff {s : Span} : s.units = 0 ↔ s = .zero := by
  constructor
  · obtain ⟨n⟩ := s
    refine fun h => congrArg Span.mk (Nat.eq_zero_of_not_pos fun hpos => ?_)
    exact (units_pos (s := ⟨n⟩) hpos).ne' h
  · rintro rfl
    have hseconds : zero.seconds * one = 0 := Nat.zero_mul _
    have hnanos : zero.nanos * one * one = 0 := (Nat.mul_assoc _ _ _).trans (Nat.zero_mul _)
    rw [units, hseconds, hnanos, Double.rounded_zero Nat.one_pos,
      Double.rounded_zero (Nat.mul_pos (by decide) Binary.one_pos)]
    exact Double.rounded_zero Nat.one_pos

/-! ## What lies below a span -/

variable {s : Span} {a : Float.Model.UnpackedFloat} {n : Nat}

/-- **Up to fifty-three bits of seconds**, what a double has beyond them has no more bits than the
double. -/
theorem exists_rest (h : Shape a n) (hbits : s.seconds < 2 ^ 53) (hle : s.seconds * one ≤ n)
    (hlt : n < (s.seconds + 1) * one) :
    ∃ m k, m < 2 ^ 53 ∧ n - s.seconds * one = m * 2 ^ k := by
  have hnext : (s.seconds + 1) * one ≤ 2 ^ 53 * one := Nat.mul_le_mul_right _ hbits
  cases h with
  | infinity => exact absurd (hlt.trans_le hnext) (not_lt.mpr Binary.two_pow_mul_one_le)
  | zero => exact ⟨0, 0, by decide, by omega⟩
  | @finite m e hm hc =>
    rw [Binary.units] at hle hlt ⊢
    obtain ⟨k, hk⟩ : ∃ k, k = (e + 1074).toNat := ⟨_, rfl⟩
    have hplace : k ≤ Binary.depth := by
      by_contra hdeep
      have hfull : 2 ^ 52 ≤ m := hc.full.resolve_left (by
        rintro (rfl : e = -1074)
        omega)
      have hhigh : 2 ^ 53 * one ≤ m * 2 ^ k :=
        calc 2 ^ 53 * one = 2 ^ 52 * 2 ^ (Binary.depth + 1) := by rw [one]; ring
          _ ≤ m * 2 ^ k := Nat.mul_le_mul hfull (Nat.pow_le_pow_right (by decide) (by omega))
      rw [← hk] at hlt
      exact absurd (hlt.trans_le (hnext.trans hhigh)) (lt_irrefl _)
    obtain ⟨j, hj⟩ := Nat.exists_eq_add_of_le hplace
    have hsplit : s.seconds * one = s.seconds * 2 ^ j * 2 ^ k := by
      rw [one, hj]
      ring
    refine ⟨m - s.seconds * 2 ^ j, k, (Nat.sub_le _ _).trans_lt hc.significand_lt, ?_⟩
    rw [← hk, hsplit, Nat.sub_mul]

/-- **From fifty-four bits of seconds on** a double is even in seconds, and a part of a second makes
no difference to it. -/
theorem rounded_add_le_of_shape (h : Shape a n) (hbits : 2 ^ 53 * one ≤ n) {f : Nat}
    (hf : f < one) : rounded (n + f) 1 ≤ n := by
  have hone := Binary.one_pos
  cases h with
  | infinity => exact Binary.rounded_le_limit _ _
  | zero => omega
  | @finite m e hm hc =>
    rw [Binary.units] at hbits ⊢
    obtain ⟨k, hk⟩ : ∃ k, k = (e + 1074).toNat := ⟨_, rfl⟩
    rw [← hk] at hbits ⊢
    have hplace : Binary.depth < k := by
      have hlt : 2 ^ 53 * one < 2 ^ 53 * 2 ^ k :=
        hbits.trans_lt (Nat.mul_lt_mul_of_pos_right hc.significand_lt (Nat.two_pow_pos k))
      exact (Nat.pow_lt_pow_iff_right (by decide)).mp (Nat.lt_of_mul_lt_mul_left hlt)
    have hfull : 2 ^ 52 ≤ m := hc.full.resolve_left (by
      rintro (rfl : e = -1074)
      omega)
    have hhalf : 2 * f < 2 ^ k :=
      calc 2 * f < 2 * one := by omega
        _ = 2 ^ (Binary.depth + 1) := by rw [one]; ring
        _ ≤ 2 ^ k := Nat.pow_le_pow_right (by decide) hplace
    exact Binary.rounded_add_le hfull hc.significand_lt (.inl hhalf)

/-- **A double below that of a span is not longer than the span.** -/
theorem mul_le_of_lt_units (h : Shape a n) (hlt : n < s.units) :
    n * 1000000000 ≤ s.nanoseconds * one := by
  by_contra hlong
  refine absurd hlt (not_lt.mpr ?_)
  have hparts : s.nanoseconds * one = s.seconds * one * 1000000000 + s.nanos * one := by
    rw [nanoseconds_eq]
    ring
  have hseconds : s.seconds * one ≤ n := by omega
  have hfraction := s.fraction_lt
  rw [units]
  rcases Nat.lt_or_ge s.seconds (2 ^ 53) with hbits | hbits
  · -- the seconds are exact, so only the nanoseconds have been rounded
    rw [Double.rounded_mul_one hbits]
    have hfit : s.seconds * one + rounded (s.nanos * one * one) (1000000000 * one) ≤ n := by
      rcases Nat.lt_or_ge n ((s.seconds + 1) * one) with hnext | hnext
      · obtain ⟨m, k, hm, hrest⟩ := exists_rest h hbits hseconds hnext
        have hden : 0 < 1000000000 * one := Nat.mul_pos (by decide) Binary.one_pos
        have hle : s.nanos * one * one ≤ m * 2 ^ k * (1000000000 * one) := by
          rw [← Nat.mul_assoc, ← hrest]
          exact Nat.mul_le_mul_right one (by omega)
        have hlimit : m * 2 ^ k ≤ limit := by
          rw [← hrest]
          exact (Nat.sub_le _ _).trans h.le_limit
        have hround := Binary.rounded_mono hden hle
        rw [Binary.rounded_of_lt hden hm hlimit, ← hrest] at hround
        omega
      · rw [Nat.succ_mul] at hnext
        omega
    exact (Binary.rounded_mono Nat.one_pos hfit).trans_eq h.rounded_self
  · -- what is rounded to the double or below it stays there with a part of a second more
    have hround : rounded (s.seconds * one) 1 ≤ n :=
      (Binary.rounded_mono Nat.one_pos hseconds).trans_eq h.rounded_self
    exact (Binary.rounded_mono Nat.one_pos (Nat.add_le_add_right hround _)).trans
      (rounded_add_le_of_shape h ((Nat.mul_le_mul_right _ hbits).trans hseconds) hfraction)

/-! ## A double as a span -/

variable {x : Float}

/-- Seconds that fit into 64 bits are far below the limit. -/
theorem two_pow_mul_one_le : 2 ^ 64 * one ≤ limit :=
  calc 2 ^ 64 * one = 2 ^ 53 * 2 ^ (11 + Binary.depth) := by rw [one]; ring
    _ ≤ limit := by
      refine Nat.mul_le_mul_left _ (Nat.pow_le_pow_right (by decide) ?_)
      rw [Binary.depth_eq, Binary.reach_eq]
      decide

/-- **The span of a double**: its units, counted in nanoseconds and rounded. -/
theorem ofFloat?_of_worth (h : Worth x n) (hn : n < 2 ^ 64 * one) :
    ofFloat? x = some ⟨Binary.roundHalfEven (n * 1000000000) one⟩ := by
  obtain ⟨sign, b, hx, hc, rfl, hsign⟩ := h.exists_finite (hn.trans_le two_pow_mul_one_le)
  obtain ⟨hden, hquotient⟩ := hc.quotient_eq
  have hfits : b.quotient.1 < 2 ^ 64 * b.quotient.2 := by
    have hscaled : b.quotient.1 * one < 2 ^ 64 * b.quotient.2 * one :=
      calc b.quotient.1 * one = b.units * b.quotient.2 := hquotient
        _ < 2 ^ 64 * one * b.quotient.2 := Nat.mul_lt_mul_of_pos_right hn hden
        _ = 2 ^ 64 * b.quotient.2 * one := Nat.mul_right_comm _ _ _
    exact Nat.lt_of_mul_lt_mul_right hscaled
  have hround : Binary.roundHalfEven (b.quotient.1 * 1000000000) b.quotient.2 =
      Binary.roundHalfEven (b.units * 1000000000) one := by
    rw [← Binary.roundHalfEven_scale Binary.one_pos, Nat.mul_right_comm, hquotient,
      Nat.mul_comm b.quotient.2 one, Nat.mul_right_comm, Binary.roundHalfEven_scale hden]
  rw [ofFloat?, hx]
  change (if sign = true ∧ b.significand ≠ 0 then none
    else if b.quotient.1 < 2 ^ 64 * b.quotient.2 then
      some (Span.mk (Binary.roundHalfEven (b.quotient.1 * 1000000000) b.quotient.2)) else none) = _
  rw [if_neg fun hneg => hneg.2 (hsign hneg.1), if_pos hfits, hround]

/-- **A double no longer than a span is made a span no longer than it.** Whole seconds that fit into
64 bits do so for whatever is shorter. -/
theorem exists_ofFloat?_of_le (h : Worth x n) (hle : n * 1000000000 ≤ s.nanoseconds * one)
    (hs : s.seconds < 2 ^ 64) : ∃ t, ofFloat? x = some t ∧ t ≤ s := by
  have hfits : n < 2 ^ 64 * one := by
    have hshort : s.nanoseconds < 2 ^ 64 * 1000000000 := by
      have := s.nanos_le
      rw [nanoseconds_eq]
      omega
    have hscaled : n * 1000000000 < 2 ^ 64 * one * 1000000000 :=
      calc n * 1000000000 ≤ s.nanoseconds * one := hle
        _ < 2 ^ 64 * 1000000000 * one := Nat.mul_lt_mul_of_pos_right hshort Binary.one_pos
        _ = 2 ^ 64 * one * 1000000000 := Nat.mul_right_comm _ _ _
    exact Nat.lt_of_mul_lt_mul_right hscaled
  refine ⟨_, ofFloat?_of_worth h hfits, ?_⟩
  exact (Binary.roundHalfEven_mono one hle).trans_eq
    (Binary.roundHalfEven_mul_right Binary.one_pos s.nanoseconds)

end Span

end LinkQuality
