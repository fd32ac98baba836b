import LinkQuality.Proofs.Decimal.Units

/-!
# Rounding to the nearest double

What a sum, a product or a quotient of doubles comes to is an exact quotient first, and rounded
once. In units the rounding is easily said: bits beyond fifty-three are rounded away, half to even,
and what reaches the limit is infinite (`Binary.rounded`). It keeps the order, it does not depend on
how the quotient is written, and a double is rounded to itself.

It is not computed that way. A mantissa with two bits for what it lacks is shifted to its place, its
whole part is rounded, it is shifted once more where that has carried into another bit, and then
it is packed. The two bits say enough about the quotient all along (`Represents`), so what is
rounded is the quotient at its place (`Placed.holds`), and packing loses nothing of it but what is
too high for a double (`Holds.pack`). So the double that is computed is the nearest
(`Double.worth_roundWithAccuracy`).
-/

namespace LinkQuality

namespace Binary

/-! ## Rounding to whole numbers -/

variable {num den other scale : Nat}

theorem le_roundHalfEven (num den : Nat) : num / den ≤ roundHalfEven num den := by
  simp only [roundHalfEven]
  split
  · exact le_refl _
  · split
    · exact Nat.le_succ _
    · split
      · exact le_refl _
      · exact Nat.le_succ _

theorem roundHalfEven_le (num den : Nat) : roundHalfEven num den ≤ num / den + 1 := by
  simp only [roundHalfEven]
  split
  · exact Nat.le_succ _
  · split
    · exact le_refl _
    · split
      · exact Nat.le_succ _
      · exact le_refl _

/-- **Rounding keeps the order.** Within one whole number it depends on the remainder. -/
theorem roundHalfEven_mono (den : Nat) (h : num ≤ other) :
    roundHalfEven num den ≤ roundHalfEven other den := by
  rcases (Nat.div_le_div_right h : num / den ≤ other / den).lt_or_eq with hlt | heq
  · exact (roundHalfEven_le num den).trans (hlt.trans_le (le_roundHalfEven other den))
  · have hr : num % den ≤ other % den := by
      have hn := Nat.div_add_mod num den
      have ho := Nat.div_add_mod other den
      rw [heq] at hn
      omega
    simp only [roundHalfEven, heq]
    split_ifs <;> omega

/-- A whole number is rounded to itself. -/
theorem roundHalfEven_mul_right (hden : 0 < den) (n : Nat) : roundHalfEven (n * den) den = n := by
  simp [roundHalfEven, hden]

/-- Rounding does not see how the quotient is written. -/
theorem roundHalfEven_scale (hscale : 0 < scale) :
    roundHalfEven (num * scale) (den * scale) = roundHalfEven num den := by
  have hlt {a b : Nat} : 2 * (a * scale) < b * scale ↔ 2 * a < b := by
    rw [← Nat.mul_assoc]
    exact Nat.mul_lt_mul_right hscale
  have hgt {a b : Nat} : b * scale < 2 * (a * scale) ↔ b < 2 * a := by
    rw [← Nat.mul_assoc]
    exact Nat.mul_lt_mul_right hscale
  simp only [roundHalfEven, Nat.mul_div_mul_right _ _ hscale, Nat.mul_mod_mul_right, hlt, hgt]

/-! ## Rounding to fifty-three bits -/

/-- Bits that a quotient has beyond fifty-three. -/
def excess (num den : Nat) : Nat := (num / den).log2 - 52

/-- **The magnitude nearest to a quotient**, in units. What is beyond fifty-three bits is rounded
away; a quotient that has no more bits is rounded to a whole unit. -/
def nearest (num den : Nat) : Nat :=
  roundHalfEven num (den * 2 ^ excess num den) * 2 ^ excess num den

/-- The bits beyond fifty-three are known by the size of the quotient. -/
theorem excess_eq {k : Nat} (hden : 0 < den) (hlt : num < den * 2 ^ (53 + k))
    (hle : k = 0 ∨ den * 2 ^ (52 + k) ≤ num) : excess num den = k := by
  have hq : num / den < 2 ^ (53 + k) := by
    rwa [Nat.div_lt_iff_lt_mul hden, Nat.mul_comm]
  rcases hle with rfl | hle
  · have : (num / den).log2 < 53 + 0 ∨ num / den = 0 := by
      by_cases h0 : num / den = 0
      · exact .inr h0
      · exact .inl ((Nat.log2_lt h0).2 hq)
    rcases this with h | h
    · rw [excess]
      omega
    · rw [excess, h]
      rfl
  · have hq' : 2 ^ (52 + k) ≤ num / den := by
      rwa [Nat.le_div_iff_mul_le hden, Nat.mul_comm]
    have h0 : num / den ≠ 0 := (Nat.lt_of_lt_of_le (Nat.two_pow_pos _) hq').ne'
    have h1 := (Nat.log2_lt h0).2 hq
    have h2 := (Nat.le_log2 h0).2 hq'
    rw [excess]
    omega

/-- A quotient stays below fifty-three bits and its excess, -/
theorem lt_two_pow_excess (hden : 0 < den) (num : Nat) :
    num < den * 2 ^ (53 + excess num den) := by
  have hq : num / den < 2 ^ (53 + excess num den) :=
    Nat.lt_of_lt_of_le Nat.lt_log2_self
      (Nat.pow_le_pow_right (by decide) (by rw [excess]; omega))
  rwa [Nat.div_lt_iff_lt_mul hden, Nat.mul_comm] at hq

/-- and it has all these bits if there is an excess. -/
theorem two_pow_excess_le (hden : 0 < den) (num : Nat) :
    excess num den = 0 ∨ den * 2 ^ (52 + excess num den) ≤ num := by
  rcases Nat.eq_zero_or_pos (excess num den) with h | h
  · exact .inl h
  · have hq : num / den ≠ 0 := by
      intro h0
      rw [excess, h0] at h
      exact absurd h (by decide)
    have hle : 2 ^ (52 + excess num den) ≤ num / den :=
      (Nat.le_log2 hq).1 (by rw [excess] at h ⊢; omega)
    rw [Nat.le_div_iff_mul_le hden, Nat.mul_comm] at hle
    exact .inr hle

/-- The excess grows with the quotient. -/
theorem excess_mono (den : Nat) (h : num ≤ other) : excess num den ≤ excess other den := by
  by_cases h0 : num / den = 0
  · rw [excess, h0]
    exact Nat.zero_le _
  · have hq : num / den ≤ other / den := Nat.div_le_div_right h
    have hlog : (num / den).log2 ≤ (other / den).log2 :=
      (Nat.le_log2 ((Nat.pos_of_ne_zero h0).trans_le hq).ne').2 ((Nat.log2_self_le h0).trans hq)
    exact Nat.sub_le_sub_right hlog 52

/-- **Rounding keeps the order**, also where the number of bits rounded away changes: the lesser
quotient is rounded to at most the power of two that the greater one has reached. -/
theorem nearest_mono (hden : 0 < den) (h : num ≤ other) : nearest num den ≤ nearest other den := by
  have hexc := excess_mono den h
  rcases hexc.eq_or_lt with heq | hlt
  · rw [nearest, nearest, heq]
    exact Nat.mul_le_mul_right _ (roundHalfEven_mono _ h)
  · have hlow : roundHalfEven num (den * 2 ^ excess num den) ≤ 2 ^ 53 := by
      refine (roundHalfEven_le _ _).trans (Nat.succ_le_of_lt ?_)
      rw [Nat.div_lt_iff_lt_mul (Nat.mul_pos hden (Nat.two_pow_pos _))]
      calc num < den * 2 ^ (53 + excess num den) := lt_two_pow_excess hden num
        _ = 2 ^ 53 * (den * 2 ^ excess num den) := by ring
    have hhigh : 2 ^ 52 ≤ roundHalfEven other (den * 2 ^ excess other den) := by
      refine Nat.le_trans ?_ (le_roundHalfEven _ _)
      rw [Nat.le_div_iff_mul_le (Nat.mul_pos hden (Nat.two_pow_pos _))]
      calc 2 ^ 52 * (den * 2 ^ excess other den) = den * 2 ^ (52 + excess other den) := by ring
        _ ≤ other := (two_pow_excess_le hden other).resolve_left (by omega)
    calc nearest num den ≤ 2 ^ 53 * 2 ^ excess num den := Nat.mul_le_mul_right _ hlow
      _ = 2 ^ 52 * 2 ^ (excess num den + 1) := by ring
      _ ≤ 2 ^ 52 * 2 ^ excess other den :=
        Nat.mul_le_mul_left _ (Nat.pow_le_pow_right (by decide) hlt)
      _ ≤ nearest other den := Nat.mul_le_mul_right _ hhigh

/-- Rounding does not see how the quotient is written. -/
theorem nearest_scale (hscale : 0 < scale) :
    nearest (num * scale) (den * scale) = nearest num den := by
  have hexc : excess (num * scale) (den * scale) = excess num den := by
    rw [excess, Nat.mul_div_mul_right _ _ hscale, excess]
  rw [nearest, hexc, Nat.mul_right_comm, roundHalfEven_scale hscale, nearest]

/-- Equal quotients are rounded alike. -/
theorem nearest_congr {num' den' : Nat} (hden : 0 < den) (hden' : 0 < den')
    (h : num * den' = num' * den) : nearest num den = nearest num' den' := by
  rw [← nearest_scale hden', h, Nat.mul_comm den den', nearest_scale hden]

/-- **What fits into fifty-three bits is rounded to itself.** -/
theorem nearest_of_lt {m : Nat} (hden : 0 < den) (hm : m < 2 ^ 53) (k : Nat) :
    nearest (m * 2 ^ k * den) den = m * 2 ^ k := by
  have hexc : excess (m * 2 ^ k * den) den ≤ k := by
    have hlt : m * 2 ^ k < 2 ^ (53 + k) := by
      rw [Nat.pow_add]
      exact Nat.mul_lt_mul_of_pos_right hm (Nat.two_pow_pos _)
    rw [excess, Nat.mul_div_cancel _ hden]
    by_cases h0 : m * 2 ^ k = 0
    · rw [h0]
      exact Nat.zero_le _
    · have := (Nat.log2_lt h0).2 hlt
      omega
  obtain ⟨j, hj⟩ := Nat.exists_eq_add_of_le hexc
  rw [nearest]
  generalize excess (m * 2 ^ k * den) den = e at hj ⊢
  have hsplit : m * 2 ^ k * den = m * 2 ^ j * (den * 2 ^ e) := by
    rw [hj]
    ring
  rw [hsplit, roundHalfEven_mul_right (Nat.mul_pos hden (Nat.two_pow_pos _)), hj]
  ring

/-- **What the double nearest to a quotient is worth.** A quotient that is rounded to the limit or
beyond has no finite double. -/
def rounded (num den : Nat) : Nat := min (nearest num den) limit

theorem rounded_le_limit (num den : Nat) : rounded num den ≤ limit := Nat.min_le_right _ _

/-- The nearest doubles are in the order of the quotients. -/
theorem rounded_mono (hden : 0 < den) (h : num ≤ other) : rounded num den ≤ rounded other den :=
  min_le_min_right _ (nearest_mono hden h)

/-- A double is the nearest one to itself. -/
theorem rounded_of_lt {m k : Nat} (hden : 0 < den) (hm : m < 2 ^ 53) (hle : m * 2 ^ k ≤ limit) :
    rounded (m * 2 ^ k * den) den = m * 2 ^ k := by
  rw [rounded, nearest_of_lt hden hm, Nat.min_eq_left hle]

/-- What is no less than one unit is not rounded to nothing. -/
theorem rounded_pos {num den : Nat} (hden : 0 < den) (h : den ≤ num) : 0 < rounded num den := by
  have hone : rounded (1 * 2 ^ 0 * den) den = 1 * 2 ^ 0 :=
    rounded_of_lt hden (by decide) (Nat.succ_le_of_lt limit_pos)
  calc 0 < rounded (1 * 2 ^ 0 * den) den := by rw [hone]; decide
    _ ≤ rounded num den := rounded_mono hden (by omega)

/-- **What is less than half of the last bit is rounded away**, and so is half of it if the last bit
is not set. -/
theorem rounded_add_le {m k f : Nat} (hfull : 2 ^ 52 ≤ m) (hm : m < 2 ^ 53)
    (hf : 2 * f < 2 ^ k ∨ 2 * f = 2 ^ k ∧ m % 2 = 0) :
    rounded (m * 2 ^ k + f) 1 ≤ m * 2 ^ k := by
  have hpow := Nat.two_pow_pos k
  have hlt : f < 2 ^ k := by omega
  have hexc : excess (m * 2 ^ k + f) 1 = k := by
    refine excess_eq Nat.one_pos ?_ (.inr ?_)
    · calc m * 2 ^ k + f < (m + 1) * 2 ^ k := by
            rw [Nat.succ_mul]
            exact Nat.add_lt_add_left hlt _
        _ ≤ 2 ^ 53 * 2 ^ k := Nat.mul_le_mul_right _ hm
        _ = 1 * 2 ^ (53 + k) := by ring
    · calc 1 * 2 ^ (52 + k) = 2 ^ 52 * 2 ^ k := by ring
        _ ≤ m * 2 ^ k := Nat.mul_le_mul_right _ hfull
        _ ≤ m * 2 ^ k + f := Nat.le_add_right _ _
  have hdown : roundHalfEven (m * 2 ^ k + f) (2 ^ k) = m := by
    have hmod : (m * 2 ^ k + f) % 2 ^ k = f := by
      rw [Nat.mul_add_mod_self_right, Nat.mod_eq_of_lt hlt]
    have hdiv : (m * 2 ^ k + f) / 2 ^ k = m := by
      rw [Nat.add_comm, Nat.add_mul_div_right _ _ hpow, Nat.div_eq_of_lt hlt, Nat.zero_add]
    simp only [roundHalfEven, hmod, hdiv]
    split_ifs <;> omega
  refine (Nat.min_le_left _ _).trans_eq ?_
  rw [nearest, hexc, Nat.one_mul, hdown]

end Binary

/-! ## Rounding as it is computed -/

namespace Binary64

open Float.Model (UnpackedFloat)
open Float.Model.UnpackedFloat (ExtendedMantissa Accuracy)

/-- **A mantissa with two bits for what it lacks**: the whole part of a quotient, the bit after it,
and whether anything follows. -/
structure Represents (em : ExtendedMantissa) (num den : Nat) : Prop where
  pos : 0 < den
  halves : 2 * em.mantissa + em.roundBit.toNat = 2 * num / den
  sticky : em.stickyBit = decide (2 * num % den ≠ 0)

variable {em : ExtendedMantissa} {num den : Nat}

/-- To represent a quotient is to have its double divided with remainder. -/
theorem represents_of_eq (rest : Nat)
    (h : 2 * num = den * (2 * em.mantissa + em.roundBit.toNat) + rest) (hlt : rest < den)
    (hs : em.stickyBit = decide (rest ≠ 0)) : Represents em num den := by
  obtain ⟨hdiv, hmod⟩ :=
    (Nat.div_mod_unique (Nat.zero_lt_of_lt hlt)).2 ⟨(h.trans (Nat.add_comm _ _)).symm, hlt⟩
  exact ⟨Nat.zero_lt_of_lt hlt, hdiv.symm, by rw [hmod, hs]⟩

/-- The remainder of the division, in terms of the mantissa and its two bits. -/
theorem Represents.two_mul_mod (h : Represents em num den) :
    em.mantissa = num / den ∧ 2 * (num % den) = den * em.roundBit.toNat + 2 * num % den := by
  have hbit : em.roundBit.toNat ≤ 1 := Bool.toNat_le _
  have hdiv : 2 * num / den / 2 = num / den := by
    rw [Nat.div_div_eq_div_mul, Nat.mul_comm den 2, Nat.mul_div_mul_left _ _ (by decide)]
  have hm : em.mantissa = num / den := by
    have := h.halves
    omega
  refine ⟨hm, ?_⟩
  have hdouble := Nat.div_add_mod (2 * num) den
  have hsingle := Nat.div_add_mod num den
  rw [← h.halves, Nat.mul_add, hm, Nat.mul_left_comm] at hdouble
  omega

/-- A whole number lacks nothing. -/
theorem represents_exact (m : Nat) :
    Represents (.ofMantissaAndAccuracy m .exact) m 1 :=
  represents_of_eq 0 (by simp [ExtendedMantissa.ofMantissaAndAccuracy]) Nat.one_pos rfl

/-- A quotient with remainder. -/
theorem represents_fraction (num : Nat) (hden : 0 < den) :
    Represents (.ofMantissaAndAccuracy (num / den)
      (UnpackedFloat.accuracyOfFraction (num % den) den)) num den := by
  have hmod := Nat.mod_lt num hden
  have hdouble : 2 * num = den * (2 * (num / den)) + 2 * (num % den) := by
    rw [Nat.mul_left_comm, ← Nat.mul_add, Nat.div_add_mod]
  rw [UnpackedFloat.accuracyOfFraction]
  by_cases h0 : num % den = 0
  · rw [if_pos h0]
    exact represents_of_eq 0 (by rw [hdouble, h0]; rfl) hden rfl
  · rw [if_neg h0]
    rcases lt_trichotomy (2 * (num % den)) den with h | h | h
    · rw [compare_lt_iff_lt.2 h]
      exact represents_of_eq _ hdouble h (decide_eq_true (by omega)).symm
    · rw [compare_eq_iff_eq.2 h]
      exact represents_of_eq 0 (by
        rw [hdouble, h]
        rfl) hden rfl
    · rw [compare_gt_iff_gt.2 h]
      refine represents_of_eq (2 * (num % den) - den) ?_ (by omega)
        (decide_eq_true (by omega)).symm
      change 2 * num = den * (2 * (num / den) + 1) + _
      rw [hdouble, Nat.mul_add]
      omega

/-- **Halving the quotient** is shifting the mantissa by one. -/
theorem Represents.shiftRightOne (h : Represents em num den) :
    Represents em.shiftRightOne num (den * 2) := by
  obtain ⟨hm, hrest⟩ := h.two_mul_mod
  have hodd : (em.mantissa % 2 != 0).toNat = em.mantissa % 2 := by
    rcases Nat.mod_two_eq_zero_or_one em.mantissa with h0 | h0 <;> simp [h0]
  refine ⟨Nat.mul_pos h.pos Nat.two_pos, ?_, ?_⟩
  · change 2 * (em.mantissa / 2) + (em.mantissa % 2 != 0).toNat = 2 * num / (den * 2)
    rw [hodd, Nat.div_add_mod, Nat.mul_comm den, Nat.mul_div_mul_left _ _ (by decide), hm]
  · change (em.roundBit || em.stickyBit) = decide (2 * num % (den * 2) ≠ 0)
    rw [Nat.mul_comm den, Nat.mul_mod_mul_left, hrest, h.sticky]
    cases em.roundBit with
    | false => simp
    | true => simp [h.pos.ne']

/-- Shifting the mantissa by more. -/
theorem Represents.shiftRight (h : Represents em num den) (n : Nat) :
    Represents (em >>> n) num (den * 2 ^ n) := by
  induction n with
  | zero => exact (Nat.mul_one den).symm ▸ h
  | succ n ih =>
    rw [Nat.pow_succ, ← Nat.mul_assoc]
    exact ih.shiftRightOne

/-- **The two bits are all that rounding needs.** -/
theorem Represents.roundedMantissa_eq (h : Represents em num den) :
    em.roundedMantissa = Binary.roundHalfEven num den := by
  obtain ⟨hm, hrest⟩ := h.two_mul_mod
  have hden := h.pos
  have hlt := Nat.mod_lt (2 * num) hden
  have hs := h.sticky
  obtain ⟨m, b, s⟩ := em
  simp only at hm hs hrest
  subst hm
  simp only [Binary.roundHalfEven]
  by_cases hrem : 2 * num % den = 0
  · have hexact : s = false := by simp [hs, hrem]
    subst hexact
    cases b with
    | false =>
      have h0 : 2 * (num % den) < den := by simpa [hrest, hrem] using hden
      rw [if_pos h0]
      rfl
    | true =>
      have h1 : 2 * (num % den) = den := by simp [hrest, hrem]
      rw [if_neg (by omega), if_neg (by omega)]
      change num / den + num / den % 2 = _
      split <;> omega
  · have hinexact : s = true := by simp [hs, hrem]
    subst hinexact
    cases b with
    | false =>
      have h0 : 2 * (num % den) < den := by simpa [hrest] using hlt
      rw [if_pos h0]
      rfl
    | true =>
      have h1 : den < 2 * (num % den) := by
        rw [hrest]
        simpa using Nat.pos_of_ne_zero hrem
      rw [if_neg (by omega), if_pos h1]
      rfl

/-! ### Placing the leading bit -/

open Float.Model (Format totalExponent)

theorem targetExponent_eq (e : Int) : Format.binary64.targetExponent e = max (e - 53) (-1074) := rfl

/-- **Where a mantissa is rounded**: `shift` bits are taken off it, so that it has no more than
fifty-three and, unless the lowest exponent is reached, no fewer. -/
structure Placed (m : Nat) (e : Int) (shift field : Nat) : Prop where
  target_eq : Format.binary64.targetExponent (totalExponent m e) = e + shift
  lowest : e + shift = field - 1074
  lt_pow : m < 2 ^ (53 + shift)
  pow_le : field = 0 ∨ 2 ^ (52 + shift) ≤ m

/-- A mantissa with bits enough has a place. -/
theorem exists_placed {m : Nat} {e : Int}
    (h : e ≤ Format.binary64.targetExponent (totalExponent m e)) :
    ∃ shift field, Placed m e shift field := by
  have htarget := targetExponent_eq (totalExponent m e)
  rw [totalExponent] at htarget
  rw [totalExponent] at h
  obtain ⟨shift, hshift⟩ := Int.eq_ofNat_of_zero_le (Int.sub_nonneg.2 h)
  have hlow : -1074 ≤ Format.binary64.targetExponent (m.log2 + 1 + e) := by omega
  obtain ⟨field, hfield⟩ := Int.eq_ofNat_of_zero_le (Int.sub_nonneg.2 hlow)
  refine ⟨shift, field, ⟨by rw [totalExponent]; omega, by omega, ?_, ?_⟩⟩
  · exact Nat.lt_of_lt_of_le Nat.lt_log2_self (Nat.pow_le_pow_right (by decide) (by omega))
  · rcases Nat.eq_zero_or_pos field with h0 | hpos
    · exact .inl h0
    · have hm : m ≠ 0 := by
        rintro rfl
        have : (0 : Nat).log2 = 0 := rfl
        omega
      exact .inr ((Nat.le_log2 hm).1 (by omega))

/-- **A sign and a magnitude**, the exponent of which may still be too high for a double. -/
inductive Holds (s : UnpackedFloat.Sign) : UnpackedFloat → Nat → Prop
  | zero : Holds s (.zero s) 0
  | finite {m : Nat} {e : Int} (hm : 0 < m) (hlt : m < 2 ^ 53) (hle : -1074 ≤ e)
      (hfull : e = -1074 ∨ 2 ^ 52 ≤ m) : Holds s (.finite s m e hm) (Binary.units ⟨m, e⟩)

/-- After rounding there is nothing left to shift, if there is room for the mantissa. -/
theorem shiftToTargetExponent_of_lt {r : Nat} {e : Int} (hr : r < 2 ^ 53) (he : -1074 ≤ e) :
    UnpackedFloat.shiftToTargetExponent .binary64 r e .exact = (⟨r, false, false⟩, e) := by
  have hlog : r.log2 < 53 := by
    by_cases h0 : r = 0
    · rw [h0]
      decide
    · exact (Nat.log2_lt h0).2 hr
  have hshift : (max ((r.log2 : Int) + 1 + e - 53) (-1074) - e).toNat = 0 := by omega
  simp only [UnpackedFloat.shiftToTargetExponent, UnpackedFloat.shiftToExponent, targetExponent_eq,
    totalExponent, hshift]
  exact Prod.ext rfl (Int.add_zero e)

/-- Where rounding has carried into a fifty-fourth bit, it is shifted by that. -/
theorem shiftToTargetExponent_carry {e : Int} (he : -1074 ≤ e) :
    UnpackedFloat.shiftToTargetExponent .binary64 (2 ^ 53) e .exact =
      (⟨2 ^ 52, false, false⟩, e + 1) := by
  have hlog : (2 ^ 53 : Nat).log2 = 53 := Nat.log2_two_pow
  have hshift : (max (((2 ^ 53 : Nat).log2 : Int) + 1 + e - 53) (-1074) - e).toNat = 1 := by omega
  simp only [UnpackedFloat.shiftToTargetExponent, UnpackedFloat.shiftToExponent, targetExponent_eq,
    totalExponent, hshift]
  rfl

/-- What becomes of a mantissa that has been shifted. -/
def settled (s : UnpackedFloat.Sign) (r : ExtendedMantissa × Int) : UnpackedFloat :=
  if h : r.1.mantissa = 0 then .zero s else .finite s r.1.mantissa r.2 (Nat.pos_of_ne_zero h)

/-- Rounding is shifting, rounding the mantissa, and shifting once more. -/
theorem roundWithAccuracy_eq_settled (s : UnpackedFloat.Sign) (m : Nat) (e : Int)
    (accuracy : Accuracy) :
    UnpackedFloat.roundWithAccuracy .binary64 s m e accuracy =
      settled s (UnpackedFloat.shiftToTargetExponent .binary64
        (UnpackedFloat.shiftToTargetExponent .binary64 m e accuracy).1.roundedMantissa
        (UnpackedFloat.shiftToTargetExponent .binary64 m e accuracy).2 .exact) := rfl

/-- A rounded mantissa with its exponent. -/
theorem holds_settled (s : UnpackedFloat.Sign) {r field : Nat} (hr : r ≤ 2 ^ 53)
    (hfull : field = 0 ∨ 2 ^ 52 ≤ r) :
    Holds s (settled s (UnpackedFloat.shiftToTargetExponent .binary64 r ((field : Int) - 1074)
      .exact)) (r * 2 ^ field) := by
  have hlow : (-1074 : Int) ≤ (field : Int) - 1074 := by omega
  rcases hr.lt_or_eq with hlt | rfl
  · rw [shiftToTargetExponent_of_lt hlt hlow, settled]
    have hunits : Binary.units ⟨r, (field : Int) - 1074⟩ = r * 2 ^ field := by
      rw [Binary.units, Int.sub_add_cancel, Int.toNat_natCast]
    by_cases h0 : r = 0
    · rw [dif_pos h0, h0, Nat.zero_mul]
      exact .zero
    · rw [dif_neg h0, ← hunits]
      exact .finite _ hlt hlow (hfull.imp_left (by omega))
  · rw [shiftToTargetExponent_carry hlow, settled, dif_neg (Nat.two_pow_pos 52).ne']
    have hunits : Binary.units ⟨2 ^ 52, (field : Int) - 1074 + 1⟩ = 2 ^ 53 * 2 ^ field := by
      have hnat : ((field : Int) - 1074 + 1 + 1074).toNat = field + 1 := by omega
      rw [Binary.units, hnat]
      ring
    rw [← hunits]
    exact .finite _ (Nat.pow_lt_pow_right (by decide) (by decide)) (by omega) (.inr (le_refl _))

/-- **What rounding comes to**: the quotient is rounded to a whole number of the units that its
place leaves. -/
theorem Placed.holds {m : Nat} {e : Int} {shift field : Nat} (h : Placed m e shift field)
    {accuracy : Accuracy} (hrep : Represents (.ofMantissaAndAccuracy m accuracy) num den)
    (s : UnpackedFloat.Sign) :
    Holds s (UnpackedFloat.roundWithAccuracy .binary64 s m e accuracy)
      (Binary.roundHalfEven num (den * 2 ^ shift) * 2 ^ field) := by
  have hfirst : UnpackedFloat.shiftToTargetExponent .binary64 m e accuracy =
      (ExtendedMantissa.ofMantissaAndAccuracy m accuracy >>> shift, (field : Int) - 1074) := by
    have hs : ((field : Int) - 1074 - e).toNat = shift := by
      have := h.lowest
      omega
    have he : e + shift = (field : Int) - 1074 := h.lowest
    simp only [UnpackedFloat.shiftToTargetExponent, UnpackedFloat.shiftToExponent, h.target_eq, he,
      hs]
  have hmantissa : m = num / den := by
    rw [← hrep.two_mul_mod.1]
    cases accuracy with
    | exact => rfl
    | inexact o => cases o <;> rfl
  have hquot : num / (den * 2 ^ shift) = m / 2 ^ shift := by
    rw [← Nat.div_div_eq_div_mul, hmantissa]
  have hlt : m / 2 ^ shift < 2 ^ 53 := by
    rw [Nat.div_lt_iff_lt_mul (Nat.two_pow_pos _), ← Nat.pow_add]
    exact h.lt_pow
  have hfull : field = 0 ∨ 2 ^ 52 ≤ m / 2 ^ shift := by
    refine h.pow_le.imp_right fun hle => ?_
    rwa [Nat.le_div_iff_mul_le (Nat.two_pow_pos _), ← Nat.pow_add]
  have hup := Binary.roundHalfEven_le num (den * 2 ^ shift)
  have hdown := Binary.le_roundHalfEven num (den * 2 ^ shift)
  rw [hquot] at hup hdown
  rw [roundWithAccuracy_eq_settled, hfirst, (hrep.shiftRight shift).roundedMantissa_eq]
  exact holds_settled s (hup.trans hlt) (hfull.imp_right (le_trans · hdown))

/-! ### Packing -/

section Packing

open Float.Model.UnpackedFloat

variable {s : Sign} {m : Nat} {e : Int} {hm : 0 < m}

/-- The field of an exponent is its distance from one below the lowest. -/
theorem pack_finite :
    pack .binary64 (.finite s m e hm) =
      if 2 ^ 11 ≤ (e + 1075).toNat + 1 then packedInfinity .binary64 s
      else if m.log2 + 1 = 53 then
        packComponents .binary64 s (BitVec.ofNat 11 (e + 1075).toNat) (BitVec.ofNat 52 m)
      else packComponents .binary64 s 0#11 (BitVec.ofNat 52 m) := by
  have hfield : e + 1023 + 52 = e + 1075 := Int.add_assoc e 1023 52
  rw [← hfield]
  rfl

/-- A magnitude with all its bits is packed without the first of them. -/
theorem unpack_pack_normal (hfull : 2 ^ 52 ≤ m) (hlt : m < 2 ^ 53) (hle : -1074 ≤ e)
    (hge : e ≤ 971) :
    unpack .binary64 (pack .binary64 (.finite s m e hm)) = .finite s m e hm := by
  have hlog : m.log2 = 52 := by
    have h1 := (Nat.le_log2 hm.ne').2 hfull
    have h2 := (Nat.log2_lt hm.ne').2 hlt
    omega
  obtain ⟨field, hfield⟩ : ∃ field, field = (e + 1075).toNat := ⟨_, rfl⟩
  have hnat : (BitVec.ofNat 11 field).toNat = field := Nat.mod_eq_of_lt (by omega)
  have hmax : BitVec.ofNat 11 field ≠ -1#11 := by
    refine fun h => absurd (congrArg BitVec.toNat h) ?_
    rw [hnat]
    change field ≠ 2047
    omega
  have hmin : BitVec.ofNat 11 field ≠ 0#11 := by
    refine fun h => absurd (congrArg BitVec.toNat h) ?_
    rw [hnat]
    change field ≠ 0
    omega
  have hfraction : (1#1 ++ BitVec.ofNat 52 m).toNat = m := by
    rw [toNat_one_append, BitVec.toNat_ofNat]
    omega
  rw [pack_finite, if_neg (by omega), if_pos (by omega), ← hfield, unpack]
  simp only [unpackMantissa_packComponents, unpackExponent_packComponents,
    unpackSign_packComponents, Sign.ofBitVec_toBitVec]
  rw [if_neg hmax, if_neg hmin]
  simp only [hfraction, hnat]
  congr 1
  change (field : Int) - 1075 = e
  omega

/-- A magnitude that lacks leading bits is packed as it is. -/
theorem unpack_pack_subnormal (hlt : m < 2 ^ 52) :
    unpack .binary64 (pack .binary64 (.finite s m (-1074) hm)) = .finite s m (-1074) hm := by
  have hlog := (Nat.log2_lt hm.ne').2 hlt
  have hnat : (BitVec.ofNat 52 m).toNat = m := Nat.mod_eq_of_lt hlt
  have hfraction : BitVec.ofNat 52 m ≠ 0#52 := by
    refine fun h => absurd (congrArg BitVec.toNat h) ?_
    rw [hnat]
    exact hm.ne'
  rw [pack_finite, if_neg (by decide), if_neg (by omega), unpack]
  simp only [unpackMantissa_packComponents, unpackExponent_packComponents,
    unpackSign_packComponents, Sign.ofBitVec_toBitVec]
  rw [if_neg (by decide), if_pos trivial, dif_neg hfraction]
  simp only [hnat]
  rfl

/-- A magnitude with too high an exponent is packed as an infinity. -/
theorem unpack_pack_overflow (h : 972 ≤ e) :
    unpack .binary64 (pack .binary64 (.finite s m e hm)) = .infinity s := by
  rw [pack_finite, if_pos (by omega)]
  cases s <;> rfl

end Packing

/-- A magnitude within the range of exponents is a double, and stays below the limit. -/
theorem unpack_pack_of_le {s : UnpackedFloat.Sign} {m : Nat} {e : Int} (hm : 0 < m)
    (hlt : m < 2 ^ 53) (hle : -1074 ≤ e) (hfull : e = -1074 ∨ 2 ^ 52 ≤ m) (hge : e ≤ 971) :
    (Float.Model.pack (.finite s m e hm)).unpack = .finite s m e hm := by
  by_cases h : 2 ^ 52 ≤ m
  · exact unpack_pack_normal h hlt hle hge
  · obtain rfl : e = -1074 := hfull.resolve_right h
    exact unpack_pack_subnormal (Nat.lt_of_not_le h)

/-- **A sign and a magnitude as a double**: the double has that magnitude, or is infinite if the
magnitude reaches the limit. -/
theorem Holds.pack {s : UnpackedFloat.Sign} {u : UnpackedFloat} {n : Nat} (h : Holds s u n) :
    (Float.ofModel (.pack u)).isNaN = false ∧
      Double.units (.ofModel (.pack u)) = s.apply (min n Binary.limit : Nat) := by
  rw [Double.units_unpack]
  change (Float.Model.pack u).unpack.isNaN = false ∧
    (ofUnpacked (Float.Model.pack u).unpack).units = _
  cases h with
  | zero =>
    rw [Nat.zero_min]
    cases s <;> exact ⟨rfl, rfl⟩
  | @finite m e hm hlt hle hfull =>
    by_cases hge : e ≤ 971
    · have hunits : Binary.units ⟨m, e⟩ < Binary.limit :=
        Binary.Canonical.units_lt_limit ⟨hlt, hle, hge, hfull⟩
      rw [unpack_pack_of_le hm hlt hle hfull hge, units_finite, Nat.min_eq_left hunits.le]
      exact ⟨rfl, rfl⟩
    · have hunits : Binary.limit ≤ Binary.units ⟨m, e⟩ := by
        have hm' : 2 ^ 52 ≤ m := hfull.resolve_left (by omega)
        have hk : Binary.reach + 1 ≤ (e + 1074).toNat := by
          rw [Binary.reach_eq]
          omega
        calc Binary.limit = 2 ^ 52 * 2 ^ (Binary.reach + 1) := by rw [Binary.limit]; ring
          _ ≤ 2 ^ 52 * 2 ^ (e + 1074).toNat :=
            Nat.mul_le_mul_left _ (Nat.pow_le_pow_right (by decide) hk)
          _ ≤ Binary.units ⟨m, e⟩ := Nat.mul_le_mul_right _ hm'
      have hover : (Float.Model.pack (.finite s m e hm)).unpack = .infinity s :=
        @unpack_pack_overflow s m e hm (by omega)
      rw [hover, units_infinity, Nat.min_eq_right hunits]
      exact ⟨rfl, rfl⟩

end Binary64

/-! ## The nearest double -/

namespace Double

open Float.Model (UnpackedFloat totalExponent Format)
open Float.Model.UnpackedFloat (Accuracy ExtendedMantissa)

/-- **What is computed as a rounded quotient is the double nearest to it.** The quotient is given
here by a mantissa and an exponent, as it is come by, and as a number of units, as it is meant. -/
theorem worth_roundWithAccuracy {m : Nat} {e : Int} {accuracy : Accuracy}
    {num den num' den' : Nat} (up down : Nat)
    (hrep : Binary64.Represents (.ofMantissaAndAccuracy m accuracy) num' den')
    (hle : e ≤ Format.binary64.targetExponent (totalExponent m e))
    (he : e + 1074 = (up : Int) - down) (hden : 0 < den)
    (hval : num * (den' * 2 ^ down) = num' * 2 ^ up * den) :
    Worth (.ofModel (.pack (UnpackedFloat.roundWithAccuracy .binary64 .positive m e accuracy)))
      (Binary.rounded num den) := by
  obtain ⟨shift, field, hplaced⟩ := Binary64.exists_placed hle
  obtain ⟨hnan, hunits⟩ := (hplaced.holds hrep .positive).pack
  have hden' : 0 < den' * 2 ^ down := Nat.mul_pos hrep.pos (Nat.two_pow_pos _)
  have hpow (k : Nat) : den' * 2 ^ down * 2 ^ (k + field) = den' * 2 ^ (k + shift) * 2 ^ up := by
    have hsum : down + (k + field) = k + shift + up := by
      have := hplaced.lowest
      omega
    rw [Nat.mul_assoc, ← Nat.pow_add, hsum, Nat.pow_add, ← Nat.mul_assoc]
  have hm : num' / den' = m := by
    rw [← hrep.two_mul_mod.1]
    cases accuracy with
    | exact => rfl
    | inexact o => cases o <;> rfl
  have hexc : Binary.excess (num' * 2 ^ up) (den' * 2 ^ down) = field := by
    refine Binary.excess_eq hden' ?_ (hplaced.pow_le.imp_right fun h => ?_)
    · have hlt := hplaced.lt_pow
      rw [← hm, Nat.div_lt_iff_lt_mul hrep.pos, Nat.mul_comm] at hlt
      rw [hpow]
      exact Nat.mul_lt_mul_of_pos_right hlt (Nat.two_pow_pos _)
    · rw [← hm, Nat.le_div_iff_mul_le hrep.pos, Nat.mul_comm] at h
      rw [hpow]
      exact Nat.mul_le_mul_right _ h
  have hnearest : Binary.nearest num den =
      Binary.roundHalfEven num' (den' * 2 ^ shift) * 2 ^ field := by
    have h0 := hpow 0
    rw [Nat.zero_add, Nat.zero_add] at h0
    rw [Binary.nearest_congr hden hden' hval, Binary.nearest, hexc, h0,
      Binary.roundHalfEven_scale (Nat.two_pow_pos _)]
  refine ⟨hnan, ?_⟩
  rw [hunits, Binary.rounded, hnearest]
  rfl

end Double

end LinkQuality
