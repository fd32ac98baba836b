import LinkQuality.Proofs.Decimal.Rounding

/-!
# Computing with doubles that are not negative

A double that is not negative is worth a natural number of units (`Double.Worth`), the infinite one
the limit. On these numbers the operations are exact ones followed by one rounding
(`Binary.rounded`): a sum is rounded to whole units (`Double.worth_add`), a product and a quotient
at the scale of the number one (`Double.worth_mul`, `Double.worth_div`), and a whole number made a
double is rounded like any other (`Double.worth_ofNat`). As rounding keeps the order, a bound on
the exact result that is itself a double is a bound on the computed one.

Products and quotients are those of finite doubles. From the number one on a product with infinity
is rounded like the others (`Double.worth_mul_of_one_le`), while nothing times infinity is no number
(`Double.isFinite_zero_mul_infinity`).
-/

namespace LinkQuality

namespace Binary

/-- The exponent of the unit, turned about. Kept from being computed with, like `reach`. -/
@[irreducible] def depth : Nat := 1074

theorem depth_eq : depth = 1074 := by rw [depth]

/-- The number one is far from the highest place. -/
theorem depth_lt_reach : depth < reach := by
  rw [depth_eq, reach_eq]
  decide

/-- **The units of the number one.** -/
def one : Nat := 2 ^ depth

theorem one_pos : 0 < one := Nat.two_pow_pos _

/-- Whole numbers of no more than fifty-three bits are far below the limit. -/
theorem two_pow_mul_one_le : 2 ^ 53 * one ≤ limit :=
  Nat.mul_le_mul_left _ (Nat.pow_le_pow_right (by decide) depth_lt_reach.le)

theorem one_lt_limit : one < limit :=
  calc one = 1 * one := (Nat.one_mul one).symm
    _ < 2 ^ 53 * one := Nat.mul_lt_mul_of_pos_right (by decide) one_pos
    _ ≤ limit := two_pow_mul_one_le

end Binary

namespace Double

open Float.Model (UnpackedFloat Format totalExponent)
open Binary (one limit rounded)

variable {x y : Float} {m n : Nat}

/-- Shifting to the left raises the place of the leading bit. -/
theorem log2_mul_two_pow (hm : 0 < m) (k : Nat) : (m * 2 ^ k).log2 = m.log2 + k := by
  have hpos : m * 2 ^ k ≠ 0 := (Nat.mul_pos hm (Nat.two_pow_pos _)).ne'
  rw [Nat.log2_eq_iff hpos, Nat.pow_add, Nat.add_right_comm, Nat.pow_add]
  exact ⟨Nat.mul_le_mul_right _ (Nat.log2_self_le hm.ne'),
    Nat.mul_lt_mul_of_pos_right Nat.lt_log2_self (Nat.two_pow_pos _)⟩

/-! ## On unpacked doubles -/

/-- **Rounding a whole number of some power of two.** The power is one of two natural numbers over
another, and counted in units the number is `num`. -/
theorem worth_round {e : Int} {num : Nat} (up down : Nat) (hm : 0 < m)
    (he : e + 1074 = (up : Int) - down) (hval : num * 2 ^ down = m * 2 ^ up) :
    Worth (.ofModel (.pack (UnpackedFloat.round .binary64 .positive m e))) (rounded num 1) := by
  have htarget := Binary64.targetExponent_eq (totalExponent m e)
  obtain ⟨k, hk⟩ : ∃ k, k = (e - Format.binary64.targetExponent (totalExponent m e)).toNat :=
    ⟨_, rfl⟩
  have hround : UnpackedFloat.round .binary64 .positive m e =
      UnpackedFloat.roundWithAccuracy .binary64 .positive (m * 2 ^ k) (e - k) .exact := by
    rw [hk, ← Nat.shiftLeft_eq]
    rfl
  have hplace : totalExponent (m * 2 ^ k) (e - k) = totalExponent m e := by
    rw [totalExponent, totalExponent, log2_mul_two_pow hm]
    omega
  rw [hround]
  refine worth_roundWithAccuracy up (down + k) (Binary64.represents_exact _) ?_ ?_ Nat.one_pos ?_
  · rw [hplace]
    omega
  · omega
  · rw [Nat.one_mul, Nat.mul_one, Nat.pow_add, ← Nat.mul_assoc, hval]
    ring

variable {a b : UnpackedFloat}

/-- What has the form of a double is packed unchanged. -/
theorem Shape.worth (h : Shape a n) : Worth (.ofModel (.pack a)) n := by
  cases h with
  | infinity => exact ⟨rfl, rfl⟩
  | zero s => cases s <;> exact ⟨rfl, rfl⟩
  | finite hm hc =>
    have hholds : Binary64.Holds .positive _ _ :=
      .finite hm hc.significand_lt hc.le_exponent hc.full
    obtain ⟨hnan, hunits⟩ := hholds.pack
    rw [Nat.min_eq_left hc.units_lt_limit.le] at hunits
    exact ⟨hnan, hunits⟩

/-- The double nearest to a double is that double. -/
theorem Shape.rounded_mul (h : Shape a n) {den : Nat} (hden : 0 < den) :
    rounded (n * den) den = n := by
  cases h with
  | infinity =>
    have hlimit : limit = 2 ^ 52 * 2 ^ (Binary.reach + 1) := by
      rw [limit]
      ring
    rw [hlimit]
    exact Binary.rounded_of_lt hden (Nat.pow_lt_pow_right (by decide) (by decide)) hlimit.ge
  | zero s =>
    rw [← Nat.zero_mul (2 ^ 0)]
    exact Binary.rounded_of_lt hden (Nat.two_pow_pos _) (by simp)
  | finite hm hc => exact Binary.rounded_of_lt hden hc.significand_lt hc.units_lt_limit.le

theorem Shape.rounded_self (h : Shape a n) : rounded n 1 = n := by
  have hfix := h.rounded_mul Nat.one_pos
  rwa [Nat.mul_one] at hfix

theorem Shape.le_limit (h : Shape a n) : n ≤ limit := by
  cases h with
  | infinity => exact le_refl _
  | zero s => exact Nat.zero_le _
  | finite hm hc => exact hc.units_lt_limit.le

/-- Beyond the limit everything is rounded to it. -/
theorem rounded_of_limit_le (h : limit ≤ n) : rounded n 1 = limit :=
  le_antisymm (Binary.rounded_le_limit _ _)
    (Shape.infinity.rounded_self.ge.trans (Binary.rounded_mono Nat.one_pos h))

/-- Nothing is rounded to nothing. -/
theorem rounded_zero {den : Nat} (hden : 0 < den) : rounded 0 den = 0 := by
  have hfix := (Shape.zero .positive).rounded_mul hden
  rwa [Nat.zero_mul] at hfix

/-- A magnitude in units, split at a lower exponent. -/
theorem units_split {e low : Int} (hle : low ≤ e) (hlow : -1074 ≤ low) :
    Binary.units ⟨m, e⟩ = m * 2 ^ (e - low).toNat * 2 ^ (low + 1074).toNat := by
  have hsum : (e + 1074).toNat = (e - low).toNat + (low + 1074).toNat := by omega
  rw [Binary.units, hsum, Nat.pow_add, ← Nat.mul_assoc]

/-- Normalizing a positive whole number is rounding it. -/
theorem normalize_of_pos (hm : 0 < m) (e : Int) :
    UnpackedFloat.normalize .binary64 m e .positive =
      UnpackedFloat.round .binary64 .positive m e := by
  have hgt : compare (m : Int) 0 = .gt := compare_gt_iff_gt.2 (Int.natCast_pos.2 hm)
  rw [UnpackedFloat.normalize, hgt]
  rfl

/-- **The sum of two doubles is the nearest one to the exact sum.** -/
theorem Shape.worth_add (ha : Shape a m) (hb : Shape b n) :
    Worth (.ofModel (.pack (UnpackedFloat.add .binary64 a b))) (rounded (m + n) 1) := by
  cases ha with
  | infinity =>
    rw [rounded_of_limit_le (Nat.le_add_right _ _)]
    cases hb <;> exact Shape.infinity.worth
  | zero s =>
    rw [Nat.zero_add, hb.rounded_self]
    cases hb with
    | infinity => exact Shape.infinity.worth
    | zero t => cases s <;> cases t <;> exact (Shape.zero _).worth
    | finite hn hd => exact (Shape.finite hn hd).worth
  | @finite m e hm hc =>
    cases hb with
    | infinity =>
      rw [rounded_of_limit_le (Nat.le_add_left _ _)]
      exact Shape.infinity.worth
    | zero t =>
      rw [Nat.add_zero, (Shape.finite hm hc).rounded_self]
      exact (Shape.finite hm hc).worth
    | @finite n f hn hd =>
      have hlow : -1074 ≤ min e f := le_min hc.le_exponent hd.le_exponent
      have hadd :
          UnpackedFloat.add .binary64 (.finite .positive m e hm) (.finite .positive n f hn) =
            UnpackedFloat.normalize .binary64
              (m * 2 ^ (e - min e f).toNat + n * 2 ^ (f - min e f).toNat : Nat) (min e f)
              .positive := by
        rw [← Nat.shiftLeft_eq, ← Nat.shiftLeft_eq]
        rfl
      have hpos : 0 < m * 2 ^ (e - min e f).toNat + n * 2 ^ (f - min e f).toNat :=
        Nat.add_pos_left (Nat.mul_pos hm (Nat.two_pow_pos _)) _
      rw [hadd, normalize_of_pos hpos]
      refine worth_round (min e f + 1074).toNat 0 hpos (by omega) ?_
      rw [units_split (min_le_left e f) hlow, units_split (min_le_right e f) hlow]
      ring

/-- A product of two magnitudes has bits enough to be rounded. -/
theorem le_target_mul {e f : Int} (hm : 0 < m) (hn : 0 < n) (hc : Binary.Canonical ⟨m, e⟩)
    (hd : Binary.Canonical ⟨n, f⟩) :
    e + f ≤ Format.binary64.targetExponent (totalExponent (m * n) (e + f)) := by
  rw [Binary64.targetExponent_eq, totalExponent]
  rcases hc.full with he | hbits
  · have he : e = -1074 := he
    have hf : f ≤ 971 := hd.exponent_le
    rcases hd.full with hf' | hbits'
    · have hf' : f = -1074 := hf'
      omega
    · have hlog : 52 ≤ (m * n).log2 := by
        rw [Nat.le_log2 (Nat.mul_pos hm hn).ne']
        exact hbits'.trans (Nat.le_mul_of_pos_left _ hm)
      omega
  · have hlog : 52 ≤ (m * n).log2 := by
      rw [Nat.le_log2 (Nat.mul_pos hm hn).ne']
      exact hbits.trans (Nat.le_mul_of_pos_right _ hn)
    omega

/-- **The product of two finite doubles is the nearest one to the exact product.** -/
theorem Shape.worth_mul (ha : Shape a m) (hb : Shape b n) (hfa : m < limit) (hfb : n < limit) :
    Worth (.ofModel (.pack (UnpackedFloat.mul .binary64 a b))) (rounded (m * n) one) := by
  cases ha with
  | infinity => exact absurd hfa (lt_irrefl _)
  | zero s =>
    rw [Nat.zero_mul, rounded_zero Binary.one_pos]
    cases hb with
    | infinity => exact absurd hfb (lt_irrefl _)
    | zero t => exact (Shape.zero _).worth
    | finite hn hd => exact (Shape.zero _).worth
  | @finite m e hm hc =>
    cases hb with
    | infinity => exact absurd hfb (lt_irrefl _)
    | zero t =>
      rw [Nat.mul_zero, rounded_zero Binary.one_pos]
      exact (Shape.zero _).worth
    | @finite n f hn hd =>
      have hmul :
          UnpackedFloat.mul .binary64 (.finite .positive m e hm) (.finite .positive n f hn) =
            UnpackedFloat.roundWithAccuracy .binary64 .positive (m * n) (e + f) .exact := rfl
      rw [hmul]
      refine worth_roundWithAccuracy (e + f + 1074).toNat (-(e + f + 1074)).toNat
        (Binary64.represents_exact _) (le_target_mul hm hn hc hd) (by omega) Binary.one_pos ?_
      have hsum : (e + 1074).toNat + (f + 1074).toNat + (-(e + f + 1074)).toNat =
          (e + f + 1074).toNat + Binary.depth := by
        have he : -1074 ≤ e := hc.le_exponent
        have hf : -1074 ≤ f := hd.le_exponent
        rw [Binary.depth_eq]
        omega
      calc Binary.units ⟨m, e⟩ * Binary.units ⟨n, f⟩ * (1 * 2 ^ (-(e + f + 1074)).toNat)
          = m * n * 2 ^ ((e + 1074).toNat + (f + 1074).toNat + (-(e + f + 1074)).toNat) := by
            rw [Binary.units, Binary.units, Nat.pow_add, Nat.pow_add]
            ring
        _ = m * n * 2 ^ (e + f + 1074).toNat * one := by
            rw [hsum, Nat.pow_add, one]
            ring

/-- A quotient of two magnitudes is computed with bits enough to be rounded. -/
theorem le_target_div {e f low : Int} {k : Nat} (hm : 0 < m) (hn : 0 < n) (hk : e - f = low + k)
    (hlow : low ≤ Format.binary64.targetExponent (totalExponent m e - totalExponent n f)) :
    low ≤ Format.binary64.targetExponent (totalExponent (m * 2 ^ k / n) low) := by
  rw [Binary64.targetExponent_eq, totalExponent, totalExponent] at hlow
  rw [Binary64.targetExponent_eq, totalExponent]
  by_cases hmin : low ≤ -1074
  · omega
  · have hbits : 2 ^ 52 ≤ m * 2 ^ k / n := by
      rw [Nat.le_div_iff_mul_le hn]
      calc 2 ^ 52 * n ≤ 2 ^ 52 * 2 ^ (n.log2 + 1) := Nat.mul_le_mul_left _ Nat.lt_log2_self.le
        _ = 2 ^ (52 + (n.log2 + 1)) := (Nat.pow_add _ _ _).symm
        _ ≤ 2 ^ (m.log2 + k) := Nat.pow_le_pow_right (by decide) (by omega)
        _ = 2 ^ m.log2 * 2 ^ k := Nat.pow_add _ _ _
        _ ≤ m * 2 ^ k := Nat.mul_le_mul_right _ (Nat.log2_self_le hm.ne')
    have hlog : 52 ≤ (m * 2 ^ k / n).log2 :=
      (Nat.le_log2 ((Nat.two_pow_pos 52).trans_le hbits).ne').2 hbits
    omega

/-- **The quotient of two finite doubles is the nearest one to the exact quotient.** -/
theorem Shape.worth_div (ha : Shape a m) (hb : Shape b n) (hfa : m < limit) (hfb : n < limit)
    (hpos : 0 < n) :
    Worth (.ofModel (.pack (UnpackedFloat.div .binary64 a b))) (rounded (m * one) n) := by
  cases hb with
  | infinity => exact absurd hfb (lt_irrefl _)
  | zero t => exact absurd hpos (lt_irrefl _)
  | @finite n f hn hd =>
    cases ha with
    | infinity => exact absurd hfa (lt_irrefl _)
    | zero s =>
      rw [Nat.zero_mul, rounded_zero hpos]
      exact (Shape.zero _).worth
    | @finite m e hm hc =>
      obtain ⟨low, hlow⟩ : ∃ low, low = min (e - f) (Format.binary64.targetExponent
        (totalExponent m e - totalExponent n f)) := ⟨_, rfl⟩
      obtain ⟨k, hk⟩ : ∃ k, k = (e - f - low).toNat := ⟨_, rfl⟩
      have hdiv :
          UnpackedFloat.div .binary64 (.finite .positive m e hm) (.finite .positive n f hn) =
            UnpackedFloat.roundWithAccuracy .binary64 .positive (m * 2 ^ k / n) low
              (UnpackedFloat.accuracyOfFraction (m * 2 ^ k % n) n) := by
        rw [hk, hlow, ← Nat.shiftLeft_eq]
        rfl
      have hsplit : e - f = low + k := by omega
      rw [hdiv]
      refine worth_roundWithAccuracy (low + 1074).toNat (-(low + 1074)).toNat
        (Binary64.represents_fraction (m * 2 ^ k) hn)
        (le_target_div hm hn hsplit (hlow.trans_le (min_le_right _ _))) (by omega) hpos ?_
      have hsum : (e + 1074).toNat + Binary.depth + (-(low + 1074)).toNat =
          k + (low + 1074).toNat + (f + 1074).toNat := by
        have he : -1074 ≤ e := hc.le_exponent
        have hf : -1074 ≤ f := hd.le_exponent
        rw [Binary.depth_eq]
        omega
      calc Binary.units ⟨m, e⟩ * one * (n * 2 ^ (-(low + 1074)).toNat)
          = m * n * 2 ^ ((e + 1074).toNat + Binary.depth + (-(low + 1074)).toNat) := by
            rw [Binary.units, one, Nat.pow_add, Nat.pow_add]
            ring
        _ = m * 2 ^ k * 2 ^ (low + 1074).toNat * Binary.units ⟨n, f⟩ := by
            rw [hsum, Nat.pow_add, Nat.pow_add, Binary.units]
            ring

/-- A quotient by infinity is nothing. -/
theorem Shape.worth_div_infinity (ha : Shape a m) (hm : m < limit) :
    Worth (.ofModel (.pack (UnpackedFloat.div .binary64 a (.infinity .positive)))) 0 := by
  cases ha with
  | infinity => exact absurd hm (lt_irrefl _)
  | zero s => exact (Shape.zero _).worth
  | finite hm hc => exact (Shape.zero _).worth

/-- Infinity times anything that is not nothing is infinity. -/
theorem Shape.worth_infinity_mul (hb : Shape b n) (hpos : 0 < n) :
    Worth (.ofModel (.pack (UnpackedFloat.mul .binary64 (.infinity .positive) b))) limit ∧
      Worth (.ofModel (.pack (UnpackedFloat.mul .binary64 b (.infinity .positive)))) limit := by
  cases hb with
  | infinity => exact ⟨Shape.infinity.worth, Shape.infinity.worth⟩
  | zero s => exact absurd hpos (lt_irrefl 0)
  | finite hm hc => exact ⟨Shape.infinity.worth, Shape.infinity.worth⟩

/-- Only infinity is worth the limit. -/
theorem Shape.eq_infinity (hb : Shape b n) (hn : n = limit) : b = .infinity .positive := by
  cases hb with
  | infinity => rfl
  | zero s => exact absurd hn Binary.limit_pos.ne
  | finite hm hc => exact absurd hn hc.units_lt_limit.ne

/-! ## On doubles -/

/-- **A sum is the double nearest to the exact sum.** -/
theorem worth_add (hx : Worth x m) (hy : Worth y n) : Worth (x + y) (rounded (m + n) 1) :=
  hx.shape.worth_add hy.shape

/-- **A product is the double nearest to the exact product.** -/
theorem worth_mul (hx : Worth x m) (hy : Worth y n) (hm : m < limit) (hn : n < limit) :
    Worth (x * y) (rounded (m * n) one) :=
  hx.shape.worth_mul hy.shape hm hn

/-- **A quotient is the double nearest to the exact quotient.** -/
theorem worth_div (hx : Worth x m) (hy : Worth y n) (hm : m < limit) (hn : n < limit)
    (hpos : 0 < n) : Worth (x / y) (rounded (m * one) n) :=
  hx.shape.worth_div hy.shape hm hn hpos

theorem worth_div_infinity (hx : Worth x m) (hm : m < limit) (hy : Worth y limit) :
    Worth (x / y) 0 := by
  have hdiv := hx.shape.worth_div_infinity hm
  rw [← hy.shape.eq_infinity rfl] at hdiv
  exact hdiv

/-- **A quotient exceeds no double that the exact quotient does not exceed.** -/
theorem exists_worth_div (hx : Worth x m) (hm : m < limit) (hy : Worth y n) (hn : 0 < n) :
    ∃ k, Worth (x / y) k ∧ ∀ {z : Float} {b : Nat}, Worth z b → m * one ≤ b * n → k ≤ b := by
  rcases (hy.shape.le_limit).lt_or_eq with hlt | rfl
  · refine ⟨_, worth_div hx hy hm hlt hn, fun hz hle => ?_⟩
    exact (Binary.rounded_mono hn hle).trans_eq (hz.shape.rounded_mul hn)
  · exact ⟨0, worth_div_infinity hx hm hy, fun _ _ => Nat.zero_le _⟩

/-- Infinity divided by anything is not finite. -/
theorem isFinite_infinity_div (hx : Worth x limit) (y : Float) : (x / y).isFinite = false := by
  have hinf : x.toModel.unpack = .infinity .positive := hx.shape.eq_infinity rfl
  change (Float.Model.pack (UnpackedFloat.div .binary64 x.toModel.unpack
    y.toModel.unpack)).unpack.isFinite = false
  have hnan : (Float.Model.pack .notANumber).unpack.isFinite = false := by decide
  have hinfinite (s : UnpackedFloat.Sign) :
      (Float.Model.pack (.infinity s)).unpack.isFinite = false := by cases s <;> decide
  rw [hinf]
  generalize y.toModel.unpack = b
  cases b with
  | infinity s => exact hnan
  | notANumber => exact hnan
  | zero s => exact hinfinite _
  | finite s m e hm => exact hinfinite _

/-- Infinity is not exceeded. -/
theorem rounded_limit_mul (hn : one ≤ n) : rounded (limit * n) one = limit :=
  le_antisymm (Binary.rounded_le_limit _ _)
    ((Shape.infinity.rounded_mul Binary.one_pos).ge.trans
      (Binary.rounded_mono Binary.one_pos (Nat.mul_le_mul_left _ hn)))

/-- **The product of two doubles of which neither is below one**, finite or not. -/
theorem worth_mul_of_one_le (hx : Worth x m) (hy : Worth y n) (hm : one ≤ m) (hn : one ≤ n) :
    Worth (x * y) (rounded (m * n) one) := by
  rcases hx.shape.le_limit.lt_or_eq with hxlt | rfl
  · rcases hy.shape.le_limit.lt_or_eq with hylt | rfl
    · exact worth_mul hx hy hxlt hylt
    · have hmul := (hx.shape.worth_infinity_mul (Binary.one_pos.trans_le hm)).2
      rw [← hy.shape.eq_infinity rfl] at hmul
      rw [Nat.mul_comm, rounded_limit_mul hm]
      exact hmul
  · have hmul := (hy.shape.worth_infinity_mul (Binary.one_pos.trans_le hn)).1
    rw [← hx.shape.eq_infinity rfl] at hmul
    rw [rounded_limit_mul hn]
    exact hmul

/-- Nothing times infinity is no number. -/
theorem isFinite_zero_mul_infinity (hx : Worth x 0) (hy : Worth y limit) :
    (x * y).isFinite = false := by
  have hinf : y.toModel.unpack = .infinity .positive := hy.shape.eq_infinity rfl
  have hshape := hx.shape
  change (Float.Model.pack (UnpackedFloat.mul .binary64 x.toModel.unpack
    y.toModel.unpack)).unpack.isFinite = false
  rw [hinf]
  generalize x.toModel.unpack = a, hzero : (0 : Nat) = k at hshape
  cases hshape with
  | infinity => exact absurd hzero Binary.limit_pos.ne
  | zero s =>
    change (Float.Model.pack .notANumber).unpack.isFinite = false
    decide
  | finite hm hc => exact absurd hzero (Binary.units_pos hm).ne

/-! ### Whole numbers -/

/-- A whole number of no more than fifty-three bits is below the limit, -/
theorem mul_one_lt_limit (hn : n < 2 ^ 53) : n * one < limit :=
  (Nat.mul_lt_mul_of_pos_right hn Binary.one_pos).trans_le Binary.two_pow_mul_one_le

/-- and is a double. -/
theorem rounded_mul_one (hn : n < 2 ^ 53) : rounded (n * one) 1 = n * one := by
  have hfix := Binary.rounded_of_lt Nat.one_pos hn (mul_one_lt_limit hn).le
  rwa [Nat.mul_one] at hfix

/-- The bits of the number one. -/
theorem worth_ofBits_one : Worth (Float.ofBits 4607182418800017408) one := by
  have hunpack : (Float.ofBits 4607182418800017408).toModel.unpack =
      .finite .positive (2 ^ 52) (-52) (Nat.two_pow_pos 52) := rfl
  have hunits : Binary.units ⟨2 ^ 52, -52⟩ = one := by
    have hdepth : 52 + (-52 + 1074 : Int).toNat = Binary.depth := by
      rw [Binary.depth_eq]
      rfl
    rw [Binary.units, one, ← hdepth, Nat.pow_add]
  refine ⟨by decide, ?_⟩
  rw [units_unpack, hunpack, Binary64.units_finite, hunits]
  rfl

/-- A whole number of no more than fifty-three bits is converted as it is. -/
theorem worth_toFloat (hn : n < 2 ^ 53) : Worth n.toUInt64.toFloat (n * one) := by
  have hnat : n.toUInt64.toNat = n := Nat.mod_eq_of_lt (hn.trans (by decide))
  have hfloat : n.toUInt64.toFloat =
      .ofModel (.pack (UnpackedFloat.normalize .binary64 n 0 .positive)) := by
    conv_rhs => rw [← hnat]
    rfl
  rw [hfloat]
  rcases Nat.eq_zero_or_pos n with rfl | hpos
  · rw [Nat.zero_mul]
    exact (Shape.zero .positive).worth
  · rw [normalize_of_pos hpos, ← rounded_mul_one hn]
    refine worth_round Binary.depth 0 hpos ?_ (Nat.mul_one _)
    rw [Binary.depth_eq]
    rfl

/-- A whole number of any size is converted by rounding it. -/
theorem worth_ofScientific (hn : 0 < n) :
    Worth (.ofModel (.ofScientific n 0)) (rounded (n * one) 1) := by
  have hsci : UnpackedFloat.ofScientific .binary64 n 0 =
      UnpackedFloat.roundWithAccuracy .binary64 .positive (n * 2 ^ 53) (-53) .exact := by
    rw [UnpackedFloat.ofScientific, dif_neg hn.ne', if_neg (by decide), if_neg, if_pos (le_refl _)]
    · change UnpackedFloat.roundWithAccuracy .binary64 .positive (n <<< 53 * 1) (-53 + 0) .exact = _
      rw [Nat.mul_one, Nat.shiftLeft_eq]
      rfl
    · change ¬ (0 : Int) < -(2048 + (n.log2 : Int))
      omega
  obtain ⟨up, hup⟩ : ∃ up, Binary.depth = 53 + up := ⟨1021, Binary.depth_eq⟩
  have hdepth := Binary.depth_eq
  rw [Float.Model.ofScientific, hsci]
  refine worth_roundWithAccuracy up 0 (Binary64.represents_exact _) ?_ (by omega) Nat.one_pos ?_
  · rw [Binary64.targetExponent_eq, totalExponent, log2_mul_two_pow hn]
    omega
  · rw [one, hup, Nat.pow_add]
    ring

/-- **A whole number as a double is the nearest one to it.** Up to fifty-three bits it is converted
as a machine word and multiplied by one, beyond that it is rounded from its digits. -/
theorem worth_ofNat (n : Nat) : Worth (Float.ofNat n) (rounded (n * one) 1) := by
  by_cases hn : n < 2 ^ 53
  · have hprod : Float.ofNat n = n.toUInt64.toFloat * Float.ofBits 4607182418800017408 :=
      dif_pos ⟨hn, by decide⟩
    have hlimit := mul_one_lt_limit hn
    have hmul := worth_mul (worth_toFloat hn) worth_ofBits_one hlimit Binary.one_lt_limit
    have hexact : rounded (n * one * one) one = n * one :=
      Binary.rounded_of_lt Binary.one_pos hn hlimit.le
    rw [hexact] at hmul
    rw [hprod, rounded_mul_one hn]
    exact hmul
  · have hsci : Float.ofNat n = .ofModel (.ofScientific n 0) := dif_neg fun h => hn h.1
    rw [hsci]
    exact worth_ofScientific (by omega)

/-- A whole number of no more than fifty-three bits as a double. -/
theorem worth_ofNat_of_lt (hn : n < 2 ^ 53) : Worth (Float.ofNat n) (n * one) := by
  have h := worth_ofNat n
  rwa [rounded_mul_one hn] at h

/-- Zero is worth no unit. -/
theorem worth_zero : Worth 0 0 := by
  have h := worth_ofNat_of_lt (n := 0) (Nat.two_pow_pos 53)
  rwa [Nat.zero_mul] at h

/-- The number one, in units. -/
theorem worth_one : Worth 1 one := by
  have h := worth_ofNat_of_lt (n := 1) (by decide)
  rwa [Nat.one_mul] at h

/-! ### What is worth units -/

/-- What is worth fewer units than the limit is finite. -/
theorem Worth.isFinite_iff (h : Worth x n) : x.isFinite = true ↔ n < limit := by
  rw [Double.isFinite_iff, h.units_eq, Int.natAbs_natCast]
  exact and_iff_right h.isNaN_eq

/-- Doubles that are worth units are in the order of these. -/
theorem Worth.le_iff (hx : Worth x m) (hy : Worth y n) : x ≤ y ↔ m ≤ n := by
  rw [Double.le_iff, hx.units_eq, hy.units_eq, Int.ofNat_le]
  exact and_iff_right ⟨hx.isNaN_eq, hy.isNaN_eq⟩

/-- Each number that is not negative is worth some units. -/
theorem exists_worth (hnan : x.isNaN = false) (h : 0 ≤ units x) : ∃ n, Worth x n :=
  ⟨(units x).toNat, hnan, (Int.toNat_of_nonneg h).symm⟩

end Double

end LinkQuality
