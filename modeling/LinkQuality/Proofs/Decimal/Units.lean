import LinkQuality.Decimal.Binary64
import Mathlib

/-!
# Doubles in whole units

Every finite double is a whole multiple of the least positive one, `2 ^ -1074`. Counted in that
unit a double is an integer (`Double.units`), with the infinities put just beyond the greatest, and
what is said of doubles by their order becomes arithmetic of integers: two doubles that are numbers
compare as their units do (`Double.lt_iff`, `Double.le_iff`, `Double.beq_iff`), and one is finite if
its units stay below the limit. The two zeros have the same units, and no NaN compares to anything.

The order of doubles is defined on exponents first and significands second. That this is the order
of the values rests on the form the bits of a double have (`Binary.Canonical`): a significand has
all its bits unless the exponent is the lowest, so a higher exponent is always a greater value.
-/

namespace LinkQuality

/-! ## Magnitudes -/

namespace Binary

/-- **The magnitudes of doubles.** -/
structure Canonical (b : Binary) : Prop where
  significand_lt : b.significand < 2 ^ 53
  le_exponent : -1074 ≤ b.exponent
  exponent_le : b.exponent ≤ 971
  /-- Only at the lowest exponent leading bits may be missing. -/
  full : b.exponent = -1074 ∨ 2 ^ 52 ≤ b.significand

/-- A magnitude in units of the least positive double. -/
def units (b : Binary) : Nat := b.significand * 2 ^ (b.exponent + 1074).toNat

/-- How far the highest exponent lies above the lowest. It is kept from being computed with: a
power of this size is a number of six hundred digits. -/
@[irreducible] def reach : Nat := 2045

theorem reach_eq : reach = 2045 := by rw [reach]

/-- **The units that no finite double has**: the least power of two beyond them. -/
def limit : Nat := 2 ^ 53 * 2 ^ reach

theorem limit_pos : 0 < limit := Nat.mul_pos (by decide) (Nat.two_pow_pos _)

variable {a b : Binary}

theorem units_pos (h : 0 < b.significand) : 0 < b.units := Nat.mul_pos h (Nat.two_pow_pos _)

/-- The exponent of a magnitude, counted from the lowest. -/
theorem Canonical.toNat_le_reach (h : b.Canonical) : (b.exponent + 1074).toNat ≤ reach := by
  have := h.exponent_le
  rw [reach_eq]
  omega

/-- Magnitudes stay below the limit. -/
theorem Canonical.units_lt_limit (h : b.Canonical) : b.units < limit :=
  calc b.units < 2 ^ 53 * 2 ^ (b.exponent + 1074).toNat :=
        Nat.mul_lt_mul_of_pos_right h.significand_lt (Nat.two_pow_pos _)
    _ ≤ limit :=
        Nat.mul_le_mul_left _ (Nat.pow_le_pow_right (by decide) h.toNat_le_reach)

/-- **A higher exponent is a greater magnitude.** -/
theorem Canonical.units_lt_units (ha : a.Canonical) (hb : b.Canonical)
    (h : a.exponent < b.exponent) : a.units < b.units := by
  have hlow := ha.le_exponent
  have hfull : 2 ^ 52 ≤ b.significand := hb.full.resolve_left (by omega)
  have hk : (a.exponent + 1074).toNat + 1 ≤ (b.exponent + 1074).toNat := by omega
  calc a.units < 2 ^ 53 * 2 ^ (a.exponent + 1074).toNat :=
        Nat.mul_lt_mul_of_pos_right ha.significand_lt (Nat.two_pow_pos _)
    _ = 2 ^ 52 * 2 ^ ((a.exponent + 1074).toNat + 1) := by rw [Nat.pow_succ]; omega
    _ ≤ 2 ^ 52 * 2 ^ (b.exponent + 1074).toNat :=
        Nat.mul_le_mul_left _ (Nat.pow_le_pow_right (by decide) hk)
    _ ≤ b.units := Nat.mul_le_mul_right _ hfull

/-- **Exponents first, significands second** is the order of the values. -/
theorem Canonical.compares (ha : a.Canonical) (hb : b.Canonical) :
    ((compare a.exponent b.exponent).then (compare a.significand b.significand)).Compares
      a.units b.units := by
  rcases lt_trichotomy a.exponent b.exponent with h | h | h
  · rw [compare_lt_iff_lt.2 h]
    exact ha.units_lt_units hb h
  · have hpos := Nat.two_pow_pos (b.exponent + 1074).toNat
    rw [compare_eq_iff_eq.2 h, Binary.units, Binary.units, h]
    rcases lt_trichotomy a.significand b.significand with hs | hs | hs
    · rw [compare_lt_iff_lt.2 hs]
      exact Nat.mul_lt_mul_of_pos_right hs hpos
    · rw [compare_eq_iff_eq.2 hs, hs]
      rfl
    · rw [compare_gt_iff_gt.2 hs]
      exact Nat.mul_lt_mul_of_pos_right hs hpos
  · rw [compare_gt_iff_gt.2 h]
    exact hb.units_lt_units ha h

end Binary

/-! ## Signs and special values -/

namespace Binary64

open Float.Model (UnpackedFloat)
open Float.Model.UnpackedFloat (Sign)

/-- A magnitude with its sign. -/
def signed : Bool → Nat → Int
  | true, n => -n
  | false, n => n

/-- **A double in units of the least positive one.** The infinities stand at the limit; what is no
number counts as zero and has to be told apart. -/
def units : Binary64 → Int
  | nan => 0
  | infinite s => signed s Binary.limit
  | finite s b => signed s b.units

/-- The forms that the bits of a double take. -/
def Canonical : Binary64 → Prop
  | finite _ b => b.Canonical
  | _ => True

/-- The form in which doubles are computed with, as a double read off its bits. -/
def ofUnpacked : UnpackedFloat → Binary64
  | .notANumber => nan
  | .infinity s => infinite (s == .negative)
  | .zero s => finite (s == .negative) ⟨0, -1074⟩
  | .finite s m e _ => finite (s == .negative) ⟨m, e⟩

/-! ### Reading the bits -/

section Bits

variable (w : BitVec 64)

theorem toNat_unpackMantissa :
    (@UnpackedFloat.unpackMantissa .binary64 w).toNat = w.toNat % 2 ^ 52 := by
  change (w.toNat >>> 0) % 2 ^ 52 = w.toNat % 2 ^ 52
  rw [Nat.shiftRight_zero]

theorem toNat_unpackExponent :
    (@UnpackedFloat.unpackExponent .binary64 w).toNat = w.toNat / 2 ^ 52 % 2 ^ 11 := by
  change (w.toNat >>> 52) % 2 ^ 11 = w.toNat / 2 ^ 52 % 2 ^ 11
  rw [Nat.shiftRight_eq_div_pow]

/-- The sign bit is the highest. -/
theorem unpackSign_beq_negative :
    (Sign.ofBitVec (@UnpackedFloat.unpackSign .binary64 w) == .negative) =
      decide (2 ^ 63 ≤ w.toNat) := by
  have hbit : (@UnpackedFloat.unpackSign .binary64 w).toNat = w.toNat / 2 ^ 63 := by
    change (w.toNat >>> 63) % 2 ^ 1 = w.toNat / 2 ^ 63
    have := w.isLt
    rw [Nat.shiftRight_eq_div_pow]
    omega
  have hone : ∀ b : BitVec 1, (Sign.ofBitVec b == .negative) = decide (1 ≤ b.toNat) := by decide
  rw [hone, hbit]
  exact decide_eq_decide.2 (by omega)

/-- The implicit bit put before a fraction. -/
theorem toNat_one_append (m : BitVec 52) : (1#1 ++ m).toNat = 2 ^ 52 + m.toNat := by
  rw [BitVec.toNat_append, ← Nat.shiftLeft_add_eq_or_of_lt m.isLt]
  rfl

end Bits

/-- The fields of a word, by division. -/
theorem ofWord_eq (word : Nat) :
    ofWord word =
      if word / 2 ^ 52 % 2 ^ 11 = 2047 then
        if word % 2 ^ 52 = 0 then infinite (decide (2 ^ 63 ≤ word)) else nan
      else if word / 2 ^ 52 % 2 ^ 11 = 0 then
        finite (decide (2 ^ 63 ≤ word)) ⟨word % 2 ^ 52, -1074⟩
      else
        finite (decide (2 ^ 63 ≤ word))
          ⟨2 ^ 52 + word % 2 ^ 52, (word / 2 ^ 52 % 2 ^ 11 : Nat) - 1075⟩ := rfl

/-- **Reading a double off its bits is what computing with it starts from.** -/
theorem ofFloat_eq_ofUnpacked (x : Float) : ofFloat x = ofUnpacked x.toModel.unpack := by
  let w := x.toModel.toBits.toBitVec
  change ofWord w.toNat = ofUnpacked (UnpackedFloat.unpack .binary64 w)
  rw [ofWord_eq, ← unpackSign_beq_negative, ← toNat_unpackMantissa, ← toNat_unpackExponent]
  simp only [UnpackedFloat.unpack, ← BitVec.toNat_inj]
  by_cases hmax : (@UnpackedFloat.unpackExponent .binary64 w).toNat = 2047
  · by_cases hm : (@UnpackedFloat.unpackMantissa .binary64 w).toNat = 0
    · simp [hmax, hm, ofUnpacked]
    · simp [hmax, hm, ofUnpacked]
  · by_cases hmin : (@UnpackedFloat.unpackExponent .binary64 w).toNat = 0
    · by_cases hm : (@UnpackedFloat.unpackMantissa .binary64 w).toNat = 0
      · simp [hmin, hm, ofUnpacked]
      · simp [hmin, hm, ofUnpacked]
        decide
    · simp [hmax, hmin, ofUnpacked, toNat_one_append]
      decide

/-- **The bits of a double have one of the forms.** -/
theorem canonical_ofFloat (x : Float) : (ofFloat x).Canonical := by
  rw [ofFloat, ofWord_eq]
  generalize x.toBits.toNat = word
  split
  · split <;> trivial
  · split
    · exact ⟨by dsimp only; omega, le_refl _, by dsimp only; omega, .inl rfl⟩
    · exact ⟨by dsimp only; omega, by dsimp only; omega, by dsimp only; omega,
        .inr (Nat.le_add_right _ _)⟩

/-! ### Comparing -/

theorem units_infinity (s : Sign) :
    (ofUnpacked (.infinity s)).units = s.apply Binary.limit := by
  cases s <;> rfl

theorem units_zero (s : Sign) : (ofUnpacked (.zero s)).units = 0 := by
  cases s <;> rfl

theorem units_finite (s : Sign) {m : Nat} (e : Int) (hm : 0 < m) :
    (ofUnpacked (.finite s m e hm)).units = s.apply (Binary.units ⟨m, e⟩) := by
  cases s <;> rfl

/-- What an infinity compares as. -/
theorem compares_infinity (s : Sign) {b : UnpackedFloat} (hb : (ofUnpacked b).Canonical)
    (hnb : b ≠ .notANumber) :
    ∃ o, UnpackedFloat.compare (.infinity s) b = some o ∧
      o.Compares (ofUnpacked (.infinity s)).units (ofUnpacked b).units := by
  have hlimit := Binary.limit_pos
  rw [units_infinity]
  cases b with
  | notANumber => exact absurd rfl hnb
  | infinity t =>
    rw [units_infinity]
    cases s <;> cases t <;> simp only [Sign.apply]
    · exact ⟨.eq, rfl, rfl⟩
    · exact ⟨.lt, rfl, show _ < _ by omega⟩
    · exact ⟨.gt, rfl, show _ < _ by omega⟩
    · exact ⟨.eq, rfl, rfl⟩
  | zero t =>
    rw [units_zero]
    cases s <;> simp only [Sign.apply]
    · exact ⟨.lt, rfl, show _ < _ by omega⟩
    · exact ⟨.gt, rfl, show _ < _ by omega⟩
  | finite t m e hm =>
    have hlt := hb.units_lt_limit
    rw [units_finite]
    cases s <;> cases t <;> simp only [Sign.apply]
    · exact ⟨.lt, rfl, show _ < _ by omega⟩
    · exact ⟨.lt, rfl, show _ < _ by omega⟩
    · exact ⟨.gt, rfl, show _ < _ by omega⟩
    · exact ⟨.gt, rfl, show _ < _ by omega⟩

/-- What a zero compares as. -/
theorem compares_zero (s : Sign) {b : UnpackedFloat} (hnb : b ≠ .notANumber) :
    ∃ o, UnpackedFloat.compare (.zero s) b = some o ∧
      o.Compares (ofUnpacked (.zero s)).units (ofUnpacked b).units := by
  rw [units_zero]
  cases b with
  | notANumber => exact absurd rfl hnb
  | infinity t =>
    have hlimit := Binary.limit_pos
    rw [units_infinity]
    cases t <;> simp only [Sign.apply]
    · exact ⟨.gt, rfl, show _ < _ by omega⟩
    · exact ⟨.lt, rfl, show _ < _ by omega⟩
  | zero t =>
    rw [units_zero]
    exact ⟨.eq, rfl, rfl⟩
  | finite t m e hm =>
    have hpos : 0 < Binary.units ⟨m, e⟩ := Binary.units_pos hm
    rw [units_finite]
    cases t <;> simp only [Sign.apply]
    · exact ⟨.gt, rfl, show _ < _ by omega⟩
    · exact ⟨.lt, rfl, show _ < _ by omega⟩

/-- The order of integers is that of natural numbers. -/
theorem compares_natCast {o : Ordering} {n m : Nat} (h : o.Compares n m) :
    o.Compares (n : Int) (m : Int) := by
  cases o with
  | lt => exact Int.ofNat_lt.2 h
  | eq => exact congrArg Int.ofNat h
  | gt => exact Int.ofNat_lt.2 h

/-- A sign in front turns the order about. -/
theorem compares_neg {o : Ordering} {i j : Int} (h : o.Compares i j) :
    o.swap.Compares (-i) (-j) := by
  cases o with
  | lt => exact Int.neg_lt_neg h
  | eq => exact congrArg Neg.neg h
  | gt => exact Int.neg_lt_neg h

/-- What a finite value that is not zero compares as. -/
theorem compares_finite {s : Sign} {m : Nat} {e : Int} {hm : 0 < m} {b : UnpackedFloat}
    (ha : (ofUnpacked (.finite s m e hm)).Canonical) (hb : (ofUnpacked b).Canonical)
    (hnb : b ≠ .notANumber) :
    ∃ o, UnpackedFloat.compare (.finite s m e hm) b = some o ∧
      o.Compares (ofUnpacked (.finite s m e hm)).units (ofUnpacked b).units := by
  have hpos : 0 < Binary.units ⟨m, e⟩ := Binary.units_pos hm
  rw [units_finite]
  cases b with
  | notANumber => exact absurd rfl hnb
  | infinity t =>
    have hlt := ha.units_lt_limit
    rw [units_infinity]
    cases s <;> cases t <;> simp only [Sign.apply]
    · exact ⟨.gt, rfl, show _ < _ by omega⟩
    · exact ⟨.lt, rfl, show _ < _ by omega⟩
    · exact ⟨.gt, rfl, show _ < _ by omega⟩
    · exact ⟨.lt, rfl, show _ < _ by omega⟩
  | zero t =>
    rw [units_zero]
    cases s <;> simp only [Sign.apply]
    · exact ⟨.lt, rfl, show _ < _ by omega⟩
    · exact ⟨.gt, rfl, show _ < _ by omega⟩
  | finite t n f hn =>
    have hpos' : 0 < Binary.units ⟨n, f⟩ := Binary.units_pos hn
    have hmag := compares_natCast (Binary.Canonical.compares ha hb)
    rw [units_finite]
    cases s <;> cases t <;> simp only [Sign.apply]
    · exact ⟨_, rfl, compares_neg hmag⟩
    · exact ⟨.lt, rfl, show _ < _ by omega⟩
    · exact ⟨.gt, rfl, show _ < _ by omega⟩
    · exact ⟨_, rfl, hmag⟩

/-- **What is a number compares as its units do.** -/
theorem compares_units {a b : UnpackedFloat} (ha : (ofUnpacked a).Canonical)
    (hb : (ofUnpacked b).Canonical) (hna : a ≠ .notANumber) (hnb : b ≠ .notANumber) :
    ∃ o, a.compare b = some o ∧ o.Compares (ofUnpacked a).units (ofUnpacked b).units := by
  cases a with
  | notANumber => exact absurd rfl hna
  | infinity s => exact compares_infinity s hb hnb
  | zero s => exact compares_zero s hnb
  | finite s m e hm => exact compares_finite ha hb hnb

/-- What is no number compares to nothing. -/
theorem compare_eq_none {a b : UnpackedFloat} (h : a = .notANumber ∨ b = .notANumber) :
    a.compare b = none := by
  rcases h with rfl | rfl
  · rfl
  · cases a <;> rfl

end Binary64

/-! ## Doubles -/

namespace Double

open Float.Model (UnpackedFloat)

/-- **A double in units of the least positive one.** -/
def units (x : Float) : Int := (Binary64.ofFloat x).units

variable {x y : Float}

/-- Units are those of the form in which doubles are computed with. -/
theorem units_unpack (x : Float) : units x = (Binary64.ofUnpacked x.toModel.unpack).units := by
  rw [units, Binary64.ofFloat_eq_ofUnpacked]

/-- The form in which doubles are computed with is one of those a double takes. -/
theorem canonical_unpack (x : Float) : (Binary64.ofUnpacked x.toModel.unpack).Canonical := by
  rw [← Binary64.ofFloat_eq_ofUnpacked]
  exact Binary64.canonical_ofFloat x

/-- What is no number is recognised by its form. -/
theorem isNaN_eq_true_iff : x.isNaN = true ↔ x.toModel.unpack = .notANumber :=
  UnpackedFloat.isNaN_iff

/-- **Are both of these numbers?** -/
def Numbers (x y : Float) : Prop := x.isNaN = false ∧ y.isNaN = false

/-- Two numbers have an order, that of their units. -/
theorem Numbers.exists_compare (h : Numbers x y) :
    ∃ o, x.toModel.unpack.compare y.toModel.unpack = some o ∧ o.Compares (units x) (units y) := by
  rw [units_unpack, units_unpack]
  refine Binary64.compares_units (canonical_unpack x) (canonical_unpack y) ?_ ?_
  · exact mt isNaN_eq_true_iff.2 (Bool.eq_false_iff.1 h.1)
  · exact mt isNaN_eq_true_iff.2 (Bool.eq_false_iff.1 h.2)

/-- What is no number has no order. -/
theorem compare_eq_none (h : ¬ Numbers x y) :
    x.toModel.unpack.compare y.toModel.unpack = none := by
  rw [Numbers, Classical.not_and_iff_not_or_not, Bool.not_eq_false, Bool.not_eq_false] at h
  exact Binary64.compare_eq_none (h.imp isNaN_eq_true_iff.1 isNaN_eq_true_iff.1)

/-- **One double is below another.** -/
theorem lt_iff : x < y ↔ Numbers x y ∧ units x < units y := by
  have hlt : x < y ↔ (x.toModel.unpack.compare y.toModel.unpack == some .lt) = true :=
    decide_eq_true_iff
  rw [hlt]
  by_cases h : Numbers x y
  · obtain ⟨o, ho, hc⟩ := h.exists_compare
    simp [ho, h, hc.eq_lt]
  · simp [compare_eq_none h, h]

/-- **One double is at most another.** -/
theorem le_iff : x ≤ y ↔ Numbers x y ∧ units x ≤ units y := by
  have hle : x ≤ y ↔ (x.toModel.unpack.compare y.toModel.unpack).any (·.isLE) = true :=
    decide_eq_true_iff
  rw [hle]
  by_cases h : Numbers x y
  · obtain ⟨o, ho, hc⟩ := h.exists_compare
    simp [ho, h, Ordering.isLE_iff_ne_gt, hc.ne_gt]
  · simp [compare_eq_none h, h]

/-- **Two doubles are equal as numbers.** -/
theorem beq_iff : (x == y) = true ↔ Numbers x y ∧ units x = units y := by
  change (x.toModel.unpack.compare y.toModel.unpack == some .eq) = true ↔ _
  by_cases h : Numbers x y
  · obtain ⟨o, ho, hc⟩ := h.exists_compare
    simp [ho, h, hc.eq_eq]
  · simp [compare_eq_none h, h]

/-- **A double that is a number of units**, and so neither negative nor no number. -/
structure Worth (x : Float) (n : Nat) : Prop where
  isNaN_eq : x.isNaN = false
  units_eq : units x = n

/-- The forms of a double that is not negative, with what they are worth. -/
inductive Shape : UnpackedFloat → Nat → Prop
  | infinity : Shape (.infinity .positive) Binary.limit
  | zero (s : UnpackedFloat.Sign) : Shape (.zero s) 0
  | finite {m : Nat} {e : Int} (hm : 0 < m) (hc : Binary.Canonical ⟨m, e⟩) :
      Shape (.finite .positive m e hm) (Binary.units ⟨m, e⟩)

/-- What is worth a natural number has one of these forms. -/
theorem shape_of_units {a : UnpackedFloat} {n : Nat} (hc : (Binary64.ofUnpacked a).Canonical)
    (hnan : a ≠ .notANumber) (h : (Binary64.ofUnpacked a).units = n) : Shape a n := by
  have hlimit := Binary.limit_pos
  cases a with
  | notANumber => exact absurd rfl hnan
  | infinity s =>
    rw [Binary64.units_infinity] at h
    cases s <;> simp only [UnpackedFloat.Sign.apply] at h
    · omega
    · obtain rfl : Binary.limit = n := by omega
      exact .infinity
  | zero s =>
    rw [Binary64.units_zero] at h
    obtain rfl : 0 = n := by omega
    exact .zero s
  | finite s m e hm =>
    have hpos : 0 < Binary.units ⟨m, e⟩ := Binary.units_pos hm
    rw [Binary64.units_finite] at h
    cases s <;> simp only [UnpackedFloat.Sign.apply] at h
    · omega
    · obtain rfl : Binary.units ⟨m, e⟩ = n := by omega
      exact .finite hm hc

/-- A double that is not negative has one of these forms. -/
theorem Worth.shape {n : Nat} (h : Worth x n) : Shape x.toModel.unpack n := by
  refine shape_of_units (canonical_unpack x) ?_ ?_
  · rw [ne_eq, ← isNaN_eq_true_iff, h.isNaN_eq]
    decide
  · rw [← units_unpack, h.units_eq]

/-- **A double is finite** if it is a number and its units stay below the limit. -/
theorem isFinite_iff :
    x.isFinite = true ↔ x.isNaN = false ∧ (units x).natAbs < Binary.limit := by
  have hx := canonical_unpack x
  rw [units_unpack]
  change x.toModel.unpack.isFinite = true ↔ x.toModel.unpack.isNaN = false ∧ _
  generalize x.toModel.unpack = a at hx ⊢
  cases a with
  | notANumber => simp [UnpackedFloat.isFinite, UnpackedFloat.isNaN]
  | infinity s =>
    rw [Binary64.units_infinity]
    cases s <;>
      simp [UnpackedFloat.isFinite, UnpackedFloat.isNaN, UnpackedFloat.Sign.apply]
  | zero s =>
    rw [Binary64.units_zero]
    simp [UnpackedFloat.isFinite, UnpackedFloat.isNaN, Binary.limit_pos]
  | finite s m e hm =>
    have hlt := hx.units_lt_limit
    rw [Binary64.units_finite]
    cases s <;>
      simp [UnpackedFloat.isFinite, UnpackedFloat.isNaN, UnpackedFloat.Sign.apply, hlt]

/-- No double lies beyond the infinities. -/
theorem natAbs_units_le (x : Float) : (units x).natAbs ≤ Binary.limit := by
  have hx := canonical_unpack x
  rw [units_unpack]
  generalize x.toModel.unpack = a at hx ⊢
  cases a with
  | notANumber => exact Nat.zero_le _
  | infinity s => cases s <;> simp [Binary64.units_infinity, UnpackedFloat.Sign.apply]
  | zero s => simp [Binary64.units_zero]
  | finite s m e hm =>
    have hlt := hx.units_lt_limit
    cases s <;> simp [Binary64.units_finite, UnpackedFloat.Sign.apply, hlt.le]

end Double

end LinkQuality
