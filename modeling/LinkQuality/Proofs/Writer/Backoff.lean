import LinkQuality.Proofs.Settings.Check
import LinkQuality.Proofs.Time.Span
import LinkQuality.Writer.Backoff

/-!
# How long the writer waits

The wait after a failed attempt is computed as a double, of any factor whatever: negative, infinite
or no number. What is made a span of it is finite, not below zero and below the double of the
longest wait (`Backoff.exists_worth_bounded?`), and so is no longer than the longest wait itself,
though that double may be either shorter or longer (`Backoff.delayAfter_capped`).

From no wait at all to start with, there is none as long as the power of the factor is finite. The
power of a factor of two or more is infinite in the end, and nothing times infinity is no number,
for which the longest wait stands in (`Backoff.delayAfter_of_base_zero`). When it becomes infinite
is known up to a power of two: repeated squaring keeps the order, and on powers of two it is exact
(`Backoff.exists_worth_power`).
-/

namespace LinkQuality

open Double (Worth rounded_limit_mul worth_one worth_zero)
open Binary (limit one rounded)

namespace Binary

/-! ## Powers of two -/

/-- The units of a power of two as a double, infinite from a certain power on. -/
def twoPow (k : Nat) : Nat := min (2 ^ k * one) limit

/-- The limit is the power of two that no double reaches. -/
theorem exists_limit_eq : ∃ top, top = 1024 ∧ limit = 2 ^ top * one := by
  refine ⟨1024, rfl, ?_⟩
  have hsum : 1024 + depth = 53 + reach := by rw [depth_eq, reach_eq]
  rw [limit, one, ← Nat.pow_add, ← Nat.pow_add, hsum]

theorem twoPow_of_lt {k : Nat} (hk : k < 1024) : twoPow k = 2 ^ k * one ∧ twoPow k < limit := by
  obtain ⟨top, htop, hlimit⟩ := exists_limit_eq
  have hlt : 2 ^ k * one < limit := by
    rw [hlimit]
    exact Nat.mul_lt_mul_of_pos_right (Nat.pow_lt_pow_right (by decide) (htop ▸ hk)) one_pos
  rw [twoPow, Nat.min_eq_left hlt.le]
  exact ⟨rfl, hlt⟩

theorem twoPow_of_le {k : Nat} (hk : 1024 ≤ k) : twoPow k = limit := by
  obtain ⟨top, htop, hlimit⟩ := exists_limit_eq
  refine Nat.min_eq_right ?_
  rw [hlimit]
  exact Nat.mul_le_mul_right _ (Nat.pow_le_pow_right (by decide) (htop ▸ hk))

theorem twoPow_zero : twoPow 0 = one := (twoPow_of_lt (by decide)).1.trans (Nat.one_mul _)

theorem one_le_twoPow (k : Nat) : one ≤ twoPow k :=
  le_min (Nat.le_mul_of_pos_left _ (Nat.two_pow_pos k)) one_lt_limit.le

/-- Powers of two are doubles. -/
theorem rounded_two_pow {den : Nat} (hden : 0 < den) (k : Nat) :
    rounded (2 ^ k * one * den) den = twoPow k := by
  have hexact := nearest_of_lt hden (by decide : 1 < 2 ^ 53) (k + depth)
  rw [Nat.one_mul, Nat.pow_add] at hexact
  rw [rounded, twoPow, one, hexact]

/-- **Powers of two are multiplied exactly.** -/
theorem rounded_twoPow_mul (j k : Nat) : rounded (twoPow j * twoPow k) one = twoPow (j + k) := by
  rcases Nat.lt_or_ge j 1024 with hj | hj
  · rcases Nat.lt_or_ge k 1024 with hk | hk
    · have hprod : 2 ^ j * one * (2 ^ k * one) = 2 ^ (j + k) * one * one := by
        rw [Nat.pow_add]
        ring
      rw [(twoPow_of_lt hj).1, (twoPow_of_lt hk).1, hprod, rounded_two_pow one_pos]
    · rw [twoPow_of_le hk, twoPow_of_le (hk.trans (Nat.le_add_left _ _)), Nat.mul_comm,
        rounded_limit_mul (one_le_twoPow j)]
  · rw [twoPow_of_le hj, twoPow_of_le (hj.trans (Nat.le_add_right _ _)),
      rounded_limit_mul (one_le_twoPow k)]

/-- What is not below one stays so when it is multiplied. -/
theorem one_le_rounded_mul {m n : Nat} (hm : one ≤ m) (hn : one ≤ n) :
    one ≤ rounded (m * n) one := by
  have hone := rounded_twoPow_mul 0 0
  rw [Nat.add_zero, twoPow_zero] at hone
  exact hone.ge.trans (rounded_mono one_pos (Nat.mul_le_mul hm hn))

end Binary

/-- A power of two as a double. -/
theorem Double.worth_ofNat_two_pow (k : Nat) :
    Worth (Float.ofNat (2 ^ k)) (Binary.twoPow k) := by
  have h := Double.worth_ofNat (2 ^ k)
  rwa [← Nat.mul_one (2 ^ k * one), Binary.rounded_two_pow Nat.one_pos] at h

namespace Backoff

/-! ## Powers of factors that are not below one -/

/-- **Repeated squaring, in units.** -/
def powerUnits : Nat → Nat → Nat → Nat → Nat
  | 0, m, _, _ => m
  | bits + 1, m, c, n =>
    powerUnits bits (if n % 2 = 1 then rounded (m * c) one else m) (rounded (c * c) one) (n / 2)

variable {x r : Float} {m m' c c' : Nat}

theorem worth_powerBits (bits n : Nat) (hr : Worth r m) (hx : Worth x c) (hm : one ≤ m)
    (hc : one ≤ c) : Worth (powerBits bits r x n) (powerUnits bits m c n) := by
  induction bits generalizing r x m c n with
  | zero => exact hr
  | succ bits ih =>
    rw [powerBits, powerUnits]
    have hsquare := Double.worth_mul_of_one_le hx hx hc hc
    refine ih (n / 2) ?_ hsquare ?_ (Binary.one_le_rounded_mul hc hc)
    · split
      · exact Double.worth_mul_of_one_le hr hx hm hc
      · exact hr
    · split
      · exact Binary.one_le_rounded_mul hm hc
      · exact hm

/-- **Repeated squaring keeps the order.** -/
theorem powerUnits_mono (bits n : Nat) (hm : m ≤ m') (hc : c ≤ c') :
    powerUnits bits m c n ≤ powerUnits bits m' c' n := by
  induction bits generalizing m m' c c' n with
  | zero => exact hm
  | succ bits ih =>
    refine ih (n / 2) ?_ (Binary.rounded_mono Binary.one_pos (Nat.mul_le_mul hc hc))
    split
    · exact Binary.rounded_mono Binary.one_pos (Nat.mul_le_mul hm hc)
    · exact hm

/-- **Of a power of two it is exact.** What is left of the exponent raises what has been squared so
far, and that and the result make up the power. -/
theorem powerUnits_twoPow (bits j k n : Nat) (hn : n < 2 ^ bits) :
    powerUnits bits (Binary.twoPow j) (Binary.twoPow k) n = Binary.twoPow (j + k * n) := by
  induction bits generalizing j k n with
  | zero =>
    obtain rfl : n = 0 := Nat.lt_one_iff.mp hn
    rfl
  | succ bits ih =>
    have hhalf : n / 2 < 2 ^ bits := by
      rw [Nat.pow_succ] at hn
      omega
    rw [powerUnits, Binary.rounded_twoPow_mul, Binary.rounded_twoPow_mul]
    split
    next hodd =>
      calc powerUnits bits (Binary.twoPow (j + k)) (Binary.twoPow (k + k)) (n / 2)
          = Binary.twoPow (j + k + (k + k) * (n / 2)) := ih _ _ _ hhalf
        _ = Binary.twoPow (j + k * (2 * (n / 2) + n % 2)) := by rw [hodd]; ring_nf
        _ = Binary.twoPow (j + k * n) := by rw [Nat.div_add_mod]
    next heven =>
      have hrest : n % 2 = 0 := Nat.mod_two_not_eq_one.mp heven
      calc powerUnits bits (Binary.twoPow j) (Binary.twoPow (k + k)) (n / 2)
          = Binary.twoPow (j + (k + k) * (n / 2)) := ih _ _ _ hhalf
        _ = Binary.twoPow (j + k * (2 * (n / 2) + n % 2)) := by rw [hrest]; ring_nf
        _ = Binary.twoPow (j + k * n) := by rw [Nat.div_add_mod]

/-- **The power of a factor that is not below one**, between powers of two. -/
theorem exists_worth_power (hx : Worth x c) (hc : one ≤ c) (n : Nat) :
    ∃ p, Worth (power x n) p ∧ (∀ k, c ≤ Binary.twoPow k → p ≤ Binary.twoPow (k * n)) ∧
      ∀ k, Binary.twoPow k ≤ c → Binary.twoPow (k * n) ≤ p := by
  have hexact (k : Nat) :
      powerUnits (n.log2 + 1) one (Binary.twoPow k) n = Binary.twoPow (k * n) := by
    have h := powerUnits_twoPow (n.log2 + 1) 0 k n Nat.lt_log2_self
    rwa [Binary.twoPow_zero, Nat.zero_add] at h
  refine ⟨_, worth_powerBits _ n worth_one hx le_rfl hc, fun k hk => ?_, fun k hk => ?_⟩
  · exact (powerUnits_mono _ n le_rfl hk).trans_eq (hexact k)
  · exact (hexact k).ge.trans (powerUnits_mono _ n le_rfl hk)

/-! ## The longest wait -/

variable {b : Backoff} {attempt : Nat}

/-- **What is made a span is a finite number of seconds that is not below zero**, is not longer than
the double of the longest wait, and not longer than the longest wait either. -/
theorem exists_worth_bounded? (h : b.bounded? attempt = some x) :
    ∃ n < limit, Worth x n ∧ n ≤ b.longest.units ∧
      n * 1000000000 ≤ b.longest.nanoseconds * one := by
  have hlongest := b.longest.worth_toFloat
  obtain ⟨s, hs⟩ : ∃ s, s = b.seconds attempt := ⟨_, rfl⟩
  rw [bounded?, ← hs] at h
  simp only [Option.ite_none_left_eq_some, Bool.or_eq_true, Bool.not_eq_true', decide_eq_true_iff,
    not_or, Bool.not_eq_false, Option.some.injEq] at h
  obtain ⟨⟨hfinite, hbelow⟩, rfl⟩ := h
  split
  next => exact ⟨0, Binary.limit_pos, worth_zero, Nat.zero_le _, by simp⟩
  next hpos =>
    have hnan := (Double.isFinite_iff.mp hfinite).1
    have hunits : 0 ≤ Double.units s := by
      rw [Double.lt_iff, worth_zero.units_eq] at hpos
      exact not_lt.mp fun hneg => hpos ⟨⟨hnan, worth_zero.isNaN_eq⟩, hneg⟩
    obtain ⟨n, hn⟩ := Double.exists_worth hnan hunits
    have hlt : n < b.longest.units := not_le.mp fun hle => hbelow ((hlongest.le_iff hn).mpr hle)
    exact ⟨n, hn.isFinite_iff.mp hfinite, hn, hlt.le, Span.mul_le_of_lt_units hn.shape hlt⟩

/-- **No wait is longer than the longest, and none fails to be computed.** A wait that is not the
longest one itself is made of a number of seconds that is finite, not below zero, not above the
longest wait in seconds, and has a span. The longest wait is any span whose whole seconds fit into
64 bits. -/
theorem delayAfter_capped (h : b.longest.seconds < 2 ^ 64) (attempt : Nat) :
    b.delayAfter attempt ≤ b.longest ∧
      ∀ x, b.bounded? attempt = some x →
        x.isFinite = true ∧ 0 ≤ x ∧ x ≤ b.longest.toFloat ∧
          Span.ofFloat? x = some (b.delayAfter attempt) := by
  rw [delayAfter]
  cases hbounded : b.bounded? attempt with
  | none => exact ⟨Nat.le_refl _, fun x hx => absurd hx (by simp)⟩
  | some y =>
    obtain ⟨n, hlt, hn, hunits, hle⟩ := exists_worth_bounded? hbounded
    obtain ⟨t, ht, hshort⟩ := Span.exists_ofFloat?_of_le hn hle h
    dsimp only
    rw [ht]
    refine ⟨hshort, fun x hx => ?_⟩
    obtain rfl : y = x := Option.some.inj hx
    exact ⟨hn.isFinite_iff.mpr hlt, (worth_zero.le_iff hn).mpr (Nat.zero_le _),
      (hn.le_iff b.longest.worth_toFloat).mpr hunits, ht⟩

/-- The longest span there is as the longest wait, whose double is longer than it. -/
theorem delayAfter_capped_max :
    let b : Backoff := ⟨3, .ofSeconds 1, 2, ⟨18446744073709551615999999999⟩⟩
    b.longest.seconds < 2 ^ 64 ∧ (b.bounded? 2).isSome = true ∧
      b.delayAfter 2 ≤ b.longest ∧
      ∀ x, b.bounded? 2 = some x → x.isFinite = true ∧ 0 ≤ x ∧ x ≤ b.longest.toFloat ∧
        Span.ofFloat? x = some (b.delayAfter 2) :=
  ⟨by decide, by decide +kernel, delayAfter_capped (by decide) 2⟩

/-! ## No wait to start from -/

/-- The product of no seconds and a finite power is no wait. -/
theorem delayAfter_of_worth_zero (h : Worth (b.seconds attempt) 0) :
    b.delayAfter attempt = .zero := by
  have hfinite : (b.seconds attempt).isFinite = true := h.isFinite_iff.mpr Binary.limit_pos
  have hneg : ¬ b.seconds attempt < 0 := by
    rw [Double.lt_iff, h.units_eq, worth_zero.units_eq]
    exact fun hlt => lt_irrefl _ hlt.2
  rw [delayAfter, bounded?, hfinite]
  simp only [Bool.not_true, Bool.false_or, decide_eq_true_iff, if_neg hneg]
  split_ifs with hle
  · have hunits := (b.longest.worth_toFloat.le_iff h).mp hle
    exact Span.units_eq_zero_iff.mp (Nat.le_zero.mp hunits)
  · have hspan := Span.ofFloat?_of_worth h (Nat.mul_pos (by decide) Binary.one_pos)
    have hround := Binary.roundHalfEven_mul_right Binary.one_pos 0
    rw [Nat.zero_mul] at hspan hround
    change (Span.ofFloat? (b.seconds attempt)).getD b.longest = .zero
    rw [hspan, hround]
    rfl

/-- For what is no finite number of seconds the longest wait stands in. -/
theorem delayAfter_of_not_isFinite (h : (b.seconds attempt).isFinite = false) :
    b.delayAfter attempt = b.longest := by
  rw [delayAfter, bounded?, h]
  rfl

/-- A factor that is accepted, in units. -/
theorem exists_worth_factor {s : WriterSettings} (h : s.Sound) :
    ∃ c, Worth s.retryMultiplier c ∧ one ≤ c := by
  have hle := h.one_le_multiplier
  rw [Double.le_iff, worth_one.units_eq] at hle
  obtain ⟨c, hc⟩ := Double.exists_worth hle.1.2 ((Int.natCast_nonneg _).trans hle.2)
  rw [hc.units_eq, Int.ofNat_le] at hle
  exact ⟨c, hc, hle.2⟩

/-- **No wait to start from is no wait as long as the power of the factor is finite**, and from then
on it is the longest wait.

A factor that is at most the `k`-th power of two is raised to a finite power as long as `k` times
the exponent is below 1024, and a factor that is at least that is not from there on. So it is never
waited with a factor of one, and in the end it is with a factor of two or more. -/
theorem delayAfter_of_base_zero {s : WriterSettings} (h : s.check = .ok ())
    (hbase : s.retryBaseDelay = .zero) (attempt : Nat) :
    let b := ofSettings s
    let exponent := min (attempt - 1) largestExponent
    b.delayAfter attempt =
        (if (power s.retryMultiplier exponent).isFinite then .zero else s.maxRetryDelay) ∧
      (∀ k, s.retryMultiplier ≤ Float.ofNat (2 ^ k) → k * exponent < 1024 →
        b.delayAfter attempt = .zero) ∧
      ∀ k, Float.ofNat (2 ^ k) ≤ s.retryMultiplier → 1024 ≤ k * exponent →
        b.delayAfter attempt = s.maxRetryDelay := by
  intro b exponent
  obtain ⟨c, hfactor, hone⟩ := exists_worth_factor (WriterSettings.check_eq_ok_iff.mp h)
  obtain ⟨p, hpower, hupper, hlower⟩ := exists_worth_power hfactor hone exponent
  have hzero : Worth b.base.toFloat 0 := by
    have hunits : s.retryBaseDelay.units = 0 := Span.units_eq_zero_iff.mpr hbase
    exact hunits ▸ s.retryBaseDelay.worth_toFloat
  have hproduct : b.seconds attempt = b.base.toFloat * power s.retryMultiplier exponent := rfl
  have hfinite (hlt : p < limit) : b.delayAfter attempt = .zero := by
    refine delayAfter_of_worth_zero ?_
    have hmul := Double.worth_mul hzero hpower Binary.limit_pos hlt
    rwa [Nat.zero_mul, Double.rounded_zero Binary.one_pos, ← hproduct] at hmul
  have hinfinite (hlimit : p = limit) : b.delayAfter attempt = s.maxRetryDelay := by
    refine delayAfter_of_not_isFinite ?_
    rw [hlimit] at hpower
    rw [hproduct]
    exact Double.isFinite_zero_mul_infinity hzero hpower
  refine ⟨?_, fun k hk hlt => ?_, fun k hk hle => ?_⟩
  · split
    next hp => exact hfinite (hpower.isFinite_iff.mp hp)
    next hp =>
      refine hinfinite (le_antisymm hpower.shape.le_limit ?_)
      exact not_lt.mp fun hlt => hp (hpower.isFinite_iff.mpr hlt)
  · have hle := hupper k ((hfactor.le_iff (Double.worth_ofNat_two_pow k)).mp hk)
    exact hfinite (hle.trans_lt (Binary.twoPow_of_lt hlt).2)
  · have hge := hlower k (((Double.worth_ofNat_two_pow k).le_iff hfactor).mp hk)
    rw [Binary.twoPow_of_le hle] at hge
    exact hinfinite (le_antisymm hpower.shape.le_limit hge)

/-- Doubling no wait, up to the last power of two that is a double. -/
theorem delayAfter_of_base_zero_doubled :
    let s : WriterSettings := { retryBaseDelay := .zero }
    s.check = .ok () ∧ s.retryBaseDelay = .zero ∧ s.retryMultiplier ≤ Float.ofNat (2 ^ 1) ∧
      1 * min (1024 - 1) largestExponent < 1024 ∧ (ofSettings s).delayAfter 1024 = .zero := by
  have hcheck : WriterSettings.check { retryBaseDelay := .zero } = .ok () := rfl
  have hfactor : (2 : Float) ≤ Float.ofNat (2 ^ 1) := by decide +kernel
  exact ⟨hcheck, rfl, hfactor, by decide,
    (delayAfter_of_base_zero hcheck rfl 1024).2.1 1 hfactor (by decide)⟩

/-- **And after the next attempt it is waited**, in a schedule that is accepted and gets there. -/
theorem not_delayAfter_zero_after_overflow :
    let s : WriterSettings := { retryBaseDelay := .zero, maxAttempts := 2000 }
    s.check = .ok () ∧ (ofSettings s).retries 1025 = true ∧
      (ofSettings s).delayAfter 1025 = .ofSeconds 30 ∧ Span.ofSeconds 30 ≠ .zero :=
  ⟨rfl, by decide +kernel, by decide +kernel, by decide⟩

end Backoff

end LinkQuality
