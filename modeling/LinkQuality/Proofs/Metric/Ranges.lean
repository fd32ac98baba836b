import LinkQuality.Proofs.Decimal.Arithmetic
import LinkQuality.Proofs.Metric.Partition

/-!
# The ranges of a minute's means

The latency and the jitter of a sample are amounts, finite and not negative, and its loss is a share
of the whole. A mean is the running sum of a value divided by the number of samples
(`mean_eq`), and in units (`Double.Worth`) both ranges are intervals that start at zero, so it is
enough to bound it from above.

A sum is rounded at every step, and each of these roundings can be upwards. It cannot run away: of
values worth at most `2 ^ j` units, `k` add up to at most `k * 2 ^ j` units as long as that is
itself a double, and from `2 ^ 53 * 2 ^ j` units on one value more is at most half of what a double
can tell there, and is rounded away to the even side (`worth_total_le`). The number of samples, made
a double, is not below the same bound (`exists_worth_length`), so a mean of shares is a share of
however many samples (`isShare_mean`).

For amounts the bound shows the sum to be finite if no value is enormous (`isFinite_total`). The
largest doubles do add up to infinity, of which the mean is infinite too (`isAmount_mean`).
-/

namespace LinkQuality

open Double (Worth exists_worth worth_one worth_zero)
open Binary (one limit rounded)

/-! ## The ranges in units -/

/-- **An amount is worth fewer units than the limit.** -/
theorem isAmount_iff {x : Float} : isAmount x = true ↔ ∃ n < limit, Worth x n := by
  have hzero := worth_zero
  rw [isAmount, Bool.and_eq_true, Bool.not_eq_true', decide_eq_false_iff_not, Double.lt_iff,
    hzero.units_eq]
  constructor
  · rintro ⟨hfinite, hneg⟩
    have hnan := (Double.isFinite_iff.mp hfinite).1
    obtain ⟨n, hn⟩ := exists_worth hnan (not_lt.mp fun h => hneg ⟨⟨hnan, hzero.isNaN_eq⟩, h⟩)
    exact ⟨n, hn.isFinite_iff.mp hfinite, hn⟩
  · rintro ⟨n, hlt, hn⟩
    refine ⟨hn.isFinite_iff.mpr hlt, fun h => ?_⟩
    have := h.2
    rw [hn.units_eq] at this
    omega

/-- **A share is worth no more units than the number one.** -/
theorem isShare_iff {x : Float} : isShare x = true ↔ ∃ n ≤ one, Worth x n := by
  have hzero := worth_zero
  have hone := worth_one
  rw [isShare, Bool.and_eq_true, decide_eq_true_iff, decide_eq_true_iff, Double.le_iff,
    Double.le_iff, hzero.units_eq, hone.units_eq]
  constructor
  · rintro ⟨⟨⟨-, hnan⟩, hpos⟩, -, hle⟩
    obtain ⟨n, hn⟩ := exists_worth hnan hpos
    rw [hn.units_eq] at hle
    exact ⟨n, by omega, hn⟩
  · rintro ⟨n, hle, hn⟩
    rw [hn.units_eq]
    exact ⟨⟨⟨hzero.isNaN_eq, hn.isNaN_eq⟩, by omega⟩, ⟨hn.isNaN_eq, hone.isNaN_eq⟩, by omega⟩

/-- The check passes if both amounts and the share are in their ranges. -/
theorem checkRanges_eq_ok_iff {latency loss jitter : Float} :
    checkRanges latency loss jitter = .ok () ↔
      isAmount latency = true ∧ isAmount jitter = true ∧ isShare loss = true := by
  rw [checkRanges]
  split_ifs <;> simp_all

/-! ## Running sums -/

/-- **The sum of a value over samples**, added up in order and rounded at each step. -/
def total (value : Sample → Float) (samples : List Sample) : Float :=
  samples.foldl (fun sum s => sum + value s) 0

/-- A mean is a sum divided by the number of samples. -/
theorem mean_eq (value : Sample → Float) (samples : List Sample) :
    mean value samples = total value samples / Float.ofNat samples.length := rfl

variable {value : Sample → Float} {samples : List Sample}

/-- The last sample is added to the sum of the others. -/
theorem total_concat (value : Sample → Float) (samples : List Sample) (s : Sample) :
    total value (samples ++ [s]) = total value samples + value s := by
  rw [total, List.foldl_append]
  rfl

/-- The sum of values that are not negative is not negative. -/
theorem exists_worth_total (h : ∀ s ∈ samples, ∃ n, Worth (value s) n) :
    ∃ n, Worth (total value samples) n := by
  induction samples using List.reverseRecOn with
  | nil => exact ⟨0, worth_zero⟩
  | append_singleton samples s ih =>
    obtain ⟨n, hn⟩ := ih fun t ht => h t (List.mem_append_left _ ht)
    obtain ⟨m, hm⟩ := h s (by simp)
    exact ⟨_, total_concat value samples s ▸ Double.worth_add hn hm⟩

/-! ### What a running sum cannot exceed -/

/-- **Fifty-three bits are kept**, and so is the power of two that follows them. -/
theorem rounded_of_le {m j : Nat} (hm : m ≤ 2 ^ 53) (hj : j ≤ Binary.reach) :
    rounded (m * 2 ^ j) 1 = m * 2 ^ j := by
  have hlimit : m * 2 ^ j ≤ limit :=
    Nat.mul_le_mul hm (Nat.pow_le_pow_right (by decide) hj)
  rcases hm.lt_or_eq with hlt | rfl
  · have h := Binary.rounded_of_lt Nat.one_pos hlt hlimit
    rwa [Nat.mul_one] at h
  · -- One bit more than are kept, but it is the place that grows.
    have hsplit : 2 ^ 53 * 2 ^ j = 2 ^ 52 * 2 ^ (j + 1) := by ring
    rw [hsplit] at hlimit ⊢
    have h := Binary.rounded_of_lt Nat.one_pos (Nat.pow_lt_pow_right (by decide) (by decide)) hlimit
    rwa [Nat.mul_one] at h

/-- **One more than fifty-three bits can tell is rounded away**: of the two doubles it lies between,
the lower is the even one. -/
theorem rounded_two_pow_add_one (j : Nat) : rounded ((2 ^ 53 + 1) * 2 ^ j) 1 ≤ 2 ^ 53 * 2 ^ j := by
  have hhalf : (2 ^ 53 + 1) * 2 ^ j = 2 ^ 52 * 2 ^ (j + 1) + 2 ^ j := by ring
  have heven : 2 * 2 ^ j = 2 ^ (j + 1) ∧ 2 ^ 52 % 2 = 0 := ⟨by ring, by decide⟩
  rw [hhalf]
  calc rounded (2 ^ 52 * 2 ^ (j + 1) + 2 ^ j) 1
      ≤ 2 ^ 52 * 2 ^ (j + 1) := Binary.rounded_add_le (by decide) (by decide) (.inr heven)
    _ = 2 ^ 53 * 2 ^ j := by ring

/-- What is counted so far, and one step more, after rounding. -/
theorem rounded_step_le {j k n : Nat} (hj : j ≤ Binary.reach)
    (hn : n ≤ min k (2 ^ 53) * 2 ^ j + 2 ^ j) :
    rounded n 1 ≤ min (k + 1) (2 ^ 53) * 2 ^ j := by
  rw [← Nat.succ_mul] at hn
  refine (Binary.rounded_mono Nat.one_pos hn).trans ?_
  rcases Nat.lt_or_ge k (2 ^ 53) with hk | hk
  · rw [Nat.min_eq_left hk.le, Nat.min_eq_left hk]
    exact (rounded_of_le hk hj).le
  · rw [Nat.min_eq_right hk, Nat.min_eq_right (hk.trans (Nat.le_succ k))]
    exact rounded_two_pow_add_one j

/-- **A sum of values each worth at most `2 ^ j` units is worth at most that for each of them**, and
grows no further than to `2 ^ 53` times as much. -/
theorem worth_total_le {j : Nat} (hj : j ≤ Binary.reach)
    (h : ∀ s ∈ samples, ∃ m ≤ 2 ^ j, Worth (value s) m) :
    ∃ n ≤ min samples.length (2 ^ 53) * 2 ^ j, Worth (total value samples) n := by
  induction samples using List.reverseRecOn with
  | nil => exact ⟨0, Nat.zero_le _, worth_zero⟩
  | append_singleton samples s ih =>
    obtain ⟨n, hle, hn⟩ := ih fun t ht => h t (List.mem_append_left _ ht)
    obtain ⟨m, hm, hs⟩ := h s (by simp)
    rw [total_concat, List.length_append, List.length_singleton]
    exact ⟨_, rounded_step_le hj (Nat.add_le_add hle hm), Double.worth_add hn hs⟩

/-! ### Means -/

/-- A number of samples as a double: no less than their number, as far as a sum counts them. -/
theorem exists_worth_length (samples : List Sample) :
    ∃ d, min samples.length (2 ^ 53) * one ≤ d ∧ Worth (Float.ofNat samples.length) d := by
  refine ⟨_, ?_, Double.worth_ofNat samples.length⟩
  rw [one, ← rounded_of_le (Nat.min_le_right samples.length (2 ^ 53)) Binary.depth_lt_reach.le]
  exact Binary.rounded_mono Nat.one_pos (Nat.mul_le_mul_right _ (Nat.min_le_left _ _))

/-- **The mean of samples whose sum is finite**: no more than any double that the sum is at most
as many times as there are samples. -/
theorem exists_worth_mean {n : Nat} (hn : Worth (total value samples) n) (hfinite : n < limit)
    (hne : samples ≠ []) :
    ∃ m, Worth (mean value samples) m ∧ m ≤ n ∧
      (n ≤ min samples.length (2 ^ 53) * one → m ≤ one) := by
  rw [mean_eq]
  obtain ⟨d, hle, hlength⟩ := exists_worth_length samples
  have hone : one ≤ d := by
    have hpos : 1 ≤ min samples.length (2 ^ 53) :=
      Nat.le_min.mpr ⟨List.length_pos_iff.mpr hne, by decide⟩
    calc one = 1 * one := (Nat.one_mul one).symm
      _ ≤ min samples.length (2 ^ 53) * one := Nat.mul_le_mul_right _ hpos
      _ ≤ d := hle
  obtain ⟨m, hm, hbound⟩ :=
    Double.exists_worth_div hn hfinite hlength (Binary.one_pos.trans_le hone)
  refine ⟨m, hm, hbound hn (Nat.mul_le_mul_left n hone), fun hshare => ?_⟩
  refine hbound worth_one ?_
  rw [Nat.mul_comm]
  exact Nat.mul_le_mul_left one (hshare.trans hle)

/-- **A mean of amounts is an amount just if their sum is finite.** -/
theorem isAmount_mean (hne : samples ≠ []) (h : ∀ s ∈ samples, isAmount (value s) = true) :
    isAmount (mean value samples) = (total value samples).isFinite := by
  obtain ⟨n, hn⟩ := exists_worth_total fun s hs => (isAmount_iff.mp (h s hs)).imp fun _ => And.right
  rcases hn.shape.le_limit.lt_or_eq with hlt | rfl
  · obtain ⟨m, hm, hle, -⟩ := exists_worth_mean hn hlt hne
    rw [isAmount_iff.mpr ⟨m, hle.trans_lt hlt, hm⟩, hn.isFinite_iff.mpr hlt]
  · have hmean : (mean value samples).isFinite = false := by
      rw [mean_eq]
      exact Double.isFinite_infinity_div hn _
    have htotal : (total value samples).isFinite = false :=
      Bool.eq_false_iff.mpr (mt hn.isFinite_iff.mp (lt_irrefl limit))
    rw [isAmount, hmean, Bool.false_and, htotal]

/-- What sums of values below some bound cannot exceed is below the limit. -/
theorem min_mul_lt_limit {j : Nat} (hj : j < Binary.reach) (k : Nat) :
    min k (2 ^ 53) * 2 ^ j < limit :=
  calc min k (2 ^ 53) * 2 ^ j ≤ 2 ^ 53 * 2 ^ j := Nat.mul_le_mul_right _ (Nat.min_le_right _ _)
    _ < limit :=
      Nat.mul_lt_mul_of_pos_left (Nat.pow_lt_pow_right (by decide) hj) (Nat.two_pow_pos 53)

/-- **A mean of shares is a share**, of however many samples: where the sum stops growing the number
of samples does not. -/
theorem isShare_mean (hne : samples ≠ []) (h : ∀ s ∈ samples, isShare (value s) = true) :
    isShare (mean value samples) = true := by
  have hdepth := Binary.depth_lt_reach
  obtain ⟨n, hle, hn⟩ := worth_total_le hdepth.le fun s hs => isShare_iff.mp (h s hs)
  obtain ⟨m, hm, -, hone⟩ := exists_worth_mean hn (hle.trans_lt (min_mul_lt_limit hdepth _)) hne
  exact isShare_iff.mpr ⟨m, hone hle, hm⟩

/-- An enormous double, and yet `2 ^ 56` times smaller than the limit. -/
theorem units_1e291 : ∃ j < Binary.reach, Double.units 1e291 ≤ (2 ^ j : Nat) := by
  have hbits : (1e291 : Float) = .ofBits 0x7c59a742461887f6 := by decide +kernel
  have hunpack : (Float.ofBits 0x7c59a742461887f6).toModel.unpack =
      .finite .positive 7220777503459318 914 (by decide) := rfl
  obtain ⟨k, hk⟩ : ∃ k, (914 + 1074 : Int).toNat = k := ⟨_, rfl⟩
  refine ⟨53 + k, by rw [Binary.reach_eq, ← hk]; decide, ?_⟩
  rw [hbits, Double.units_unpack, hunpack, Binary64.units_finite]
  refine Int.ofNat_le.mpr ?_
  rw [Binary.units, hk, Nat.pow_add]
  exact Nat.mul_le_mul_right _ (by decide)

/-- **Values that are not enormous have a finite sum**, of however many samples. -/
theorem isFinite_total (h : ∀ s ∈ samples, isAmount (value s) = true ∧ value s ≤ 1e291) :
    (total value samples).isFinite = true := by
  obtain ⟨j, hj, hbound⟩ := units_1e291
  have hvalues : ∀ s ∈ samples, ∃ m ≤ 2 ^ j, Worth (value s) m := by
    intro s hs
    obtain ⟨hamount, hle⟩ := h s hs
    obtain ⟨m, -, hm⟩ := isAmount_iff.mp hamount
    have hunits := (Double.le_iff.mp hle).2
    rw [hm.units_eq] at hunits
    exact ⟨m, Int.ofNat_le.mp (hunits.trans hbound), hm⟩
  obtain ⟨n, hle, hn⟩ := worth_total_le hj.le hvalues
  exact hn.isFinite_iff.mpr (hle.trans_lt (min_mul_lt_limit hj _))

/-! ## The records of minutes -/

/-- **The range check of the record of a minute**, of samples that pass the check.

* The mean loss is in its range.
* The check fails just where a sum has overflowed: the mean latency is reported if the sum of the
  latencies is not finite, and else the mean jitter if that of the jitters is not.
* It passes if no latency and no jitter is enormous, however many samples there are. -/
theorem checkRanges_ofSummary {samples : List Sample}
    (h : ∀ s ∈ samples, checkRanges s.latency s.loss s.jitter = .ok ())
    {e : Summary} (he : e ∈ summarise samples) (node probe : String) :
    let r := Record.ofSummary node probe e
    let group := inMinute e.time samples
    isShare r.loss = true ∧
      checkRanges r.latency r.loss r.jitter =
        (if !(total Sample.latency group).isFinite then .error (.latency r.latency)
          else if !(total Sample.jitter group).isFinite then .error (.jitter r.jitter)
          else .ok ()) ∧
      ((∀ s ∈ group, s.latency ≤ 1e291 ∧ s.jitter ≤ 1e291) →
        checkRanges r.latency r.loss r.jitter = .ok ()) := by
  intro r group
  have hsums := sumsUp_of_mem he
  have hne : group ≠ [] := (mem_summarise.mp he).1
  have hranges : ∀ s ∈ group,
      isAmount s.latency = true ∧ isAmount s.jitter = true ∧ isShare s.loss = true := fun s hs =>
    checkRanges_eq_ok_iff.mp (h s (List.mem_of_mem_filter hs))
  have hlatency : isAmount r.latency = (total Sample.latency group).isFinite := by
    rw [← isAmount_mean hne fun s hs => (hranges s hs).1]
    exact congrArg isAmount hsums.latencyMean_eq
  have hjitter : isAmount r.jitter = (total Sample.jitter group).isFinite := by
    rw [← isAmount_mean hne fun s hs => (hranges s hs).2.1]
    exact congrArg isAmount hsums.jitterMean_eq
  have hloss : isShare r.loss = true := by
    rw [← isShare_mean hne fun s hs => (hranges s hs).2.2]
    exact congrArg isShare hsums.lossMean_eq
  refine ⟨hloss, ?_, fun hsmall => checkRanges_eq_ok_iff.mpr ⟨?_, ?_, hloss⟩⟩
  · rw [checkRanges, hlatency, hjitter, hloss]
    rfl
  · rw [hlatency]
    exact isFinite_total fun s hs => ⟨(hranges s hs).1, (hsmall s hs).1⟩
  · rw [hjitter]
    exact isFinite_total fun s hs => ⟨(hranges s hs).2.1, (hsmall s hs).2⟩

/-- The record of two ordinary samples passes the check. -/
theorem checkRanges_ofSummary_two :
    ∃ e ∈ summarise [.delayed 0 3, .delayed 1 7],
      checkRanges (Record.ofSummary "a" "" e).latency (Record.ofSummary "a" "" e).loss
        (Record.ofSummary "a" "" e).jitter = .ok () := by
  have hsome : (summarise [.delayed 0 3, .delayed 1 7]).length ≠ 0 := by decide +kernel
  obtain ⟨e, he⟩ := List.exists_mem_of_length_pos (Nat.pos_of_ne_zero hsome)
  refine ⟨e, he, (checkRanges_ofSummary ?_ he "a" "").2.2 fun s hs => ?_⟩
  · simp only [checkRanges_eq_ok_iff]
    decide +kernel
  · have hall : ∀ s ∈ [Sample.delayed 0 3, .delayed 1 7], s.latency ≤ 1e291 ∧ s.jitter ≤ 1e291 := by
      decide +kernel
    exact hall s (List.mem_of_mem_filter hs)

/-- **A sum may overflow though no sample is out of range**: the mean of two equal latencies is
infinite, and the check that both have passed refuses it. -/
theorem not_checkRanges_after_overflow :
    (∀ s ∈ [Sample.delayed 0 1.7e308, .delayed 1 1.7e308],
        checkRanges s.latency s.loss s.jitter = .ok ()) ∧
      ∃ e ∈ summarise [.delayed 0 1.7e308, .delayed 1 1.7e308],
        (Record.ofSummary "a" "" e).latency = 1 / 0 ∧
          checkRanges (Record.ofSummary "a" "" e).latency (Record.ofSummary "a" "" e).loss
            (Record.ofSummary "a" "" e).jitter ≠ .ok () := by
  simp only [ne_eq, checkRanges_eq_ok_iff]
  decide +kernel

end LinkQuality
