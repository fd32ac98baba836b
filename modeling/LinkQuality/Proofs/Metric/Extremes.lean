import LinkQuality.Proofs.Decimal.Units
import LinkQuality.Proofs.Metric.Partition

/-!
# The least and the greatest latency

The least latency of a minute is found by keeping the lesser of two at each sample, starting from
infinity, and passing over what is no number. Counted in units (`Double.units`) that is the minimum
of integers: the outcome is one of the latencies, none is below it, and it does not depend on their
order (`IsFirst.of_perm`). The greatest is found in the same way with the order turned about, so
both are cases of keeping the one of two that comes first by some rank, the units or their opposite
(`isFirst_foldl`).

The start comes last by rank, so it is kept only where there is no number, or where the numbers are
equal to it. The two zeros have the same units, which is why all of this holds of doubles as numbers
and not of their bits.
-/

namespace LinkQuality

open Double (units)

/-! ## Keeping the first by rank -/

/-- The one of two doubles that is kept: the second if it beats the first, or if the first is no
number. -/
def kept (beats : Float → Float → Bool) (a b : Float) : Float :=
  if a.isNaN || beats b a then b else a

/-- **A comparison of numbers by their rank.** -/
def ByRank (rank : Float → Int) (beats : Float → Float → Bool) : Prop :=
  ∀ a b, beats b a = true ↔ Double.Numbers b a ∧ rank b < rank a

/-- **The first by rank** of some doubles that may be no numbers. -/
structure IsFirst (rank : Float → Int) (x : Float) (xs : List Float) : Prop where
  isNaN_eq : x.isNaN = false
  mem : x ∈ xs
  le : ∀ y ∈ xs, y.isNaN = false → rank x ≤ rank y

section Rank

variable {rank : Float → Int} {beats : Float → Float → Bool} {x y start : Float}
  {xs ys : List Float}

/-- Of two doubles the first of which is a number, the first by rank is kept. -/
theorem ByRank.isFirst_kept (h : ByRank rank beats) (hx : x.isNaN = false) (y : Float) :
    IsFirst rank (kept beats x y) [x, y] := by
  rw [kept, hx, Bool.false_or]
  by_cases hb : beats y x = true
  · obtain ⟨⟨hy, -⟩, hlt⟩ := (h x y).mp hb
    rw [if_pos hb]
    exact
      { isNaN_eq := hy
        mem := List.mem_cons_of_mem _ (List.mem_singleton_self y)
        le := by simp [hlt.le] }
  · rw [if_neg hb]
    exact
      { isNaN_eq := hx
        mem := List.mem_cons_self ..
        le := by
          have hle : y.isNaN = false → rank x ≤ rank y := fun hy =>
            not_lt.mp fun hlt => hb ((h x y).mpr ⟨⟨hy, hx⟩, hlt⟩)
          simpa using hle }

/-- **Keeping one of two all along finds the first by rank** of the start and what follows it. -/
theorem ByRank.isFirst_foldl (h : ByRank rank beats) (hstart : start.isNaN = false)
    (xs : List Float) : IsFirst rank (xs.foldl (kept beats) start) (start :: xs) := by
  induction xs generalizing start with
  | nil => exact ⟨hstart, List.mem_singleton_self _, by simp⟩
  | cons x xs ih =>
    have hkept := h.isFirst_kept hstart x
    have hrest := ih hkept.isNaN_eq
    have hle := hrest.le _ (List.mem_cons_self ..) hkept.isNaN_eq
    refine ⟨hrest.isNaN_eq, ?_, fun y hy hnum => ?_⟩
    · rcases List.mem_cons.mp hrest.mem with heq | hmem
      · rw [List.foldl_cons, heq]
        exact List.mem_append_left xs hkept.mem
      · exact List.mem_append_right [start, x] hmem
    · rcases List.mem_append.mp (show y ∈ [start, x] ++ xs from hy) with hy | hy
      · exact hle.trans (hkept.le y hy hnum)
      · exact hrest.le y (List.mem_cons_of_mem _ hy) hnum

/-- **The order does not matter**, up to rank. -/
theorem IsFirst.rank_eq (hx : IsFirst rank x xs) (hy : IsFirst rank y ys) (h : xs.Perm ys) :
    rank x = rank y :=
  le_antisymm (hx.le y (h.mem_iff.mpr hy.mem) hy.isNaN_eq)
    (hy.le x (h.mem_iff.mp hx.mem) hx.isNaN_eq)

/-- If there is a number, one is the first: a start that comes last does not matter then. -/
theorem IsFirst.exists_number (h : IsFirst rank x (start :: xs)) (hlast : ∀ y, rank y ≤ rank start)
    (hnum : ∃ y ∈ xs, y.isNaN = false) : ∃ y ∈ xs, y.isNaN = false ∧ rank y = rank x := by
  rcases List.mem_cons.mp h.mem with rfl | hmem
  · obtain ⟨y, hy, hnum⟩ := hnum
    exact ⟨y, hy, hnum, le_antisymm (hlast y) (h.le y (List.mem_cons_of_mem _ hy) hnum)⟩
  · exact ⟨x, hmem, h.isNaN_eq, rfl⟩

/-- If there is none, the start is left. -/
theorem IsFirst.eq_start (h : IsFirst rank x (start :: xs)) (hnone : ∀ y ∈ xs, y.isNaN = true) :
    x = start := by
  rcases List.mem_cons.mp h.mem with heq | hmem
  · exact heq
  · exact absurd ((hnone x hmem).symm.trans h.isNaN_eq) (by decide)

end Rank

/-! ## The latencies of a minute -/

theorem byRank_lesser : ByRank units fun b a => b < a := fun a b => by
  rw [decide_eq_true_iff]
  exact Double.lt_iff

theorem byRank_greater : ByRank (fun x => -units x) fun b a => a < b := fun a b => by
  rw [decide_eq_true_iff, Double.lt_iff, neg_lt_neg_iff]
  exact and_congr_left' and_comm

/-- Infinity is a number, and none has more units. -/
theorem units_infinity : (1 / 0 : Float).isNaN = false ∧ units (1 / 0) = Binary.limit := by
  have hunpack : (1 / 0 : Float).toModel.unpack = .infinity .positive := rfl
  rw [Double.units_unpack, hunpack]
  exact ⟨by decide +kernel, rfl⟩

/-- Nor has one less than the other infinity. -/
theorem units_negative_infinity :
    (-1 / 0 : Float).isNaN = false ∧ units (-1 / 0) = -Binary.limit := by
  have hunpack : (-1 / 0 : Float).toModel.unpack = .infinity .negative := rfl
  rw [Double.units_unpack, hunpack]
  exact ⟨by decide +kernel, rfl⟩

/-- The least latency of a summary is the first by units, -/
theorem Summary.SumsUp.isFirst_latencyMin {e : Summary} {group : List Sample}
    (h : e.SumsUp group) :
    IsFirst units e.latencyMin (1 / 0 :: group.map Sample.latency) := by
  rw [h.latencyMin_eq]
  exact byRank_lesser.isFirst_foldl units_infinity.1 _

/-- and the greatest the first by their opposite. -/
theorem Summary.SumsUp.isFirst_latencyMax {e : Summary} {group : List Sample}
    (h : e.SumsUp group) :
    IsFirst (fun x => -units x) e.latencyMax (-1 / 0 :: group.map Sample.latency) := by
  rw [h.latencyMax_eq]
  exact byRank_greater.isFirst_foldl units_negative_infinity.1 _

/-- **A summary shows the range of the latencies of some samples.** If there is a number among
them, the least and the greatest are latencies of theirs, and every latency that is a number lies
between; if there is none, they are the infinities. -/
structure Summary.Spans (e : Summary) (group : List Sample) : Prop where
  min_attained : (∃ s ∈ group, s.latency.isNaN = false) →
    ∃ s ∈ group, (s.latency == e.latencyMin) = true
  max_attained : (∃ s ∈ group, s.latency.isNaN = false) →
    ∃ s ∈ group, (s.latency == e.latencyMax) = true
  between : ∀ s ∈ group, s.latency.isNaN = false →
    e.latencyMin ≤ s.latency ∧ s.latency ≤ e.latencyMax
  infinite : (∀ s ∈ group, s.latency.isNaN = true) →
    e.latencyMin = 1 / 0 ∧ e.latencyMax = -1 / 0

/-- What sums samples up shows the range of their latencies. -/
theorem Summary.SumsUp.spans {e : Summary} {group : List Sample} (h : e.SumsUp group) :
    e.Spans group := by
  have hmin := h.isFirst_latencyMin
  have hmax := h.isFirst_latencyMax
  have hbound (y : Float) : -(Binary.limit : Int) ≤ units y ∧ units y ≤ Binary.limit := by
    have := Double.natAbs_units_le y
    omega
  have hnumber : (∃ s ∈ group, s.latency.isNaN = false) →
      ∃ y ∈ group.map Sample.latency, y.isNaN = false := fun ⟨s, hs, hnum⟩ =>
    ⟨s.latency, List.mem_map_of_mem hs, hnum⟩
  have hnone : (∀ s ∈ group, s.latency.isNaN = true) →
      ∀ y ∈ group.map Sample.latency, y.isNaN = true := fun hnone y hy => by
    obtain ⟨s, hs, rfl⟩ := List.mem_map.mp hy
    exact hnone s hs
  refine
    { min_attained := fun hnum => ?_
      max_attained := fun hnum => ?_
      between := fun s hs hnum => ?_
      infinite := fun hall => ⟨hmin.eq_start (hnone hall), hmax.eq_start (hnone hall)⟩ }
  · have hlast (y : Float) : units y ≤ units (1 / 0) := by
      rw [units_infinity.2]
      exact (hbound y).2
    obtain ⟨y, hy, hynum, heq⟩ := hmin.exists_number hlast (hnumber hnum)
    obtain ⟨s, hs, rfl⟩ := List.mem_map.mp hy
    exact ⟨s, hs, Double.beq_iff.mpr ⟨⟨hynum, hmin.isNaN_eq⟩, heq⟩⟩
  · have hlast (y : Float) : -units y ≤ -units (-1 / 0) := by
      rw [units_negative_infinity.2]
      exact neg_le_neg (hbound y).1
    obtain ⟨y, hy, hynum, heq⟩ := hmax.exists_number hlast (hnumber hnum)
    obtain ⟨s, hs, rfl⟩ := List.mem_map.mp hy
    exact ⟨s, hs, Double.beq_iff.mpr ⟨⟨hynum, hmax.isNaN_eq⟩, neg_inj.mp heq⟩⟩
  · have hmem {start : Float} : s.latency ∈ start :: group.map Sample.latency :=
      List.mem_cons_of_mem _ (List.mem_map_of_mem hs)
    exact ⟨Double.le_iff.mpr ⟨⟨hmin.isNaN_eq, hnum⟩, hmin.le _ hmem hnum⟩,
      Double.le_iff.mpr ⟨⟨hnum, hmax.isNaN_eq⟩, neg_le_neg_iff.mp (hmax.le _ hmem hnum)⟩⟩

/-! ## Other orders -/

/-- **Two summaries of one minute that agree** in the number of samples and, as numbers, in the
range of the latencies. The means, which are rounded, may differ. -/
structure Summary.Agrees (e e' : Summary) : Prop where
  time_eq : e.time = e'.time
  count_eq : e.count = e'.count
  latencyMin_beq : (e.latencyMin == e'.latencyMin) = true
  latencyMax_beq : (e.latencyMax == e'.latencyMax) = true

/-- The samples of a minute in another order are summed up to the same range. -/
theorem agrees_ofSamples (minute : Timestamp) {group other : List Sample} (hne : group ≠ [])
    (h : group.Perm other) :
    (Summary.ofSamples minute group).Agrees (.ofSamples minute other) := by
  have hsums := sumsUp_ofSamples minute hne
  have hsums' := sumsUp_ofSamples minute fun hnil => hne (List.Perm.eq_nil (hnil ▸ h))
  have hperm (start : Float) :
      (start :: group.map Sample.latency).Perm (start :: other.map Sample.latency) :=
    (h.map _).cons start
  have hmin := hsums.isFirst_latencyMin
  have hmin' := hsums'.isFirst_latencyMin
  have hmax := hsums.isFirst_latencyMax
  have hmax' := hsums'.isFirst_latencyMax
  exact
    { time_eq := rfl
      count_eq := by rw [hsums.count_eq, hsums'.count_eq, h.length_eq]
      latencyMin_beq := Double.beq_iff.mpr
        ⟨⟨hmin.isNaN_eq, hmin'.isNaN_eq⟩, hmin.rank_eq hmin' (hperm _)⟩
      latencyMax_beq := Double.beq_iff.mpr
        ⟨⟨hmax.isNaN_eq, hmax'.isNaN_eq⟩, neg_inj.mp (hmax.rank_eq hmax' (hperm _))⟩ }

/-- The summaries, one for each of their minutes. -/
theorem summarise_eq_map (samples : List Sample) :
    summarise samples = ((summarise samples).map Summary.time).map fun minute =>
      .ofSamples minute (inMinute minute samples) := by
  rw [List.map_map]
  exact (List.map_id _).symm.trans (List.map_congr_left fun e he => (mem_summarise.mp he).2)

/-- The minutes summed up do not depend on the order: they ascend. -/
theorem map_time_summarise_of_perm {samples other : List Sample} (h : samples.Perm other) :
    (summarise samples).map Summary.time = (summarise other).map Summary.time := by
  have hascending (samples : List Sample) :
      ((summarise samples).map Summary.time).Pairwise (· < ·) :=
    List.pairwise_map.mpr (pairwise_time_summarise samples)
  have hnodup (samples : List Sample) : ((summarise samples).map Summary.time).Nodup := by
    refine (hascending samples).imp ?_
    rintro minute _ hlt rfl
    exact Timestamp.lt_irrefl minute hlt
  have hperm :
      ((summarise samples).map Summary.time).Perm ((summarise other).map Summary.time) := by
    rw [List.perm_ext_iff_of_nodup (hnodup samples) (hnodup other)]
    intro minute
    rw [mem_map_time_summarise, mem_map_time_summarise]
    simp only [h.mem_iff]
  refine hperm.eq_of_pairwise (fun a b _ _ hab hba => ?_) (hascending samples) (hascending other)
  exact absurd (Timestamp.lt_trans hab hba) (Timestamp.lt_irrefl a)

/-- **The least and the greatest latency of a minute.**

* Each summary shows the range of the latencies of the samples of its minute.
* The same samples in any other order are summed up to the same minutes, with the same counts and,
  as numbers, the same ranges. -/
theorem summarise_spans (samples : List Sample) :
    (∀ e ∈ summarise samples, e.Spans (inMinute e.time samples)) ∧
      ∀ other, samples.Perm other →
        List.Forall₂ Summary.Agrees (summarise samples) (summarise other) := by
  refine ⟨fun e he => (sumsUp_of_mem he).spans, fun other h => ?_⟩
  rw [summarise_eq_map samples, summarise_eq_map other, ← map_time_summarise_of_perm h,
    List.forall₂_map_left_iff, List.forall₂_map_right_iff, List.forall₂_same]
  intro minute hminute
  rw [mem_map_time_summarise, ← inMinute_ne_nil_iff] at hminute
  exact agrees_ofSamples minute hminute (h.filter _)

/-- A minute in which one sample is without a number, in two orders. -/
theorem summarise_spans_reversed :
    List.Forall₂ Summary.Agrees
      (summarise [.delayed 0 3, .delayed 1 (0 / 0), .delayed 2 7])
      (summarise [.delayed 2 7, .delayed 1 (0 / 0), .delayed 0 3]) :=
  (summarise_spans _).2 _ (List.reverse_perm _).symm

example : (summarise [.delayed 0 3, .delayed 1 (0 / 0), .delayed 2 7]).map
    (fun e => (e.latencyMin, e.latencyMax)) = [(3, 7)] := by
  decide +kernel

end LinkQuality
