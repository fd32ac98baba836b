import LinkQuality.Proofs.Metric.Grouping
import Mathlib.Algebra.GroupWithZero.Nat
import Mathlib.Data.List.Perm.Basic

/-!
# Minutes part the samples

Summing up by the minute is one pass over the samples with a sorted table at hand. What it comes to
can be said without the pass: each minute of which there is a sample has one entry, the minutes
ascend, and the entry of a minute is the fold over the samples of that minute alone, in their order.
There is only one such table (`MinuteTable.Groups.eq`), so this says all there is to say of it, and
it says it for whatever a minute is folded into.

Two things follow at once. Samples of different minutes may change places, for the table does not
show how they were mixed (`Rearranged.ofSamples_eq`). And every sample is in one summary: their
counts add up to the number of samples (`sum_count_summarise`), and no count is zero, so that no
mean is taken of nothing.
-/

namespace LinkQuality

/-! ## The table of minutes -/

namespace MinuteTable

variable {τ : Type} {start : τ} {step : τ → Sample → τ} {samples : List Sample}
  {table other : MinuteTable τ}

/-- **A table that groups samples by the minute.** -/
structure Groups (start : τ) (step : τ → Sample → τ) (samples : List Sample)
    (table : MinuteTable τ) : Prop where
  /-- The minutes ascend, so none of them is there twice. -/
  ascending : table.minutes.Pairwise (· < ·)
  /-- They are the minutes of the samples. -/
  mem_minutes_iff : ∀ minute, minute ∈ table.minutes ↔ ∃ s ∈ samples, s.time.minute = minute
  /-- What is kept for a minute comes of its own samples, in their order. -/
  eq_foldl : ∀ minute t, (minute, t) ∈ table → t = (inMinute minute samples).foldl step start

/-- The entries of such a table are known. -/
theorem Groups.mem_iff (h : table.Groups start step samples) {minute : Timestamp} {t : τ} :
    (minute, t) ∈ table ↔
      (∃ s ∈ samples, s.time.minute = minute) ∧
        t = (inMinute minute samples).foldl step start := by
  rw [← h.mem_minutes_iff]
  constructor
  · exact fun hmem => ⟨List.mem_map_of_mem hmem, h.eq_foldl minute t hmem⟩
  · rintro ⟨hminute, rfl⟩
    obtain ⟨⟨_, t⟩, hmem, rfl⟩ := List.mem_map.mp hminute
    rwa [← h.eq_foldl _ t hmem]

/-- Its entries ascend with their minutes. -/
theorem Groups.pairwise (h : table.Groups start step samples) : table.Pairwise (·.1 < ·.1) :=
  List.pairwise_map.mp h.ascending

/-- No entry is there twice. -/
theorem Groups.nodup (h : table.Groups start step samples) : table.Nodup := by
  refine h.pairwise.imp ?_
  rintro e _ hlt rfl
  exact Timestamp.lt_irrefl e.1 hlt

/-- **There is only one such table.** -/
theorem Groups.eq (h : table.Groups start step samples) (h' : other.Groups start step samples) :
    table = other := by
  have hperm : table.Perm other := by
    rw [List.perm_ext_iff_of_nodup h.nodup h'.nodup]
    exact fun _ => h.mem_iff.trans h'.mem_iff.symm
  refine hperm.eq_of_pairwise (fun a b _ _ hab hba => ?_) h.pairwise h'.pairwise
  exact absurd (Timestamp.lt_trans hab hba) (Timestamp.lt_irrefl a.1)

/-- **One pass over the samples makes it.** -/
theorem groups_ofSamples : (ofSamples start step samples).Groups start step samples where
  ascending := (minutes_ofSamples start step samples).1
  mem_minutes_iff minute := by
    rw [← inMinute_ne_nil_iff, minutes, List.mem_map]
    constructor
    · rintro ⟨⟨_, t⟩, hmem, rfl⟩
      exact (mem_ofSamples.mp hmem).1
    · exact fun hne => ⟨(minute, _), mem_ofSamples.mpr ⟨hne, rfl⟩, rfl⟩
  eq_foldl _ _ hmem := (mem_ofSamples.mp hmem).2

/-- **Grouping by the minute and the pass over the samples are the same.** -/
theorem groups_iff : table.Groups start step samples ↔ table = ofSamples start step samples :=
  ⟨fun h => h.eq groups_ofSamples, fun h => h ▸ groups_ofSamples⟩

end MinuteTable

/-! ## Changing places -/

/-- **The same samples, those of each minute in the same order.** Samples of different minutes may
have changed places. -/
def Rearranged (samples other : List Sample) : Prop :=
  ∀ minute, inMinute minute other = inMinute minute samples

/-- Two neighbours of different minutes may change places. -/
theorem rearranged_swap {a b : Sample} (h : a.time.minute ≠ b.time.minute)
    (before later : List Sample) :
    Rearranged (before ++ a :: b :: later) (before ++ b :: a :: later) := by
  intro minute
  simp only [inMinute, List.filter_append, List.filter_cons, decide_eq_true_eq]
  by_cases ha : a.time.minute = minute
  · have hb : b.time.minute ≠ minute := fun hb => h (ha.trans hb.symm)
    rw [if_neg hb, if_pos ha, if_neg hb, if_pos ha]
  · rw [if_neg ha, if_neg ha]

/-- **No table shows how samples of different minutes were mixed.** -/
theorem Rearranged.ofSamples_eq {samples other : List Sample} (h : Rearranged samples other)
    {τ : Type} (start : τ) (step : τ → Sample → τ) :
    MinuteTable.ofSamples start step other = MinuteTable.ofSamples start step samples := by
  have hgroups : (MinuteTable.ofSamples start step other).Groups start step other :=
    MinuteTable.groups_ofSamples
  refine MinuteTable.groups_iff.mp ⟨hgroups.ascending, fun minute => ?_, fun minute t hmem => ?_⟩
  · rw [hgroups.mem_minutes_iff, ← inMinute_ne_nil_iff, ← inMinute_ne_nil_iff, h minute]
  · rw [hgroups.eq_foldl minute t hmem, h minute]

/-! ## The summaries -/

/-- The least and the greatest latency come of the latencies alone. -/
theorem foldl_record_latency (samples : List Sample) (t : Tally) :
    (samples.foldl Tally.record t).latencyMin =
        (samples.map Sample.latency).foldl Tally.lesser t.latencyMin ∧
      (samples.foldl Tally.record t).latencyMax =
        (samples.map Sample.latency).foldl Tally.greater t.latencyMax := by
  induction samples generalizing t with
  | nil => exact ⟨rfl, rfl⟩
  | cons s samples ih => exact ih (t.record s)

/-- **A summary sums up some samples**: it is made of their running sums in their order, its means
are their sums by their number, and there is one at least. -/
structure Summary.SumsUp (s : Summary) (samples : List Sample) : Prop where
  eq_ofSamples : s = .ofSamples s.time samples
  latencyMean_eq : s.latencyMean = mean Sample.latency samples
  lossMean_eq : s.lossMean = mean Sample.loss samples
  jitterMean_eq : s.jitterMean = mean Sample.jitter samples
  latencyMin_eq : s.latencyMin = (samples.map Sample.latency).foldl Tally.lesser (1 / 0)
  latencyMax_eq : s.latencyMax = (samples.map Sample.latency).foldl Tally.greater (-1 / 0)
  count_eq : s.count = samples.length
  count_pos : 0 < s.count

/-- The running sums of samples, if there are any, sum them up. -/
theorem sumsUp_ofSamples (minute : Timestamp) {samples : List Sample} (h : samples ≠ []) :
    (Summary.ofSamples minute samples).SumsUp samples := by
  obtain ⟨hcount, hlatency, hloss, hjitter⟩ := foldl_record samples Tally.empty
  obtain ⟨hmin, hmax⟩ := foldl_record_latency samples Tally.empty
  have hcount : (samples.foldl Tally.record Tally.empty).count = samples.length :=
    hcount.trans (Nat.zero_add _)
  have hmean : ∀ {sum : Float} (value : Sample → Float),
      sum = samples.foldl (fun sum s => sum + value s) 0 →
        sum / Float.ofNat (samples.foldl Tally.record Tally.empty).count = mean value samples := by
    rintro sum value rfl
    rw [hcount]
    rfl
  exact
    { eq_ofSamples := rfl
      latencyMean_eq := hmean Sample.latency hlatency
      lossMean_eq := hmean Sample.loss hloss
      jitterMean_eq := hmean Sample.jitter hjitter
      latencyMin_eq := hmin
      latencyMax_eq := hmax
      count_eq := hcount
      count_pos := Nat.lt_of_lt_of_eq (List.length_pos_iff.mpr h) hcount.symm }

/-- A summary sums up the samples of its minute. -/
theorem sumsUp_of_mem {samples : List Sample} {s : Summary} (h : s ∈ summarise samples) :
    s.SumsUp (inMinute s.time samples) := by
  obtain ⟨hne, heq⟩ := mem_summarise.mp h
  have hsums := sumsUp_ofSamples s.time hne
  rwa [← heq] at hsums

/-- Recording a sample counts one more, in whatever minute. -/
theorem sum_count_record (minute : Timestamp) (s : Sample) (table : MinuteTable Tally) :
    ((table.record Tally.empty Tally.record minute s).map (·.2.count)).sum =
      (table.map (·.2.count)).sum + 1 := by
  induction table with
  | nil => rfl
  | cons entry rest ih =>
    rw [MinuteTable.record]
    split
    next => exact Nat.add_comm 1 _
    next =>
      split
      next => exact Nat.add_right_comm ..
      next => rw [List.map_cons, List.sum_cons, ih, List.map_cons, List.sum_cons, Nat.add_assoc]

/-- **Every sample is counted once.** -/
theorem sum_count_summarise (samples : List Sample) :
    ((summarise samples).map Summary.count).sum = samples.length := by
  have hsum : ((MinuteTable.ofSamples Tally.empty Tally.record samples).map (·.2.count)).sum =
      samples.length := by
    induction samples using List.reverseRecOn with
    | nil => rfl
    | append_singleton samples s ih =>
      rw [MinuteTable.ofSamples, List.foldl_append, List.foldl_cons, List.foldl_nil,
        sum_count_record, List.length_append]
      exact congrArg (· + 1) ih
  rw [summarise, List.map_map]
  exact hsum

/-- **Summing up is grouping by the minute.**

* Whatever is kept for a minute, the table made in one pass is the one that groups the samples: an
  entry for each minute of theirs, in ascending order, folded from the samples of that minute in
  their order.
* There is one summary for each minute of which there is a sample, in ascending order of time.
* It sums up the samples of its minute, of which there is one at least.
* The counts add up to the number of samples.
* Samples of different minutes may change places, and nothing is changed by it. -/
theorem summarise_groups (samples : List Sample) :
    (∀ (τ : Type) (start : τ) (step : τ → Sample → τ) (table : MinuteTable τ),
        table.Groups start step samples ↔ table = .ofSamples start step samples) ∧
      (summarise samples).Pairwise (·.time < ·.time) ∧
      (∀ minute, minute ∈ (summarise samples).map Summary.time ↔
        ∃ s ∈ samples, s.time.minute = minute) ∧
      (∀ s ∈ summarise samples, s.SumsUp (inMinute s.time samples)) ∧
      ((summarise samples).map Summary.count).sum = samples.length ∧
      ∀ other, Rearranged samples other →
        summarise other = summarise samples ∧
          ∀ (τ : Type) (start : τ) (step : τ → Sample → τ),
            MinuteTable.ofSamples start step other = .ofSamples start step samples := by
  refine ⟨fun _ _ _ _ => MinuteTable.groups_iff, pairwise_time_summarise samples,
    fun _ => mem_map_time_summarise, fun _ => sumsUp_of_mem, sum_count_summarise samples,
    fun other h => ⟨?_, fun _ => h.ofSamples_eq⟩⟩
  rw [summarise, h.ofSamples_eq, ← summarise]

/-- A sample of the first hour, without delay or loss. -/
def Sample.smooth (second : Fin 3600) : Sample :=
  ⟨.ofSecond (Int.ofNat second) (by simp only [Int.ofNat_eq_natCast]; omega)
    (by simp only [Int.ofNat_eq_natCast]; omega), 0, 0, 0⟩

/-- A sample of the first hour with some latency. -/
def Sample.delayed (second : Fin 3600) (latency : Float) : Sample := { smooth second with latency }

/-- A sample of the second minute may come before those of the first, or between them. -/
theorem summarise_groups_swapped :
    summarise [.smooth 60, .smooth 30, .smooth 45] =
      summarise [.smooth 30, .smooth 60, .smooth 45] :=
  ((summarise_groups _).2.2.2.2.2 _ (rearranged_swap (by decide +kernel) [] [_])).1

end LinkQuality
