import LinkQuality.Proofs.Metric.Minute
import Mathlib.Data.List.Induction

/-!
# Summing up is grouping by the minute

The table of minutes is built one sample at a time, each going into the entry of its minute. In
the end the entry of a minute is what folding over the samples of that minute alone would have
given, in the order in which they came (`MinuteTable.lookup_ofSamples`): samples of other minutes
make no difference. So there is a summary for each minute of which there is a sample, and its
means are those of the samples of that minute (`mem_summarise`, `ofSummary_of_mem`).

Nothing is asked of the sums, which are rounded, so the order within a minute does count.
-/

namespace LinkQuality

/-- **The samples of one minute**, in their order. -/
def inMinute (minute : Timestamp) (samples : List Sample) : List Sample :=
  samples.filter (·.time.minute = minute)

/-- A minute has samples if there is one of that minute. -/
theorem inMinute_ne_nil_iff {minute : Timestamp} {samples : List Sample} :
    inMinute minute samples ≠ [] ↔ ∃ s ∈ samples, s.time.minute = minute := by
  rw [inMinute, Ne, List.filter_eq_nil_iff]
  simp only [decide_eq_true_eq, not_forall, not_not, exists_prop]

/-! ## The entry of a minute -/

namespace MinuteTable

variable {τ : Type} {start : τ} {step : τ → Sample → τ} {minute : Timestamp} {table : MinuteTable τ}

/-- A minute that is not in a table has no entry. -/
theorem lookup_of_not_mem (h : minute ∉ table.minutes) : table.lookup minute = none := by
  rw [List.lookup_eq_none_iff]
  intro entry hentry
  rw [bne_iff_ne]
  rintro rfl
  exact h (List.mem_map_of_mem hentry)

/-- An entry of a table is found under its minute. -/
theorem lookup_of_mem {t : τ} (h : table.minutes.Pairwise (· < ·)) (hm : (minute, t) ∈ table) :
    table.lookup minute = some t := by
  induction table with
  | nil => exact absurd hm List.not_mem_nil
  | cons entry rest ih =>
    obtain ⟨hfirst, hrest⟩ := List.pairwise_cons.mp h
    rw [List.lookup_cons]
    rcases List.mem_cons.mp hm with rfl | hm
    · rw [beq_self_eq_true]
    · have hne : minute ≠ entry.1 := by
        intro heq
        have hlt := hfirst minute (List.mem_map_of_mem hm)
        rw [heq] at hlt
        exact Timestamp.lt_irrefl entry.1 hlt
      rw [beq_eq_false_iff_ne.mpr hne]
      exact ih hrest hm

/-- A sample goes into the entry of its minute, or begins it. -/
theorem lookup_record_self (s : Sample) (h : table.minutes.Pairwise (· < ·)) :
    (record start step minute s table).lookup minute =
      some (step ((table.lookup minute).getD start) s) := by
  induction table with
  | nil => rw [record, List.lookup_cons_self]; rfl
  | cons entry rest ih =>
    obtain ⟨hfirst, hrest⟩ := List.pairwise_cons.mp h
    rw [record]
    split
    next hlt =>
      -- the minute is before the first of the table, so it is not in the table
      have hnone : List.lookup minute (entry :: rest) = none := by
        refine lookup_of_not_mem fun hmem => ?_
        rcases List.mem_cons.mp hmem with rfl | hmem
        · exact Timestamp.lt_irrefl _ hlt
        · exact Timestamp.lt_irrefl _ (Timestamp.lt_trans hlt (hfirst minute hmem))
      rw [List.lookup_cons_self, hnone]
      rfl
    next =>
      split
      next heq =>
        subst heq
        rw [List.lookup_cons_self, List.lookup_cons_self]
        rfl
      next hne =>
        rw [List.lookup_cons, List.lookup_cons, beq_eq_false_iff_ne.mpr hne]
        exact ih hrest

/-- A sample changes the entry of no other minute. -/
theorem lookup_record_of_ne {other : Timestamp} (s : Sample) (h : other ≠ minute) :
    (record start step minute s table).lookup other = table.lookup other := by
  have hother : (other == minute) = false := beq_eq_false_iff_ne.mpr h
  induction table with
  | nil => rw [record, List.lookup_cons, hother]
  | cons entry rest ih =>
    rw [record]
    split
    next => rw [List.lookup_cons, hother]
    next =>
      split
      next heq =>
        subst heq
        rw [List.lookup_cons, List.lookup_cons, hother]
      next => rw [List.lookup_cons, List.lookup_cons, ih]

/-- **The entry of a minute is the fold over its samples**, in their order; a minute without
samples has none. -/
theorem lookup_ofSamples (start : τ) (step : τ → Sample → τ) (samples : List Sample)
    (minute : Timestamp) :
    (ofSamples start step samples).lookup minute =
      if inMinute minute samples = [] then none
      else some ((inMinute minute samples).foldl step start) := by
  induction samples using List.reverseRecOn with
  | nil => rfl
  | append_singleton samples s ih =>
    have hrecord : ofSamples start step (samples ++ [s]) =
        record start step s.time.minute s (ofSamples start step samples) := by
      rw [ofSamples, List.foldl_append]
      rfl
    rw [hrecord]
    by_cases hm : s.time.minute = minute
    · have hgroup : inMinute minute (samples ++ [s]) = inMinute minute samples ++ [s] := by
        rw [inMinute, List.filter_append, List.filter_cons_of_pos (by simpa using hm)]
        rfl
      have hfold : ((ofSamples start step samples).lookup minute).getD start =
          (inMinute minute samples).foldl step start := by
        rw [ih]
        split
        next hnil => rw [hnil]; rfl
        next => rfl
      subst hm
      rw [lookup_record_self s (minutes_ofSamples start step samples).1, hfold, hgroup,
        if_neg (by simp), List.foldl_append]
      rfl
    · have hgroup : inMinute minute (samples ++ [s]) = inMinute minute samples := by
        rw [inMinute, List.filter_append, List.filter_cons_of_neg (by simpa using hm),
          List.filter_nil, List.append_nil]
        rfl
      rw [lookup_record_of_ne s (Ne.symm hm), ih, hgroup]

/-- An entry of a table of samples is the fold over the samples of its minute. -/
theorem mem_ofSamples {samples : List Sample} {t : τ} :
    (minute, t) ∈ ofSamples start step samples ↔
      inMinute minute samples ≠ [] ∧ t = (inMinute minute samples).foldl step start := by
  have hascending := (minutes_ofSamples start step samples).1
  have hlookup := lookup_ofSamples start step samples minute
  constructor
  · intro hmem
    rw [lookup_of_mem hascending hmem] at hlookup
    split at hlookup
    next => exact absurd hlookup nofun
    next hne => exact ⟨hne, Option.some.inj hlookup⟩
  · rintro ⟨hne, rfl⟩
    rw [if_neg hne] at hlookup
    obtain ⟨before, after, htable, -⟩ := List.lookup_eq_some_iff.mp hlookup
    rw [htable]
    exact List.mem_append_right _ (List.mem_cons_self ..)

end MinuteTable

/-! ## Summaries -/

/-- The running sums of the samples of one minute, as its summary. -/
def Summary.ofSamples (minute : Timestamp) (samples : List Sample) : Summary :=
  (samples.foldl Tally.record Tally.empty).finish minute

/-- **There is a summary for each minute of which there is a sample**, and it is that of the
samples of that minute. -/
theorem mem_summarise {samples : List Sample} {s : Summary} :
    s ∈ summarise samples ↔
      inMinute s.time samples ≠ [] ∧ s = .ofSamples s.time (inMinute s.time samples) := by
  rw [summarise, List.mem_map]
  constructor
  · rintro ⟨⟨minute, t⟩, hmem, rfl⟩
    obtain ⟨hne, rfl⟩ := MinuteTable.mem_ofSamples.mp hmem
    exact ⟨hne, rfl⟩
  · rintro ⟨hne, heq⟩
    exact ⟨(s.time, _), MinuteTable.mem_ofSamples.mpr ⟨hne, rfl⟩, heq.symm⟩

/-- The minutes summed up are those of the samples. -/
theorem mem_map_time_summarise {samples : List Sample} {minute : Timestamp} :
    minute ∈ (summarise samples).map Summary.time ↔ ∃ s ∈ samples, s.time.minute = minute := by
  rw [← inMinute_ne_nil_iff, List.mem_map]
  constructor
  · rintro ⟨s, hmem, rfl⟩
    exact (mem_summarise.mp hmem).1
  · intro hne
    exact ⟨.ofSamples minute (inMinute minute samples), mem_summarise.mpr ⟨hne, rfl⟩, rfl⟩

/-! ## Means -/

/-- **The mean of a value over samples**: their sum, added up in order, by their number. -/
def mean (value : Sample → Float) (samples : List Sample) : Float :=
  samples.foldl (fun sum s => sum + value s) 0 / Float.ofNat samples.length

/-- **The record of a minute whose samples are given**: their means. -/
def Record.ofMinute (node : String) (minute : Timestamp) (samples : List Sample) : Record :=
  ⟨node, "", minute, mean Sample.latency samples, mean Sample.loss samples,
    mean Sample.jitter samples, true⟩

/-- The running sums of samples add up each value on its own. -/
theorem foldl_record (samples : List Sample) (t : Tally) :
    let t' := samples.foldl Tally.record t
    t'.count = t.count + samples.length ∧
      t'.latencySum = samples.foldl (fun sum s => sum + s.latency) t.latencySum ∧
      t'.lossSum = samples.foldl (fun sum s => sum + s.loss) t.lossSum ∧
      t'.jitterSum = samples.foldl (fun sum s => sum + s.jitter) t.jitterSum := by
  induction samples generalizing t with
  | nil => exact ⟨rfl, rfl, rfl, rfl⟩
  | cons s samples ih =>
    obtain ⟨hcount, hlatency, hloss, hjitter⟩ := ih (t.record s)
    refine ⟨?_, hlatency, hloss, hjitter⟩
    rw [List.foldl_cons, hcount, List.length_cons]
    show t.count + 1 + samples.length = _
    omega

/-- **The record of a summary holds the means of the samples of its minute.** -/
theorem ofSummary_of_mem (node : String) {samples : List Sample} {s : Summary}
    (h : s ∈ summarise samples) :
    Record.ofSummary node "" s = .ofMinute node s.time (inMinute s.time samples) := by
  obtain ⟨-, heq⟩ := mem_summarise.mp h
  generalize inMinute s.time samples = group at heq
  obtain ⟨hcount, hlatency, hloss, hjitter⟩ := foldl_record group Tally.empty
  have hcount : (group.foldl Tally.record Tally.empty).count = group.length :=
    hcount.trans (Nat.zero_add _)
  rw [heq, Summary.ofSamples, Tally.finish, Record.ofSummary, hcount, hlatency, hloss, hjitter]
  rfl

end LinkQuality
