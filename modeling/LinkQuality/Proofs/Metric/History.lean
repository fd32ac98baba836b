import LinkQuality.Metric.History
import Mathlib.Data.List.Induction
import Mathlib.Data.Nat.ModEq

/-!
# What a history holds

A history is a ring of slots with two cursors, and which slot holds which sample depends on how
often the ring has gone round. What can be read from it does not: the samples written last, as
many as there is room for, in the order in which they were written (`toList_ofSamples`).

What carries this is that a sample stays in the slot of its own number. The sample written after
`n` others goes to slot `n` modulo the capacity, and of two samples that are held at the same time
no two have the same slot, as their numbers differ by less than the capacity.
-/

namespace LinkQuality

/-- **The last `n` entries of a list**, or all of them if there are no more. -/
def lastOf {α : Type} (n : Nat) (l : List α) : List α := l.drop (l.length - n)

/-- Of a list that is not too long, the last entries are all. -/
theorem lastOf_of_length_le {α : Type} {n : Nat} {l : List α} (h : l.length ≤ n) :
    lastOf n l = l := by
  rw [lastOf, Nat.sub_eq_zero_of_le h, List.drop_zero]

namespace History

/-- The history of samples written one after the other. -/
def ofSamples (capacity : Nat) (samples : List Sample) : History :=
  samples.foldl (fun h s => (h.write s).1) (empty capacity)

/-- One more sample is one more write. -/
theorem ofSamples_concat (capacity : Nat) (samples : List Sample) (s : Sample) :
    ofSamples capacity (samples ++ [s]) = ((ofSamples capacity samples).write s).1 := by
  rw [ofSamples, List.foldl_append]
  rfl

/-- **A history is what is left of the samples written to it.** Each sample that is still held is
in the slot of its number. -/
structure Holds (h : History) (written : List Sample) : Prop where
  capacity_pos : 0 < h.capacity
  size_eq : h.size = min written.length h.capacity
  writeAt_eq : h.writeAt = written.length % h.capacity
  oldest_eq : h.oldest = (written.length - h.size) % h.capacity
  slot_eq : ∀ k < written.length, written.length - h.size ≤ k →
    h.slots[k % h.capacity]? = some written[k]?

/-- Nothing is left of nothing. -/
theorem holds_empty (capacity : Nat) : (empty capacity).Holds [] where
  capacity_pos := by
    rw [History.capacity, empty, Array.size_replicate]
    exact Nat.lt_of_lt_of_le Nat.zero_lt_one (Nat.le_max_right ..)
  size_eq := (Nat.zero_min _).symm
  writeAt_eq := (Nat.zero_mod _).symm
  oldest_eq := (Nat.zero_mod _).symm
  slot_eq _ hk := absurd hk (Nat.not_lt_zero _)

/-- A write leaves the number of slots. -/
@[simp] theorem capacity_write (h : History) (s : Sample) : (h.write s).1.capacity = h.capacity :=
  Array.size_setIfInBounds

/-- The slots of two numbers that differ by less than the capacity are different. -/
theorem mod_ne_mod {k n capacity : Nat} (hlt : k < n) (hn : n < k + capacity) :
    k % capacity ≠ n % capacity := by
  intro heq
  have hdvd : capacity ∣ n - k := (Nat.modEq_iff_dvd' (Nat.le_of_lt hlt)).mp heq
  have hle := Nat.le_of_dvd (by omega) hdvd
  omega

/-- **A write adds its sample to what was written**, in a slot whose sample is no longer held. -/
theorem Holds.write {h : History} {written : List Sample} (hh : h.Holds written) (s : Sample) :
    (h.write s).1.Holds (written ++ [s]) := by
  have hpos := hh.capacity_pos
  have hlength : (written ++ [s]).length = written.length + 1 := List.length_append
  have hsize : (h.write s).1.size = min (written.length + 1) h.capacity := by
    show (if h.size = h.capacity then h.size else h.size + 1) = _
    rw [hh.size_eq]
    split <;> omega
  refine ⟨?_, ?_, ?_, ?_, ?_⟩
  · rw [capacity_write]
    exact hpos
  · rw [capacity_write, hlength, hsize]
  · rw [capacity_write, hlength]
    show (h.writeAt + 1) % h.capacity = _
    rw [hh.writeAt_eq, Nat.mod_add_mod]
  · rw [capacity_write, hlength, hsize]
    show (if h.size = h.capacity then (h.oldest + 1) % h.capacity else h.oldest) = _
    rw [hh.oldest_eq]
    split
    next hfull =>
      rw [Nat.mod_add_mod]
      have := hh.size_eq
      congr 1
      omega
    next hroom =>
      have := hh.size_eq
      congr 1
      omega
  · intro k hk hheld
    rw [capacity_write]
    rw [hlength] at hk hheld
    rw [hsize] at hheld
    show (h.slots.setIfInBounds h.writeAt (some s))[k % h.capacity]? = _
    have hin : k % h.capacity < h.slots.size := Nat.mod_lt k hpos
    by_cases hlast : k = written.length
    · rw [hlast] at hin ⊢
      rw [hh.writeAt_eq, Array.getElem?_setIfInBounds_self_of_lt hin, List.getElem?_concat_length]
    · have hlt : k < written.length := by omega
      have hslot : h.writeAt ≠ k % h.capacity := by
        rw [hh.writeAt_eq]
        exact (mod_ne_mod hlt (by omega)).symm
      rw [Array.getElem?_setIfInBounds_ne hslot, List.getElem?_append_left hlt]
      refine hh.slot_eq k hlt ?_
      rw [hh.size_eq]
      omega

/-- **What is left of the samples written can be read**, oldest first. No slot that is read is
empty. -/
theorem Holds.toList_eq {h : History} {written : List Sample} (hh : h.Holds written) :
    h.toList = lastOf h.capacity written := by
  have hsize := hh.size_eq
  have hread : (List.range h.size).map h.at? = (lastOf h.capacity written).map some := by
    refine List.ext_getElem ?_ fun i hi _ => ?_
    · rw [List.length_map, List.length_range, List.length_map, lastOf, List.length_drop]
      omega
    · rw [List.length_map, List.length_range] at hi
      have hslot := hh.slot_eq (written.length - h.size + i) (by omega) (by omega)
      have hnumber : written.length - h.size + i = written.length - h.capacity + i := by omega
      rw [List.getElem_map, List.getElem_range, at?, hh.oldest_eq, Nat.mod_add_mod,
        Array.getD_eq_getD_getElem?, hslot, Option.getD_some, List.getElem_map, hnumber,
        List.getElem?_eq_getElem (by omega)]
      simp only [lastOf, List.getElem_drop]
  calc h.toList = ((List.range h.size).map h.at?).filterMap id := by
        rw [List.filterMap_map]
        rfl
    _ = lastOf h.capacity written := by
        rw [hread, List.filterMap_map]
        exact List.filterMap_some

/-- A history of samples holds what is left of them. -/
theorem holds_ofSamples (capacity : Nat) (samples : List Sample) :
    (ofSamples capacity samples).Holds samples := by
  induction samples using List.reverseRecOn with
  | nil => exact holds_empty capacity
  | append_singleton samples s ih =>
    rw [ofSamples_concat]
    exact ih.write s

/-- Whatever is written, there is room for as many samples as before, and for one at least. -/
theorem capacity_ofSamples (capacity : Nat) (samples : List Sample) :
    (ofSamples capacity samples).capacity = max capacity 1 := by
  induction samples using List.reverseRecOn with
  | nil => exact Array.size_replicate
  | append_singleton samples s ih => rw [ofSamples_concat, capacity_write, ih]

/-- **A history holds the samples written last**, oldest first: as many as it has room for, and
all of them until then. -/
theorem toList_ofSamples (capacity : Nat) (samples : List Sample) :
    (ofSamples capacity samples).toList = lastOf (max capacity 1) samples := by
  rw [(holds_ofSamples capacity samples).toList_eq, capacity_ofSamples]

end History

end LinkQuality
