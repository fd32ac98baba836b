import LinkQuality.Proofs.Metric.History

/-!
# A history is a bounded queue

Whoever writes samples to a history and reads them back cannot tell it from a queue with so many
places: a sample that comes in goes to the end, and when no place is left the first one gives way
(`BoundedQueue.push`). The main statement, `History.mirrors_ofSamples`, says so for any number of
places and any number of writes, and with it what each reading gives.

The queue is a list and the history a ring, so the two can only agree if the ring stays whole: both
cursors are slots, they are as far apart as there are samples, and every slot from the one to the
other is filled (`History.Intact`). That is so at whatever slot the ring has come round to, because
each sample is in the slot of its number (`History.Holds`).
-/

namespace LinkQuality

namespace BoundedQueue

/-- **One more entry for a queue with so many places.** Where there is none left, the first entry
gives way. Tells whether it did. -/
def push {α : Type} (places : Nat) (queue : List α) (a : α) : List α × Bool :=
  if queue.length < places then (queue ++ [a], false) else (queue.tail ++ [a], true)

/-- A queue that holds the last entries of a list goes on to hold the last entries, and an entry
gives way from the time on when there were as many as there are places. -/
theorem push_lastOf {α : Type} {places : Nat} (h : 0 < places) (l : List α) (a : α) :
    push places (lastOf places l) a = (lastOf places (l ++ [a]), decide (places ≤ l.length)) := by
  have hlength : (l ++ [a]).length = l.length + 1 := List.length_append
  have hlast : (lastOf places l).length = l.length - (l.length - places) := List.length_drop
  unfold push
  by_cases hroom : l.length < places
  · rw [if_pos (by omega), lastOf_of_length_le (by omega), lastOf_of_length_le (by omega),
      decide_eq_false (by omega)]
  · have htail : (lastOf places l).tail = l.drop (l.length - places + 1) := by
      rw [lastOf, List.tail_drop]
    have hskip : l.length + 1 - places = l.length - places + 1 := by omega
    rw [if_neg (by omega), decide_eq_true (by omega), htail, lastOf, hlength, hskip,
      List.drop_append_of_le_length (by omega)]

end BoundedQueue

namespace History

/-! ## What writes tell -/

/-- **What the writes of samples tell**, one after the other: whether a sample gave way. -/
def evictions : History → List Sample → List Bool
  | _, [] => []
  | h, s :: rest => (h.write s).2 :: (h.write s).1.evictions rest

/-- A write finds a place for its sample, or has another one give way. -/
theorem size_write (h : History) (s : Sample) :
    (h.write s).1.size + (h.write s).2.toNat = h.size + 1 := by
  show (if h.size = h.capacity then h.size else h.size + 1) +
    (decide (h.size = h.capacity)).toNat = _
  split
  next hfull => rw [decide_eq_true hfull]; rfl
  next hroom => rw [decide_eq_false hroom]; rfl

/-- **Every sample has a place or has taken one**: so many are held, and for each of the others one
gave way. -/
theorem count_evictions (h : History) (samples : List Sample) :
    (h.evictions samples).count true + (samples.foldl (fun h s => (h.write s).1) h).size =
      h.size + samples.length := by
  induction samples generalizing h with
  | nil => exact Nat.zero_add _
  | cons s rest ih =>
    have hfirst : (if ((h.write s).2 == true) = true then 1 else 0) = (h.write s).2.toNat := by
      cases (h.write s).2 <;> rfl
    have hstep := size_write h s
    have hrest := ih (h.write s).1
    rw [evictions, List.count_cons, hfirst, List.foldl_cons, List.length_cons]
    omega

variable {h : History} {written : List Sample}

/-- A sample gives way from the time on when as many were written as there are places. -/
theorem Holds.write_snd (hh : h.Holds written) (s : Sample) :
    (h.write s).2 = decide (h.capacity ≤ written.length) := by
  have hsize := hh.size_eq
  show decide (h.size = h.capacity) = _
  rw [decide_eq_decide]
  omega

/-- So it is known beforehand what writes will tell. -/
theorem Holds.evictions_eq (hh : h.Holds written) (samples : List Sample) :
    h.evictions samples =
      (List.range samples.length).map fun k => decide (h.capacity ≤ written.length + k) := by
  induction samples generalizing h written with
  | nil => rfl
  | cons s rest ih =>
    rw [evictions, hh.write_snd, ih (hh.write s), List.length_cons, List.range_succ_eq_map,
      List.map_cons, List.map_map, capacity_write]
    refine congrArg (_ :: ·) (List.map_congr_left fun k _ => ?_)
    rw [List.length_append, List.length_singleton, Function.comp_apply, Nat.add_assoc,
      Nat.add_comm 1 k]

/-- **Each write is a push.** -/
theorem Holds.write_eq_push (hh : h.Holds written) (s : Sample) :
    ((h.write s).1.toList, (h.write s).2) = BoundedQueue.push h.capacity h.toList s := by
  rw [(hh.write s).toList_eq, hh.write_snd, capacity_write, hh.toList_eq,
    BoundedQueue.push_lastOf hh.capacity_pos]

/-! ## The ring stays whole -/

/-- **A ring in which nothing is out of place.** -/
structure Intact (h : History) : Prop where
  writeAt_lt : h.writeAt < h.slots.size
  oldest_lt : h.oldest < h.slots.size
  size_le : h.size ≤ h.slots.size
  /-- The next sample goes to the slot after the last one held. -/
  writeAt_eq : h.writeAt = (h.oldest + h.size) % h.slots.size
  /-- Each sample held has a slot, and is in it. -/
  filled : ∀ i < h.size, ∃ s, h.slots[(h.oldest + i) % h.slots.size]? = some (some s)

/-- The sample `i` places after the oldest is in the slot that is as far from the cursor. -/
theorem Holds.slot_of_lt (hh : h.Holds written) {i : Nat} (hi : i < h.size) :
    h.slots[(h.oldest + i) % h.capacity]? = some written[written.length - h.size + i]? := by
  have hsize := hh.size_eq
  rw [hh.oldest_eq, Nat.mod_add_mod]
  exact hh.slot_eq (written.length - h.size + i) (by omega) (by omega)

/-- **What is left of samples is a whole ring.** -/
theorem Holds.intact (hh : h.Holds written) : h.Intact := by
  have hpos := hh.capacity_pos
  have hsize := hh.size_eq
  refine ⟨?_, ?_, ?_, ?_, fun i hi => ?_⟩
  · rw [hh.writeAt_eq]
    exact Nat.mod_lt _ hpos
  · rw [hh.oldest_eq]
    exact Nat.mod_lt _ hpos
  · rw [hsize]
    exact Nat.min_le_right ..
  · show h.writeAt = (h.oldest + h.size) % h.capacity
    rw [hh.writeAt_eq, hh.oldest_eq, Nat.mod_add_mod, Nat.sub_add_cancel (by omega)]
  · have hin : written.length - h.size + i < written.length := by omega
    exact ⟨_, (hh.slot_of_lt hi).trans (congrArg some (List.getElem?_eq_getElem hin))⟩

/-- The latest sample is the last one written. -/
theorem Holds.latest_eq (hh : h.Holds written) : h.latest = written.getLast? := by
  have hpos := hh.capacity_pos
  have hsize := hh.size_eq
  unfold latest
  rcases Nat.eq_zero_or_pos written.length with hnone | hsome
  · rw [if_pos (by omega), List.eq_nil_of_length_eq_zero hnone]
    rfl
  · -- the slot before the cursor is the one of the last number, also if the cursor has come round
    have hslot : (h.writeAt + h.capacity - 1) % h.capacity = (written.length - 1) % h.capacity := by
      rw [hh.writeAt_eq, Nat.add_sub_assoc hpos, Nat.mod_add_mod, ← Nat.add_sub_assoc hpos,
        Nat.sub_add_comm hsome, Nat.add_mod_right]
    have hlast := hh.slot_eq (written.length - 1) (by omega) (by omega)
    rw [if_neg (by omega), hslot, Array.getD_eq_getD_getElem?, hlast, Option.getD_some,
      List.getLast?_eq_getElem?]

/-! ## Every run of writes -/

/-- **What a history shows of the samples written to it**, if it has so many places. -/
structure Mirrors (h : History) (places : Nat) (written : List Sample) : Prop where
  capacity_eq : h.capacity = places
  size_eq : h.size = min written.length places
  toList_eq : h.toList = lastOf places written
  /-- No slot that is read is passed over. -/
  length_toList : h.toList.length = h.size
  latest_eq : h.latest = written.getLast?
  isEmpty_iff : h.isEmpty = true ↔ h.size = 0

/-- What is left of samples shows them. -/
theorem Holds.mirrors (hh : h.Holds written) : h.Mirrors h.capacity written where
  capacity_eq := rfl
  size_eq := hh.size_eq
  toList_eq := hh.toList_eq
  length_toList := by
    rw [hh.toList_eq, hh.size_eq, lastOf, List.length_drop]
    omega
  latest_eq := hh.latest_eq
  isEmpty_iff := decide_eq_true_iff

/-- **A history is a bounded queue**, with as many places as were asked for and with one at least.
After every run of writes it shows the samples written last, as many as there are places, and the
ring is whole. Write number `k` has a sample give way if `k` is greater than the number of places,
so the samples that gave way and those held are all that were written. One more write does what one
more push does to the queue, and tells the same. -/
theorem mirrors_ofSamples (capacity : Nat) (samples : List Sample) :
    let h := ofSamples capacity samples
    let places := max capacity 1
    let told := (empty capacity).evictions samples
    h.Mirrors places samples ∧ h.Intact ∧
      told = (List.range samples.length).map (fun k => decide (places < k + 1)) ∧
      told.count true + h.size = samples.length ∧
      ∀ s, ((h.write s).1.toList, (h.write s).2) = BoundedQueue.push places h.toList s := by
  intro h places told
  have hh : h.Holds samples := holds_ofSamples capacity samples
  have hplaces : h.capacity = places := capacity_ofSamples capacity samples
  have hempty : (empty capacity).capacity = places := capacity_ofSamples capacity []
  refine ⟨hplaces ▸ hh.mirrors, hh.intact, ?_, ?_, fun s => hplaces ▸ hh.write_eq_push s⟩
  · refine ((holds_empty capacity).evictions_eq samples).trans (List.map_congr_left fun k _ => ?_)
    rw [hempty, List.length_nil, Nat.zero_add, decide_eq_decide, Nat.lt_succ_iff]
  · have hcount := count_evictions (empty capacity) samples
    rw [show (empty capacity).size = 0 from rfl, Nat.zero_add] at hcount
    exact hcount

/-- Of four samples a ring of two holds the last two, the cursor having gone round twice. -/
example :
    let sample (latency : Float) : Sample :=
      ⟨⟨0, 0, by decide, by decide, by decide⟩, latency, 0, 0⟩
    let h := ofSamples 2 [sample 1, sample 2, sample 3, sample 4]
    (h.toList.map Sample.latency, h.writeAt, h.oldest) = ([3, 4], 0, 0) := by
  decide +kernel

end History

end LinkQuality
