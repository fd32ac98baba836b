import LinkQuality.NameTable
import Mathlib.Data.String.Basic

/-!
# Reading a table by name

What was put under a name is what is read there, and nothing else changes. The order of the names
does not matter for that; it makes the listing of the names ascend, each of them once.
-/

namespace LinkQuality.NameTable

variable {α : Type}

/-- Changing the entry under a name changes what is read there, or begins it. -/
theorem get?_update_self (name : String) (start : α) (f : α → α) (t : NameTable α)
    (h : ∀ a, f a = f start) : (t.update name start f).get? name = some (f start) := by
  induction t with
  | nil => simp [update, get?]
  | cons entry rest ih =>
    rw [update]
    split
    · simp [get?]
    · split
      next hn => simp [get?, hn, h entry.2]
      next hn => simpa [get?, hn] using ih

/-- What has been put under a name is read there. -/
@[simp] theorem get?_insert_self (name : String) (a : α) (t : NameTable α) :
    (t.insert name a).get? name = some a :=
  get?_update_self name a _ t fun _ => rfl

/-- Changing the entry under a name changes nothing under another one. -/
theorem get?_update_of_ne {name other : String} (h : other ≠ name) (start : α) (f : α → α)
    (t : NameTable α) : (t.update name start f).get? other = t.get? other := by
  induction t with
  | nil => simp [update, get?, h.symm]
  | cons entry rest ih =>
    rw [update]
    split
    · simp [get?, h.symm]
    · split
      next hn => simp [get?, hn, h.symm]
      next hn => simp [get?, ih]

/-- What has been put under a name is read under no other. -/
theorem get?_insert_of_ne {name other : String} (h : other ≠ name) (a : α) (t : NameTable α) :
    (t.insert name a).get? other = t.get? other :=
  get?_update_of_ne h a _ t

/-! ## The names -/

/-- A name is listed if there is an entry under it. -/
theorem mem_names_iff {name : String} {t : NameTable α} :
    name ∈ t.names ↔ ∃ a, t.get? name = some a := by
  induction t with
  | nil => exact ⟨fun h => absurd h List.not_mem_nil, fun ⟨_, h⟩ => absurd h nofun⟩
  | cons entry rest ih =>
    rw [names, List.map_cons, List.mem_cons, get?]
    split
    next hn => exact ⟨fun _ => ⟨entry.2, rfl⟩, fun _ => .inl hn.symm⟩
    next hn => exact (or_iff_right (Ne.symm hn)).trans ih

/-- Changing an entry brings in no name but its own. -/
theorem mem_names_update {name other : String} {start : α} {f : α → α} {t : NameTable α}
    (h : other ∈ (t.update name start f).names) : other = name ∨ other ∈ t.names := by
  by_cases hne : other = name
  · exact .inl hne
  · rw [mem_names_iff, get?_update_of_ne hne] at h
    exact .inr (mem_names_iff.mpr h)

/-- **Changing an entry keeps the names ascending.** -/
theorem pairwise_names_update (name : String) (start : α) (f : α → α) {t : NameTable α}
    (h : t.names.Pairwise (· < ·)) : (t.update name start f).names.Pairwise (· < ·) := by
  induction t with
  | nil => exact List.pairwise_singleton _ _
  | cons entry rest ih =>
    obtain ⟨hfirst, hrest⟩ := List.pairwise_cons.mp h
    rw [update]
    split
    next hlt =>
      refine List.pairwise_cons.mpr ⟨fun n hn => ?_, h⟩
      rcases List.mem_cons.mp hn with rfl | hn
      · exact hlt
      · exact String.lt_trans hlt (hfirst n hn)
    next hlt =>
      split
      next => exact h
      next hne =>
        refine List.pairwise_cons.mpr ⟨fun n hn => ?_, ih hrest⟩
        rcases mem_names_update hn with rfl | hn
        · exact lt_of_le_of_ne (not_lt.mp hlt) hne
        · exact hfirst n hn

/-- Changing an entry changes what is read there, or begins it, where the names ascend. -/
theorem get?_update {t : NameTable α} (h : t.names.Pairwise (· < ·)) (name : String) (start : α)
    (f : α → α) : (t.update name start f).get? name = some (f ((t.get? name).getD start)) := by
  induction t with
  | nil => simp [update, get?]
  | cons entry rest ih =>
    obtain ⟨hfirst, hrest⟩ := List.pairwise_cons.mp h
    rw [update]
    split
    next hlt =>
      -- the name comes before all others, so there is no entry under it
      have hnone : get? name (entry :: rest) = none := by
        refine Option.eq_none_iff_forall_ne_some.mpr fun a ha => ?_
        rcases List.mem_cons.mp (mem_names_iff.mpr ⟨a, ha⟩) with rfl | hmem
        · exact String.lt_irrefl _ hlt
        · exact String.lt_irrefl _ (String.lt_trans hlt (hfirst name hmem))
      rw [hnone, get?, if_pos rfl]
      rfl
    next hlt =>
      split
      next hn => rw [get?, get?, if_pos hn, if_pos hn]; rfl
      next hn => rw [get?, get?, if_neg hn, if_neg hn, ih hrest]

/-- Names that ascend are listed once each. -/
theorem nodup_names {t : NameTable α} (h : t.names.Pairwise (· < ·)) : t.names.Nodup :=
  h.imp fun hlt => ne_of_lt hlt

/-- Putting an entry under a name brings in that name and no other. -/
theorem mem_names_insert {name other : String} {a : α} {t : NameTable α} :
    other ∈ (t.insert name a).names ↔ other = name ∨ other ∈ t.names := by
  rcases eq_or_ne other name with rfl | hne
  · exact ⟨fun _ => .inl rfl, fun _ => mem_names_iff.mpr ⟨a, get?_insert_self other a t⟩⟩
  · rw [mem_names_iff, get?_insert_of_ne hne, ← mem_names_iff, or_iff_right hne]

/-- **A name has one entry**: putting one under a name makes the table longer exactly if there was
none before. -/
theorem length_insert {t : NameTable α} (h : t.names.Pairwise (· < ·)) (name : String) (a : α) :
    (t.insert name a).length = if name ∈ t.names then t.length else t.length + 1 := by
  have hlength : ∀ u : NameTable α, u.length = u.names.length := fun _ => (List.length_map ..).symm
  have hnodup := nodup_names (pairwise_names_update name a (fun _ => a) h)
  rw [hlength, hlength t]
  split
  next hmem =>
    refine (List.perm_ext_iff_of_nodup hnodup (nodup_names h)).mpr (fun other => ?_) |>.length_eq
    exact mem_names_insert.trans (or_iff_right_of_imp fun heq => heq ▸ hmem)
  next hmem =>
    have hcons : (name :: t.names).Nodup := List.nodup_cons.mpr ⟨hmem, nodup_names h⟩
    refine (List.perm_ext_iff_of_nodup hnodup hcons).mpr (fun other => ?_) |>.length_eq
    exact mem_names_insert.trans List.mem_cons.symm

end LinkQuality.NameTable
