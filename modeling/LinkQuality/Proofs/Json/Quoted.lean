import LinkQuality.Json.Quoted
import Mathlib.Tactic.SplitIfs

/-!
# Strings in JSON are read back

Each character is written in a way that a reader takes for this character and nothing else
(`Json.readString_escaped`), so a string between quotes is read up to the closing one. What is
written never holds a control character (`Json.le_of_mem_quoted`); a line of JSON is therefore cut
nowhere but at its end.
-/

namespace LinkQuality

/-- A hexadecimal digit has its value. -/
theorem Text.hexValue?_hexDigit (n : Nat) : hexValue? (hexDigit n) = some (n % 16) := by
  have h : ∀ k < 16, hexValue? (Nat.digitChar k) = some k := by decide
  exact h _ (Nat.mod_lt _ (by decide))

namespace Json

/-- The word of a control character. -/
theorem hexWord?_control {n : Nat} (h : n < 32) :
    hexWord? '0' '0' (Text.hexDigit (n / 16)) (Text.hexDigit n) = some n := by
  have hzero : Text.hexValue? '0' = some 0 := rfl
  simp only [hexWord?, hzero, Text.hexValue?_hexDigit, Option.bind_eq_bind, Option.bind_some]
  congr 1
  omega

/-- **A character is read back**, however it was written. -/
theorem readString_escaped (c : Char) (rest : List Char) :
    readString (escaped c ++ rest) = (readString rest).map fun (s, r) => (c :: s, r) := by
  unfold escaped
  split_ifs with hquote hbackslash h8 h12 hn hr ht hcontrol
  · subst hquote; rfl
  · subst hbackslash; rfl
  · subst h8; rfl
  · subst h12; rfl
  · subst hn; rfl
  · subst hr; rfl
  · subst ht; rfl
  · have htrailing : isTrailing c.toNat = false := by
      simp only [isTrailing, Bool.and_eq_false_iff, decide_eq_false_iff_not]
      omega
    have hleading : isLeading c.toNat = false := by
      simp only [isLeading, Bool.and_eq_false_iff, decide_eq_false_iff_not]
      omega
    simp only [List.cons_append, List.nil_append, readString, hexWord?_control hcontrol,
      htrailing, hleading, Bool.false_eq_true, if_false, Char.ofNat_toNat]
  · rw [List.singleton_append, readString, if_neg (by simp [hbackslash, hcontrol])]
    all_goals simp_all

/-- **A string is read back up to its closing quote**, and what follows it is left. -/
theorem readString_flatMap_escaped (s rest : List Char) :
    readString (s.flatMap escaped ++ '"' :: rest) = some (s, rest) := by
  induction s with
  | nil => rfl
  | cons c s ih =>
    rw [List.flatMap_cons, List.append_assoc, readString_escaped, ih]
    rfl

/-- A character is written without control characters. -/
theorem le_of_mem_escaped {d c : Char} (h : c ∈ escaped d) : 32 ≤ c.toNat := by
  have hshort {e : Char} (he : 32 ≤ e.toNat) (hc : c ∈ ['\\', e]) : 32 ≤ c.toNat := by
    rcases List.mem_cons.1 hc with rfl | hc
    · decide
    · rwa [List.mem_singleton.1 hc]
  have hdigit (n : Nat) : 32 ≤ (Text.hexDigit n).toNat :=
    (show ∀ k < 16, 32 ≤ (Nat.digitChar k).toNat by decide) _ (Nat.mod_lt _ (by decide))
  unfold escaped at h
  split_ifs at h with hquote hbackslash h8 h12 hn hr ht hcontrol
  · exact hshort (by decide) h
  · exact hshort (by decide) h
  · exact hshort (by decide) h
  · exact hshort (by decide) h
  · exact hshort (by decide) h
  · exact hshort (by decide) h
  · exact hshort (by decide) h
  · simp only [List.mem_cons, List.not_mem_nil, or_false] at h
    rcases h with rfl | rfl | rfl | rfl | rfl | rfl
    · decide
    · decide
    · decide
    · decide
    · exact hdigit _
    · exact hdigit _
  · rw [List.mem_singleton.1 h]
    omega

/-- **Nothing in a quoted string is a control character**, so it never breaks a line. -/
theorem le_of_mem_quoted {s : List Char} {c : Char} (h : c ∈ quoted s) : 32 ≤ c.toNat := by
  simp only [quoted, List.mem_append, List.mem_cons, List.mem_flatMap, List.not_mem_nil,
    or_false] at h
  rcases h with (rfl | ⟨d, -, hc⟩) | rfl
  · decide
  · exact le_of_mem_escaped hc
  · decide

end Json

end LinkQuality
