import LinkQuality.Decimal.Layout
import LinkQuality.Decimal.Reading
import LinkQuality.Time.Timestamp
import Mathlib.Algebra.Group.Nat.Defs
import Mathlib.Data.List.TakeDrop
import Mathlib.Data.List.TakeWhile

/-!
# Digits that are written and read

A number filled up with zeros to a width consists of digits, keeps its value, and has just that
width if the number fits. A reader that takes a run of digits takes no more than the run, whatever
follows it, as long as no digit does.
-/

namespace LinkQuality

namespace Decimal

/-- What a run of digits denotes, in core's words. -/
theorem natOfDigits_eq_ofDigitChars (cs : List Char) :
    natOfDigits cs = Nat.ofDigitChars 10 cs 0 := by
  simp only [natOfDigits, Nat.ofDigitChars, Nat.mul_comm]

/-- **Zeros filled up on the left do not change a number.** -/
theorem natOfDigits_zeroPadded (width n : Nat) :
    natOfDigits (Timestamp.zeroPadded width n) = n := by
  rw [natOfDigits_eq_ofDigitChars, Timestamp.zeroPadded, Nat.ofDigitChars_append]
  rw [Nat.ofDigitChars_replicate_zero, Nat.mul_zero]
  exact Nat.ofDigitChars_toDigits (by decide) (by decide)

/-- A number filled up with zeros consists of digits. -/
theorem isDigit_of_mem_zeroPadded {width n : Nat} {c : Char}
    (hc : c ∈ Timestamp.zeroPadded width n) : isDigit c = true := by
  rcases List.mem_append.1 hc with h | h
  · rw [List.eq_of_mem_replicate h]
    rfl
  · exact Nat.isDigit_of_mem_toDigits (by decide) (by decide) h

/-- A number that fits is filled up to the width. -/
theorem length_zeroPadded {width n : Nat} (hw : 0 < width) (hn : n < 10 ^ width) :
    (Timestamp.zeroPadded width n).length = width := by
  have hle := (Nat.length_toDigits_le_iff (b := 10) (by decide) hw).2 hn
  rw [Timestamp.zeroPadded, List.length_append, List.length_replicate]
  omega

/-- A number has a digit, filled up or not. -/
theorem zeroPadded_ne_nil (width n : Nat) : Timestamp.zeroPadded width n ≠ [] := by
  intro h
  have hlen := congrArg List.length h
  rw [Timestamp.zeroPadded, List.length_append, List.length_nil] at hlen
  have := Nat.length_toDigits_pos (b := 10) (n := n)
  omega

/-! ## Runs of digits -/

/-- The text does not go on with a digit. -/
def Ends (rest : List Char) : Prop := ∀ c ∈ rest.head?, isDigit c = false

/-- A text that goes on with something else than a digit. -/
theorem ends_cons {c : Char} (h : isDigit c = false) (rest : List Char) : Ends (c :: rest) := by
  intro d hd
  cases hd
  exact h

/-- **A run of digits is read to where the text ends or goes on with something else.** What a text
begins with is not changed by what is put after it. -/
theorem spanDigits_append (cs : List Char) {rest : List Char} (h : Ends rest) :
    spanDigits (cs ++ rest) = ((spanDigits cs).1, (spanDigits cs).2 ++ rest) := by
  have hrest : rest.takeWhile isDigit = [] ∧ rest.dropWhile isDigit = rest := by
    cases rest with
    | nil => exact ⟨rfl, rfl⟩
    | cons c r =>
      have hc : ¬ isDigit c = true := by simp [h c rfl]
      exact ⟨List.takeWhile_cons_of_neg hc, List.dropWhile_cons_of_neg hc⟩
  simp only [spanDigits, List.span_eq_takeWhile_dropWhile]
  induction cs with
  | nil => rw [List.nil_append, hrest.1, hrest.2]; rfl
  | cons c r ih =>
    simp only [Prod.mk.injEq] at ih
    cases hc : isDigit c
    · simp [hc]
    · simp [hc, ih]

/-- A text of digits is a run. -/
theorem spanDigits_of_forall {ds : List Char} (h : ∀ c ∈ ds, isDigit c = true) :
    spanDigits ds = (ds, []) := by
  rw [spanDigits, List.span_eq_takeWhile_dropWhile, List.takeWhile_eq_self_iff.2 h,
    List.dropWhile_eq_nil_iff.2 h]

end Decimal

/-! ## What numbers are written with -/

namespace NumberLayout

open Decimal (isDigit)

/-- The characters of written magnitudes: digits, the point and what marks an exponent. -/
def isNumeral (c : Char) : Bool := isDigit c || c = '.' || c = 'e' || c = '+' || c = '-'

/-- Digits are such characters. -/
theorem isNumeral_of_isDigit {c : Char} (h : isDigit c = true) : isNumeral c = true := by
  simp only [isNumeral, h, Bool.true_or]

/-- None of them is a control character or white space. -/
theorem le_of_isNumeral {c : Char} (h : isNumeral c = true) : 43 ≤ c.toNat := by
  simp only [isNumeral, Bool.or_eq_true, decide_eq_true_eq] at h
  rcases h with (((h | rfl) | rfl) | rfl) | rfl
  · simp only [isDigit, Bool.and_eq_true, decide_eq_true_eq] at h
    exact Nat.le_trans (by decide) (show '0'.toNat ≤ c.toNat from h.1)
  · decide
  · decide
  · decide
  · decide

/-- A number written in decimal consists of digits. -/
theorem isDigit_of_mem_digitsOf {n : Nat} {c : Char} (h : c ∈ Decimal.digitsOf n) :
    isDigit c = true :=
  Nat.isDigit_of_mem_toDigits (by decide) (by decide) h

/-- Placing a point among digits adds no other characters. -/
theorem isNumeral_of_mem_place {pointZero : Bool} {digits : List Char} {point : Int} {c : Char}
    (hdigits : ∀ d ∈ digits, isDigit d = true) (h : c ∈ place pointZero digits point) :
    isNumeral c = true := by
  have hd (hc : c ∈ digits) : isNumeral c = true := isNumeral_of_isDigit (hdigits c hc)
  unfold place at h
  split at h
  · simp only [List.mem_append, List.mem_cons, List.mem_replicate] at h
    rcases h with (rfl | rfl | ⟨-, rfl⟩) | hc
    · rfl
    · rfl
    · rfl
    · exact hd hc
  · rcases List.mem_cons.1 h with rfl | h
    · rfl
    · rcases List.mem_cons.1 h with rfl | h
      · rfl
      · exact hd h
  · split at h
    · simp only [List.mem_append, List.mem_replicate] at h
      rcases h with (hc | ⟨-, rfl⟩) | hc
      · exact hd hc
      · rfl
      · split at hc
        · rcases List.mem_cons.1 hc with rfl | hc
          · rfl
          · rw [List.mem_singleton.1 hc]
            rfl
        · exact absurd hc List.not_mem_nil
    · rcases List.mem_append.1 h with hc | hc
      · exact hd (List.mem_of_mem_take hc)
      · rcases List.mem_cons.1 hc with rfl | hc
        · rfl
        · exact hd (List.mem_of_mem_drop hc)

/-- Nor does an exponent, but for its mark and its sign. -/
theorem isNumeral_of_mem_scientific {digits : List Char} {e : Int} {c : Char}
    (hdigits : ∀ d ∈ digits, isDigit d = true) (h : c ∈ scientific digits e) :
    isNumeral c = true := by
  have hd (hc : c ∈ digits) : isNumeral c = true := isNumeral_of_isDigit (hdigits c hc)
  unfold scientific at h
  rcases List.mem_append.1 h with hc | hc
  · match digits, hd, hc with
    | [d], hd, hc => exact hd hc
    | d :: d' :: rest, hd, hc =>
      rcases List.mem_cons.1 hc with rfl | hc
      · exact hd List.mem_cons_self
      · rcases List.mem_cons.1 hc with rfl | hc
        · rfl
        · exact hd (List.mem_cons_of_mem _ hc)
  · rcases List.mem_cons.1 hc with rfl | hc
    · rfl
    · rcases List.mem_cons.1 hc with rfl | hc
      · split <;> rfl
      · exact isNumeral_of_isDigit (isDigit_of_mem_digitsOf hc)

/-- **A magnitude is written with such characters alone.** -/
theorem isNumeral_of_mem_magnitude {layout : NumberLayout} {b : Binary} {c : Char}
    (h : c ∈ layout.magnitude b) : isNumeral c = true := by
  have hdigits (n : Nat) : ∀ d ∈ Decimal.digitsOf n, isDigit d = true :=
    fun _ => isDigit_of_mem_digitsOf
  unfold magnitude at h
  split at h
  · exact isNumeral_of_mem_place (by simp [isDigit]) h
  · simp only at h
    split at h
    · exact isNumeral_of_mem_place (hdigits _) h
    · exact isNumeral_of_mem_scientific (hdigits _) h

/-- A magnitude is written with a character at least. -/
theorem magnitude_ne_nil (layout : NumberLayout) (b : Binary) : layout.magnitude b ≠ [] := by
  have hplace (pointZero : Bool) (n : Nat) (point : Int) :
      place pointZero (Decimal.digitsOf n) point ≠ [] := by
    have hdigits : Decimal.digitsOf n ≠ [] :=
      List.ne_nil_of_length_pos (Nat.length_toDigits_pos (b := 10))
    unfold place
    split
    · exact List.cons_ne_nil _ _
    · exact List.cons_ne_nil _ _
    · split
      · simp [hdigits]
      · simp
  unfold magnitude
  split
  · exact hplace _ 0 1
  · simp only
    split
    · exact hplace _ _ _
    · simp [scientific]

/-- **What a number is written with**: such characters, or those of the words for what is no finite
number. -/
theorem isNumeral_or_of_mem_chars {layout : NumberLayout} {x : Float} {c : Char}
    (h : c ∈ layout.chars x) :
    isNumeral c = true ∨ c ∈ layout.nan.toList ∨ ∃ s, c ∈ (layout.infinity s).toList := by
  unfold chars at h
  split at h
  · exact Or.inr (Or.inl h)
  · exact Or.inr (Or.inr ⟨_, h⟩)
  · rcases List.mem_append.1 h with hc | hc
    · split at hc
      · rw [List.mem_singleton.1 hc]
        exact Or.inl rfl
      · exact absurd hc List.not_mem_nil
    · exact Or.inl (isNumeral_of_mem_magnitude hc)

end NumberLayout

end LinkQuality
