import LinkQuality.Json.Reading
import LinkQuality.Proofs.Decimal.Digits

/-!
# Where a number in JSON ends

What a reader takes for a number at the front of a text does not depend on what comes after it, as
long as that is nothing a number could go on with. This is shown part by part, as numbers are read:
whole part, fraction, exponent, sign. A number that is read back when it stands alone is therefore
read back in front of a comma or a brace as well (`Json.readNumber_append_of_eq`).
-/

namespace LinkQuality.Json

open Decimal (Ends isDigit spanDigits spanDigits_append)

/-- The text does not go on with anything a number could go on with. -/
def Closed (rest : List Char) : Prop :=
  ∀ c ∈ rest.head?, NumberLayout.isNumeral c = false ∧ c ≠ 'E'

variable {rest : List Char}

/-- A text that goes on with something else. -/
theorem closed_cons {c : Char} (hc : NumberLayout.isNumeral c = false) (hE : c ≠ 'E')
    (cs : List Char) : Closed (c :: cs) := by
  intro d hd
  cases hd
  exact ⟨hc, hE⟩

/-- It does not go on with a digit in particular. -/
theorem Closed.ends (h : Closed rest) : Ends rest := by
  intro c hc
  have hnumeral := (h c hc).1
  simp only [NumberLayout.isNumeral, Bool.or_eq_false_iff] at hnumeral
  exact hnumeral.1.1.1.1

/-- Nor with a given character that numbers are written with. -/
theorem Closed.ne (h : Closed rest) {c : Char} (hc : NumberLayout.isNumeral c = true ∨ c = 'E')
    (cs : List Char) : rest ≠ c :: cs := by
  rintro rfl
  obtain ⟨hnumeral, hE⟩ := h c rfl
  rcases hc with hc | hc
  · exact Bool.noConfusion (hc.symm.trans hnumeral)
  · exact hE hc

/-- The same reading, with something left at the end. -/
def leaving {α : Type} (rest : List Char) (r : α × List Char) : α × List Char := (r.1, r.2 ++ rest)

/-- The whole part of a number is read alike. -/
theorem readWhole_append (cs : List Char) (h : Closed rest) :
    readWhole (cs ++ rest) = (readWhole cs).map (leaving rest) := by
  rw [readWhole, readWhole, spanDigits_append cs h.ends]
  generalize spanDigits cs = span
  obtain ⟨ds, r⟩ := span
  split <;> simp_all [leaving]

/-- What is no fraction is left alone. -/
theorem readFraction_of_ne {cs : List Char} (h : ∀ r, cs ≠ '.' :: r) :
    readFraction cs = some ([], cs) := by
  unfold readFraction
  split
  · exact absurd rfl (h _)
  · rfl

/-- The fraction of a number is read alike. -/
theorem readFraction_append (cs : List Char) (h : Closed rest) :
    readFraction (cs ++ rest) = (readFraction cs).map (leaving rest) := by
  rcases cs with _ | ⟨c, cs⟩
  · exact readFraction_of_ne fun r => h.ne (Or.inl rfl) r
  · by_cases hc : c = '.'
    · subst hc
      rw [List.cons_append, readFraction, readFraction, spanDigits_append cs h.ends]
      generalize spanDigits cs = span
      obtain ⟨ds, r⟩ := span
      cases ds <;> rfl
    · rw [readFraction_of_ne (by simp [hc]), readFraction_of_ne (by simp [hc])]
      rfl

/-- Takes off a sign, if there is one. -/
def splitSign : List Char → Bool × List Char
  | '-' :: r => (true, r)
  | '+' :: r => (false, r)
  | r => (false, r)

/-- A sign is taken off alike. -/
theorem splitSign_append (cs : List Char) (h : Closed rest) :
    splitSign (cs ++ rest) = leaving rest (splitSign cs) := by
  have hnone {cs : List Char} (hminus : ∀ r, cs ≠ '-' :: r) (hplus : ∀ r, cs ≠ '+' :: r) :
      splitSign cs = (false, cs) := by
    unfold splitSign
    split
    · exact absurd rfl (hminus _)
    · exact absurd rfl (hplus _)
    · rfl
  rcases cs with _ | ⟨c, cs⟩
  · exact hnone (fun r => h.ne (Or.inl rfl) r) (fun r => h.ne (Or.inl rfl) r)
  · by_cases hminus : c = '-'
    · subst hminus; rfl
    by_cases hplus : c = '+'
    · subst hplus; rfl
    · rw [hnone (by simp [hminus]) (by simp [hplus]), hnone (by simp [hminus]) (by simp [hplus])]
      rfl

/-- What an exponent is after its mark: a sign, if there is one, and digits. -/
theorem readExponent_mark {c : Char} (hc : c = 'e' ∨ c = 'E') (cs : List Char) :
    Decimal.readExponent (c :: cs) =
      match spanDigits (splitSign cs).2 with
      | ([], _) => none
      | (ds, after) =>
        let n : Int := Decimal.natOfDigits ds
        some (if (splitSign cs).1 then -n else n, after) := by
  exact if_pos hc

/-- What has no mark is no exponent and left alone. -/
theorem readExponent_of_ne {cs : List Char} (he : ∀ r, cs ≠ 'e' :: r) (hE : ∀ r, cs ≠ 'E' :: r) :
    Decimal.readExponent cs = some (0, cs) := by
  unfold Decimal.readExponent
  split
  case h_1 c r =>
    rw [if_neg]
    rintro (rfl | rfl)
    · exact he r rfl
    · exact hE r rfl
  case h_2 => rfl

/-- The exponent of a number is read alike. -/
theorem readExponent_append (cs : List Char) (h : Closed rest) :
    Decimal.readExponent (cs ++ rest) = (Decimal.readExponent cs).map (leaving rest) := by
  rcases cs with _ | ⟨c, cs⟩
  · exact readExponent_of_ne (fun r => h.ne (Or.inl rfl) r) (fun r => h.ne (Or.inr rfl) r)
  · by_cases hc : c = 'e' ∨ c = 'E'
    · rw [List.cons_append, readExponent_mark hc, readExponent_mark hc, splitSign_append cs h,
        leaving, spanDigits_append _ h.ends]
      generalize spanDigits (splitSign cs).2 = span
      obtain ⟨ds, r⟩ := span
      cases ds <;> rfl
    · have hne (d : Char) (hd : d = 'e' ∨ d = 'E') (cs r : List Char) : c :: cs ≠ d :: r := by
        rintro heq
        obtain ⟨rfl, -⟩ := List.cons.inj heq
        exact hc hd
      rw [readExponent_of_ne (hne _ (Or.inl rfl) _) (hne _ (Or.inr rfl) _), List.cons_append,
        readExponent_of_ne (hne _ (Or.inl rfl) _) (hne _ (Or.inr rfl) _)]
      rfl

/-- A number without its sign is read alike. -/
theorem readLiteral_append (cs : List Char) (h : Closed rest) :
    readLiteral (cs ++ rest) = (readLiteral cs).map (leaving rest) := by
  rw [readLiteral, readLiteral, readWhole_append cs h]
  rcases readWhole cs with _ | ⟨whole, r⟩
  · rfl
  simp only [Option.map_some, Option.bind_eq_bind, Option.bind_some, leaving,
    readFraction_append r h]
  rcases readFraction r with _ | ⟨fraction, r⟩
  · rfl
  simp only [Option.map_some, Option.bind_some, leaving, readExponent_append r h]
  rcases Decimal.readExponent r with _ | ⟨exponent, r⟩ <;> rfl

/-- A number, once its sign is known. -/
def readUnsigned (negative : Bool) (cs : List Char) : Option (Float × List Char) := do
  let (literal, rest) ← readLiteral cs
  if literal.value.isFinite then some (if negative then -literal.value else literal.value, rest)
  else none

/-- It is read alike. -/
theorem readUnsigned_append (negative : Bool) (cs : List Char) (h : Closed rest) :
    readUnsigned negative (cs ++ rest) = (readUnsigned negative cs).map (leaving rest) := by
  rw [readUnsigned, readUnsigned, readLiteral_append cs h]
  rcases readLiteral cs with _ | ⟨literal, r⟩
  · rfl
  simp only [Option.map_some, Option.bind_eq_bind, Option.bind_some, leaving]
  split <;> rfl

/-- Takes off a minus, if there is one. -/
def splitMinus : List Char → Bool × List Char
  | '-' :: r => (true, r)
  | r => (false, r)

/-- A minus is taken off alike. -/
theorem splitMinus_append (cs : List Char) (h : Closed rest) :
    splitMinus (cs ++ rest) = leaving rest (splitMinus cs) := by
  have hnone {cs : List Char} (hminus : ∀ r, cs ≠ '-' :: r) : splitMinus cs = (false, cs) := by
    unfold splitMinus
    split
    · exact absurd rfl (hminus _)
    · rfl
  rcases cs with _ | ⟨c, cs⟩
  · exact hnone fun r => h.ne (Or.inl rfl) r
  · by_cases hminus : c = '-'
    · subst hminus; rfl
    · rw [hnone (by simp [hminus]), hnone (by simp [hminus])]
      rfl

/-- **A number is read alike, whatever comes after it** that a number could not go on with. -/
theorem readNumber_append (cs : List Char) (h : Closed rest) :
    readNumber (cs ++ rest) = (readNumber cs).map (leaving rest) := by
  have hread (cs : List Char) :
      readNumber cs = readUnsigned (splitMinus cs).1 (splitMinus cs).2 := rfl
  rw [hread, hread, splitMinus_append cs h]
  exact readUnsigned_append _ _ h

/-- A number of which nothing is left is read back in front of anything else. -/
theorem readNumber_append_of_eq {cs : List Char} {x : Float} (hx : readNumber cs = some (x, []))
    (h : Closed rest) : readNumber (cs ++ rest) = some (x, rest) := by
  rw [readNumber_append cs h, hx]
  rfl

end LinkQuality.Json
