import LinkQuality.Feed.Run
import Mathlib.Tactic.SplitIfs

/-!
# The lines of a text

A feed is cut at line breaks before its bytes are read as text. Where the bytes are those of a text
that makes no difference, for the byte of a line break is part of no other character: the pieces
are the bytes of the text's own lines (`FeedInput.splitOn_encoded`), and each of them can be read
(`FeedInput.map_text?_lines`).
-/

namespace LinkQuality

/-- **The lines of a text that can be read**: what stands between line breaks, and what follows the
last one if the text has come to its end and anything does. -/
def Text.lines (isOpen : Bool) (text : List Char) : List (List Char) :=
  let all := text.splitOn '\n'
  if isOpen || (all.getLast?.getD []).isEmpty then all.dropLast else all

namespace FeedInput

/-- The bytes of a text. -/
def encoded (text : List Char) : List UInt8 := text.flatMap String.utf8EncodeChar

/-- **A feed that brings a text.** -/
def ofText (text : String) (isOpen : Bool) : FeedInput :=
  ⟨text.toUTF8.data.toList, isOpen⟩

/-- The bytes it brings. -/
theorem bytes_ofText (text : String) (isOpen : Bool) :
    (ofText text isOpen).bytes = encoded text.toList := by
  show text.toByteArray.data.toList = _
  rw [← String.utf8Encode_toList]
  simp [List.utf8Encode, encoded]

/-! ## Cutting bytes -/

/-- Cutting at line breaks, in core's words. -/
theorem pieces_eq_splitOn (bytes : List UInt8) :
    (pieces bytes).1 :: (pieces bytes).2 = bytes.splitOn 10 := by
  induction bytes with
  | nil => rfl
  | cons b rest ih =>
    rw [List.splitOn_cons_eq_if_modifyHead, ← ih, pieces]
    by_cases hb : b = 10 <;> simp [hb]

/-- A character of several bytes has none below 128. -/
theorem le_of_mem_utf8EncodeChar {c : Char} (hc : 127 < c.toNat) :
    ∀ b ∈ String.utf8EncodeChar c, 128 ≤ b.toNat := by
  have hhigh {n m : Nat} (hm : 128 ≤ m) (hn : n + m < 256) :
      128 ≤ (UInt8.ofNat (n + m)).toNat := by
    rw [UInt8.toNat_ofNat_of_lt' hn]
    omega
  have hmany : ¬ c.val.toNat ≤ 127 := Nat.not_le.2 hc
  simp only [String.utf8EncodeChar, if_neg hmany]
  split_ifs
  all_goals simp only [List.forall_mem_cons, List.not_mem_nil, false_implies, implies_true,
    and_true]
  · refine ⟨hhigh ?_ ?_, hhigh ?_ ?_⟩ <;> omega
  · refine ⟨hhigh ?_ ?_, hhigh ?_ ?_, hhigh ?_ ?_⟩ <;> omega
  · refine ⟨hhigh ?_ ?_, hhigh ?_ ?_, hhigh ?_ ?_, hhigh ?_ ?_⟩ <;> omega

/-- **The byte of a line break is part of no other character.** -/
theorem eq_of_mem_utf8EncodeChar {c : Char} (h : (10 : UInt8) ∈ String.utf8EncodeChar c) :
    c = '\n' := by
  rcases Nat.lt_or_ge 127 c.toNat with hc | hc
  · exact absurd (le_of_mem_utf8EncodeChar hc _ h) (by decide)
  · have hone : String.utf8EncodeChar c = [UInt8.ofNat c.toNat] := if_pos hc
    rw [hone] at h
    have heq := congrArg UInt8.toNat (List.mem_singleton.1 h)
    rw [UInt8.toNat_ofNat_of_lt' (Nat.lt_of_le_of_lt hc (by decide))] at heq
    exact Char.toNat_inj.1 heq.symm

/-- What holds no break goes to the first piece. -/
theorem splitOn_append {bytes : List UInt8} (h : (10 : UInt8) ∉ bytes) (rest : List UInt8) :
    (bytes ++ rest).splitOn 10 = (rest.splitOn 10).modifyHead (bytes ++ ·) := by
  induction bytes with
  | nil => exact (congrFun List.modifyHead_id _).symm
  | cons b bytes ih =>
    obtain ⟨hb, hbytes⟩ := not_or.1 (mt List.mem_cons.2 h)
    rw [List.cons_append, List.splitOn_cons_eq_if_modifyHead, if_neg (by simpa using Ne.symm hb),
      ih hbytes, List.modifyHead_modifyHead]
    rfl

/-- **The pieces of a text's bytes are the bytes of its pieces.** -/
theorem splitOn_encoded (text : List Char) :
    (encoded text).splitOn 10 = (text.splitOn '\n').map encoded := by
  induction text with
  | nil => rfl
  | cons c text ih =>
    rw [List.splitOn_cons_eq_if_modifyHead, encoded, List.flatMap_cons]
    by_cases hc : c = '\n'
    · subst hc
      rw [if_pos (beq_self_eq_true _), List.map_cons, ← ih]
      rfl
    · have hbreak : (10 : UInt8) ∉ String.utf8EncodeChar c := mt eq_of_mem_utf8EncodeChar hc
      rw [splitOn_append hbreak, if_neg (by simpa using hc)]
      rw [← encoded, ih]
      rcases text.splitOn '\n' with _ | ⟨first, others⟩ <;> rfl

/-! ## Reading lines -/

/-- The bytes of a text are read as that text. -/
theorem text?_encoded (text : List Char) : text? (encoded text) = some text := by
  have hbytes : (⟨(encoded text).toArray⟩ : ByteArray) = text.utf8Encode := by
    rw [List.utf8Encode, ← encoded]
    exact ByteArray.ext (List.data_toByteArray).symm
  have hvalid : (⟨(encoded text).toArray⟩ : ByteArray).IsValidUTF8 :=
    hbytes ▸ ByteArray.isValidUTF8_utf8Encode
  have htext : String.fromUTF8 ⟨(encoded text).toArray⟩ hvalid = String.ofList text := by
    rw [← String.toByteArray_inj, String.toByteArray_ofList]
    exact hbytes
  rw [text?, String.fromUTF8?, dif_pos hvalid, Option.map_some, htext, String.toList_ofList]

/-- The bytes of a text are none just when the text has no character. -/
theorem isEmpty_encoded (text : List Char) : (encoded text).isEmpty = text.isEmpty := by
  cases text with
  | nil => rfl
  | cons c text =>
    rw [encoded, List.flatMap_cons]
    have hc : String.utf8EncodeChar c ≠ [] := by
      simp only [String.utf8EncodeChar]
      split_ifs
      all_goals exact List.cons_ne_nil _ _
    simp [hc]

/-- **The lines of a feed that brings a text are the lines of the text.** -/
theorem map_text?_lines (text : String) (isOpen : Bool) :
    (ofText text isOpen).lines.map text? = (Text.lines isOpen text.toList).map some := by
  have hlines : (ofText text isOpen).lines = (Text.lines isOpen text.toList).map encoded := by
    have hall := pieces_eq_splitOn (encoded text.toList)
    rw [splitOn_encoded] at hall
    have hlast : (((text.toList.splitOn '\n').map encoded).getLast?.getD []).isEmpty
        = ((text.toList.splitOn '\n').getLast?.getD []).isEmpty := by
      rw [List.getLast?_map]
      rcases (text.toList.splitOn '\n').getLast? with _ | last
      · rfl
      · exact isEmpty_encoded last
    have hopen : (ofText text isOpen).isOpen = isOpen := rfl
    simp only [lines, bytes_ofText, hall, hlast, hopen, Text.lines]
    rw [apply_ite (List.map encoded), List.map_dropLast]
  rw [hlines, List.map_map]
  exact List.map_congr_left fun line _ => text?_encoded line

end FeedInput

/-- **Lines that each come to their end** are the lines of the text they make, whether or not more
may follow. -/
theorem Text.lines_flatMap {lines : List (List Char)} (h : ∀ line ∈ lines, '\n' ∉ line)
    (isOpen : Bool) : Text.lines isOpen (lines.flatMap (· ++ ['\n'])) = lines := by
  have hsplit : (lines.flatMap (· ++ ['\n'])).splitOn '\n' = lines ++ [[]] := by
    induction lines with
    | nil => rfl
    | cons line lines ih =>
      rw [List.flatMap_cons, List.append_assoc, List.singleton_append,
        List.splitOn_append_cons_self_of_not_mem (h line List.mem_cons_self),
        ih fun l hl => h l (List.mem_cons_of_mem _ hl)]
      rfl
  simp only [Text.lines, hsplit, List.getLast?_concat, Option.getD_some, List.isEmpty_nil,
    Bool.or_true, if_true, List.dropLast_concat]

end LinkQuality
