import LinkQuality.Proofs.Decimal.Digits
import LinkQuality.Proofs.Time.Calendar
import LinkQuality.Time.Reading

/-!
# Timestamps are read back

A timestamp is written in parts, each filled up to its width, and a reader that is told the widths
takes each part off the front again (`WrittenTime.readNumber_zeroPadded`, and likewise for years
and fractions). What it has read then names the same second, for the calendar counts back to the
day it named (`Date.toDays_ofDays`), and a leap second shows as second 60 and is counted back into
second 59.

A clock has no other way to show that a second is overlong. In the middle of a minute it shows the
next second instead (`Timestamp.asShown`), and so does every form in which it is written. What the
interchange form gives back is therefore the timestamp as it is shown (`Timestamp.ofText?_rfc3339`),
and what the form for statements gives back is that, cut to the millisecond
(`Timestamp.ofText?_sqlText`). It is the timestamp itself where an overlong second ends its minute,
and nowhere else (`Timestamp.asShown_eq_self_iff`).
-/

namespace LinkQuality

/-- Nothing is trimmed from a text that begins with something else than white space. -/
theorem Text.trimStart_cons {c : Char} (h : isBlank c = false) (rest : List Char) :
    trimStart (c :: rest) = c :: rest := by
  simp [trimStart, h]

/-! ## Parts -/

namespace WrittenTime

/-- A digit is no white space. -/
theorem isBlank_of_isDigit {c : Char} (h : Decimal.isDigit c = true) : Text.isBlank c = false := by
  simp only [Decimal.isDigit, Bool.and_eq_true, decide_eq_true_eq, Char.le_def] at h
  have hge : 48 ≤ c.toNat := h.1
  have hle : c.toNat ≤ 57 := h.2
  simp [Text.isBlank, Text.wideBlanks]
  omega

/-- Nothing is trimmed from a number. -/
theorem trimStart_zeroPadded_append (width n : Nat) (rest : List Char) :
    Text.trimStart (Timestamp.zeroPadded width n ++ rest)
      = Timestamp.zeroPadded width n ++ rest := by
  obtain ⟨c, ds, hds⟩ := List.exists_cons_of_ne_nil (Decimal.zeroPadded_ne_nil width n)
  have hc : Decimal.isDigit c = true :=
    Decimal.isDigit_of_mem_zeroPadded (by rw [hds]; exact List.mem_cons_self)
  rw [hds]
  exact Text.trimStart_cons (isBlank_of_isDigit hc) _

/-- **A number of full width is read back.** -/
theorem readNumber_zeroPadded {width n : Nat} (hw : 0 < width) (hn : n < 10 ^ width)
    (rest : List Char) :
    readNumber width (Timestamp.zeroPadded width n ++ rest) = some (n, rest) := by
  have hlen := Decimal.length_zeroPadded hw hn
  have htake : ((Timestamp.zeroPadded width n ++ rest).take width).takeWhile Decimal.isDigit
      = Timestamp.zeroPadded width n := by
    rw [List.take_left' hlen]
    exact List.takeWhile_eq_self_iff.2 fun c hc => Decimal.isDigit_of_mem_zeroPadded hc
  have hne : (Timestamp.zeroPadded width n).isEmpty = false :=
    List.isEmpty_eq_false_iff.2 (Decimal.zeroPadded_ne_nil width n)
  simp only [readNumber, trimStart_zeroPadded_append, htake, hne, Bool.false_eq_true, if_false,
    Decimal.natOfDigits_zeroPadded, List.drop_left' rfl]

/-- A mark is read where it stands. -/
theorem readMark_cons {c : Char} (h : Text.isBlank c = false) (rest : List Char) :
    readMark c (c :: rest) = some rest := by
  simp only [readMark, Text.trimStart_cons h, if_true]

/-- A year without a sign is one of four digits. -/
theorem readYear_of_isDigit {c : Char} (h : Decimal.isDigit c = true) (rest : List Char) :
    readYear (c :: rest) = (readNumber 4 (c :: rest)).map fun (n, rest) => ((n : Int), rest) := by
  have hminus : c ≠ '-' := by rintro rfl; exact Bool.noConfusion h
  have hplus : c ≠ '+' := by rintro rfl; exact Bool.noConfusion h
  simp [readYear, Text.trimStart_cons (isBlank_of_isDigit h), hminus, hplus]

/-- **A year is read back**, with its sign or without. -/
theorem readYear_yearText (year : Int) {rest : List Char} (h : Decimal.Ends rest) :
    readYear (Timestamp.yearText year ++ rest) = some (year, rest) := by
  have hspan (n : Nat) : Decimal.spanDigits (Timestamp.zeroPadded 4 n ++ rest)
      = (Timestamp.zeroPadded 4 n, rest) := by
    rw [Decimal.spanDigits_append _ h,
      Decimal.spanDigits_of_forall fun c hc => Decimal.isDigit_of_mem_zeroPadded hc]
    rfl
  rw [Timestamp.yearText]
  split
  case isTrue hyear =>
    -- the first digit tells a year without a sign from one with it
    have hread : readNumber 4 (Timestamp.zeroPadded 4 year.toNat ++ rest)
        = some (year.toNat, rest) := readNumber_zeroPadded (by decide) (by omega) rest
    obtain ⟨c, ds, hds⟩ := List.exists_cons_of_ne_nil (Decimal.zeroPadded_ne_nil 4 year.toNat)
    have hc : Decimal.isDigit c = true :=
      Decimal.isDigit_of_mem_zeroPadded (by rw [hds]; exact List.mem_cons_self)
    rw [hds, List.cons_append] at hread ⊢
    rw [readYear_of_isDigit hc, hread]
    simp only [Option.map_some, Int.toNat_of_nonneg hyear.1]
  case isFalse hyear =>
    obtain ⟨c, ds, hds⟩ := List.exists_cons_of_ne_nil (Decimal.zeroPadded_ne_nil 4 year.natAbs)
    have hvalue := Decimal.natOfDigits_zeroPadded 4 year.natAbs
    have hspan := hspan year.natAbs
    rw [hds] at hvalue hspan ⊢
    by_cases hneg : year < 0
    · have hblank : Text.isBlank '-' = false := by decide
      rw [if_pos hneg, List.cons_append]
      simp only [readYear, Text.trimStart_cons hblank, hspan, hvalue, if_true]
      congr 2
      omega
    · have hblank : Text.isBlank '+' = false := by decide
      rw [if_neg hneg, List.cons_append]
      simp only [readYear, Text.trimStart_cons hblank, hspan, hvalue, Bool.false_eq_true, if_false]
      congr 2
      omega

/-- **A fraction is read back** in units of its last digit. -/
theorem readFraction_zeroPadded {width n : Nat} (hw : 0 < width) (hle : width ≤ 9)
    (hn : n < 10 ^ width) {rest : List Char} (h : Decimal.Ends rest) :
    readFraction ('.' :: Timestamp.zeroPadded width n ++ rest)
      = some (n * 10 ^ (9 - width), rest) := by
  have hlen := Decimal.length_zeroPadded hw hn
  obtain ⟨c, ds, hds⟩ := List.exists_cons_of_ne_nil (Decimal.zeroPadded_ne_nil width n)
  have hspan : Decimal.spanDigits (Timestamp.zeroPadded width n ++ rest)
      = (Timestamp.zeroPadded width n, rest) := by
    rw [Decimal.spanDigits_append _ h,
      Decimal.spanDigits_of_forall fun c hc => Decimal.isDigit_of_mem_zeroPadded hc]
    rfl
  have htake : (Timestamp.zeroPadded width n).take 9 = Timestamp.zeroPadded width n :=
    List.take_of_length_le (by omega)
  have hvalue := Decimal.natOfDigits_zeroPadded width n
  rw [hds] at hlen hspan htake hvalue ⊢
  simp only [readFraction, List.cons_append] at hspan ⊢
  simp only [hspan, htake, hvalue, hlen, Nat.pow_eq]

end WrittenTime

namespace Timestamp

/-! ## Bounds of the parts -/

/-- The day of a timestamp is one that exists. -/
theorem isValid_date (t : Timestamp) : t.date.isValid = true := by
  have hge := t.seconds_ge
  have hle := t.seconds_le
  exact Date.isValid_ofDays (by omega) (by omega)

/-- Month and day of a timestamp fit two digits. -/
theorem date_lt (t : Timestamp) : t.date.month < 100 ∧ t.date.day < 100 := by
  have hvalid := t.isValid_date
  simp only [Date.isValid, Bool.and_eq_true, decide_eq_true_eq] at hvalid
  have hmonth := hvalid.1.1.2
  have hday := hvalid.2
  have hlength : Date.monthLength t.date.year t.date.month ≤ 31 := by
    unfold Date.monthLength
    split
    · split <;> omega
    all_goals omega
  omega

/-- What a clock shows at a timestamp: second 60 at the most. -/
theorem clock_lt (t : Timestamp) :
    t.fields.hour < 24 ∧ t.fields.minute < 60 ∧ t.shownSecond ≤ 60 ∧
      t.fields.second < 60 := by
  have hnanos := t.nanos_lt
  simp only [shownSecond, fields]
  omega

/-! ## Reading -/

/-- **A written time is read part by part.** Date and clock are read back whatever letter stands
between them and however the fraction is written, as long as each is read as such. -/
theorem read_written (t : Timestamp) (separator : Char) {fraction : List Char} {nanos : Nat}
    (hseparator : ∀ rest, WrittenTime.readSeparator (separator :: rest) = some rest)
    (hfraction : WrittenTime.readFraction (fraction ++ ['Z']) = some (nanos, ['Z'])) :
    WrittenTime.read (t.dateText ++ separator :: t.clockText ++ fraction ++ ['Z'])
      = some ⟨t.date, t.fields.hour, t.fields.minute, t.shownSecond, nanos, 0⟩ := by
  obtain ⟨hmonth, hday⟩ := t.date_lt
  obtain ⟨hhour, hminute, hsecond, -⟩ := t.clock_lt
  have htwo {n : Nat} (hn : n < 100) (rest : List Char) :
      WrittenTime.readNumber 2 (zeroPadded 2 n ++ rest) = some (n, rest) :=
    WrittenTime.readNumber_zeroPadded (by decide) hn rest
  have hyear (rest : List Char) :
      WrittenTime.readYear (yearText t.date.year ++ '-' :: rest)
        = some (t.date.year, '-' :: rest) :=
    WrittenTime.readYear_yearText _ (Decimal.ends_cons rfl rest)
  have hdash := WrittenTime.readMark_cons (show Text.isBlank '-' = false by decide)
  have hcolon := WrittenTime.readMark_cons (show Text.isBlank ':' = false by decide)
  have hoffset : WrittenTime.readOffset ['Z'] = some (0, []) := rfl
  simp only [WrittenTime.read, dateText, clockText, List.append_assoc, List.cons_append,
    Option.bind_eq_bind, Option.bind_some, hyear, hdash, hcolon, htwo hmonth, htwo hday,
    htwo (Nat.lt_trans hhour (by decide)), htwo (Nat.lt_trans hminute (by decide)),
    htwo (Nat.lt_of_le_of_lt hsecond (by decide)), hseparator, hfraction, hoffset, List.all_nil,
    if_true]

/-! ## Overlong seconds -/

/-- **A timestamp as a clock shows it**: a second that is overlong in the middle of a minute shows
as the one that follows. -/
def asShown (t : Timestamp) : Timestamp :=
  if h : t.IsRegular then t
  else
    { seconds := t.seconds + 1
      nanos := t.nanos - 1000000000
      seconds_ge := Int.le_add_one t.seconds_ge
      seconds_le := by
        have hle := t.seconds_le
        rw [IsRegular] at h
        omega
      nanos_lt := Nat.lt_of_le_of_lt (Nat.sub_le ..) t.nanos_lt }

theorem asShown_of_isRegular {t : Timestamp} (h : t.IsRegular) : t.asShown = t := dif_pos h

/-- Second and nanosecond of what is shown. -/
theorem asShown_parts (t : Timestamp) :
    t.IsRegular ∧ t.asShown = t ∨
      1000000000 ≤ t.nanos ∧ t.seconds % 60 < 59 ∧ t.asShown.seconds = t.seconds + 1 ∧
        t.asShown.nanos = t.nanos - 1000000000 := by
  by_cases h : t.IsRegular
  · exact .inl ⟨h, asShown_of_isRegular h⟩
  · have hparts : t.asShown.seconds = t.seconds + 1 ∧ t.asShown.nanos = t.nanos - 1000000000 := by
      rw [asShown, dif_neg h]
      exact ⟨rfl, rfl⟩
    rw [IsRegular] at h
    exact .inr ⟨by omega, by omega, hparts⟩

/-- **What is shown is the timestamp itself** just if an overlong second ends its minute. -/
theorem asShown_eq_self_iff {t : Timestamp} : t.asShown = t ↔ t.IsRegular := by
  refine ⟨fun heq => ?_, asShown_of_isRegular⟩
  rcases t.asShown_parts with ⟨hregular, -⟩ | ⟨-, -, hseconds, -⟩
  · exact hregular
  · rw [heq] at hseconds
    omega

/-- What is shown is shown as it is. -/
theorem isRegular_asShown (t : Timestamp) : t.asShown.IsRegular := by
  rcases t.asShown_parts with ⟨hregular, heq⟩ | ⟨-, -, -, hnanos⟩
  · rwa [heq]
  · have hlt := t.nanos_lt
    rw [IsRegular, hnanos]
    omega

/-- The fraction of the second is the same. -/
theorem nanos_asShown_mod (t : Timestamp) :
    t.asShown.nanos % 1000000000 = t.nanos % 1000000000 := by
  rcases t.asShown_parts with ⟨-, heq⟩ | ⟨hge, -, -, hnanos⟩
  · rw [heq]
  · rw [hnanos]
    omega

/-- **The second that is shown** is that of what is shown, and 60 in a leap second. -/
theorem shownSecond_eq (t : Timestamp) :
    (t.shownSecond : Int) = t.asShown.seconds - t.seconds + t.fields.second +
        t.asShown.nanos / 1000000000 ∧
      t.shownSecond / 60 = t.asShown.nanos / 1000000000 := by
  have hlt := t.nanos_lt
  simp only [shownSecond, fields]
  rcases t.asShown_parts with ⟨hregular, heq⟩ | ⟨hge, hmiddle, hseconds, hnanos⟩
  · rw [heq]
    rw [IsRegular] at hregular
    omega
  · rw [hseconds, hnanos]
    omega

/-- **What was written is a timestamp again**, the one that was shown, with the nanoseconds that
were written; a leap second is read where one is shown. -/
theorem timestamp?_written (t : Timestamp) (nanos : Nat) :
    WrittenTime.timestamp?
        ⟨t.date, t.fields.hour, t.fields.minute, t.shownSecond, nanos, 0⟩
      = ofParts? t.asShown.seconds (t.asShown.nanos / 1000000000 * 1000000000 + nanos) := by
  obtain ⟨hhour, hminute, hsecond, -⟩ := t.clock_lt
  obtain ⟨hshown, hleap⟩ := t.shownSecond_eq
  have hdays : t.date.toDays = t.seconds / 86400 := Date.toDays_ofDays _
  have hclock : t.seconds / 86400 * 86400 +
      ((t.fields.hour * 3600 + t.fields.minute * 60 + t.shownSecond -
        t.asShown.nanos / 1000000000 : Nat) : Int) - 0 = t.asShown.seconds := by
    have hfields : t.seconds / 86400 * 86400 +
        (t.fields.hour * 3600 + t.fields.minute * 60 + t.fields.second : Nat) = t.seconds := by
      simp only [fields]
      omega
    omega
  rw [WrittenTime.timestamp?, if_pos (by simp [t.isValid_date, hhour, hminute, hsecond])]
  simp only [hdays, hleap]
  rw [hclock, Nat.add_comm]

/-- A timestamp that is shown as it is is the one with its parts. -/
theorem ofParts?_of_isRegular {t : Timestamp} (h : t.IsRegular) :
    ofParts? t.seconds t.nanos = some t := by
  rw [ofParts?, dif_pos ⟨t.seconds_ge, t.seconds_le, t.nanos_lt⟩]
  exact if_pos h

/-- **A timestamp is read back from its interchange form** as it is shown, before 1970, in years of
any length and inside leap seconds alike. -/
theorem ofText?_rfc3339 (t : Timestamp) : ofText? t.rfc3339 = some t.asShown := by
  have hfraction : WrittenTime.readFraction (t.fractionText ++ ['Z'])
      = some (t.nanos % 1000000000, ['Z']) := by
    have hends : Decimal.Ends ['Z'] := Decimal.ends_cons rfl []
    simp only [fractionText]
    split_ifs with hwhole hmillis hmicros
    · rw [hwhole]
      rfl
    · rw [WrittenTime.readFraction_zeroPadded (by decide) (by decide) (by omega) hends]
      congr 2
      omega
    · rw [WrittenTime.readFraction_zeroPadded (by decide) (by decide) (by omega) hends]
      congr 2
      omega
    · rw [WrittenTime.readFraction_zeroPadded (by decide) (by decide) (by omega) hends]
      congr 2
      omega
  have hread := t.read_written 'T' (fun _ => rfl) hfraction
  rw [ofText?, rfc3339, hread, Option.bind_eq_bind, Option.bind_some, timestamp?_written,
    ← t.nanos_asShown_mod, Nat.div_add_mod', ofParts?_of_isRegular t.isRegular_asShown]

/-! ## What times are written with -/

/-- A date is written with digits and signs. -/
theorem isDigit_or_of_mem_dateText {t : Timestamp} {c : Char} (h : c ∈ t.dateText) :
    Decimal.isDigit c = true ∨ c = '-' ∨ c = '+' := by
  have hnumber {width n : Nat} (hc : c ∈ zeroPadded width n) :
      Decimal.isDigit c = true ∨ c = '-' ∨ c = '+' :=
    Or.inl (Decimal.isDigit_of_mem_zeroPadded hc)
  simp only [dateText, List.mem_append, List.mem_cons] at h
  rcases h with (h | rfl | h) | rfl | h
  · unfold yearText at h
    split at h
    · exact hnumber h
    · rcases List.mem_cons.1 h with rfl | h
      · split <;> simp
      · exact hnumber h
  · simp
  · exact hnumber h
  · simp
  · exact hnumber h

/-- What a clock shows is written with digits and colons. -/
theorem isDigit_or_of_mem_clockText {t : Timestamp} {c : Char} (h : c ∈ t.clockText) :
    Decimal.isDigit c = true ∨ c = ':' := by
  simp only [clockText, List.mem_append, List.mem_cons] at h
  rcases h with (h | rfl | h) | rfl | h
  · exact Or.inl (Decimal.isDigit_of_mem_zeroPadded h)
  · exact Or.inr rfl
  · exact Or.inl (Decimal.isDigit_of_mem_zeroPadded h)
  · exact Or.inr rfl
  · exact Or.inl (Decimal.isDigit_of_mem_zeroPadded h)

/-- The characters of the form for statements. -/
theorem isDigit_or_of_mem_sqlText {t : Timestamp} {c : Char} (h : c ∈ t.sqlText) :
    Decimal.isDigit c = true ∨ c ∈ ['-', '+', ' ', ':', '.'] := by
  simp only [sqlText, millisText, List.mem_append, List.mem_cons] at h
  rcases h with (h | rfl | h) | rfl | h
  · rcases isDigit_or_of_mem_dateText h with h | rfl | rfl
    · exact Or.inl h
    · simp
    · simp
  · simp
  · rcases isDigit_or_of_mem_clockText h with h | rfl
    · exact Or.inl h
    · simp
  · simp
  · exact Or.inl (Decimal.isDigit_of_mem_zeroPadded h)

/-! ## Milliseconds -/

/-- **A timestamp cut to the millisecond.** -/
def toMillis (t : Timestamp) : Timestamp where
  seconds := t.seconds
  nanos := t.nanos / 1000000 * 1000000
  seconds_ge := t.seconds_ge
  seconds_le := t.seconds_le
  nanos_lt := Nat.lt_of_le_of_lt (Nat.div_mul_le_self ..) t.nanos_lt

/-- What is cut is shown as it is, if it was before. -/
theorem IsRegular.toMillis {t : Timestamp} (h : t.IsRegular) : t.toMillis.IsRegular := by
  rw [IsRegular] at h ⊢
  simp only [Timestamp.toMillis]
  omega

/-- **The form for statements shows a timestamp cut to the millisecond**: read as universal time,
that is what it says. -/
theorem ofText?_sqlText (t : Timestamp) :
    ofText? (t.sqlText ++ ['Z']) = some t.asShown.toMillis := by
  have hfraction : WrittenTime.readFraction (t.millisText ++ ['Z'])
      = some (t.nanos % 1000000000 / 1000000 * 1000000, ['Z']) := by
    rw [millisText, WrittenTime.readFraction_zeroPadded (by decide) (by decide) (by omega)
      (Decimal.ends_cons rfl [])]
    rfl
  have hread := t.read_written ' ' (fun _ => rfl) hfraction
  have hnanos : t.asShown.nanos / 1000000000 * 1000000000 +
      t.asShown.nanos % 1000000000 / 1000000 * 1000000 = t.asShown.toMillis.nanos := by
    simp only [toMillis]
    omega
  rw [ofText?, sqlText, hread, Option.bind_eq_bind, Option.bind_some, timestamp?_written,
    ← t.nanos_asShown_mod, hnanos]
  exact ofParts?_of_isRegular t.isRegular_asShown.toMillis

end Timestamp

end LinkQuality
