import LinkQuality.Time.Calendar

/-!
# The calendar names every day once

Naming a day and counting back from its name returns the same day (`Date.toDays_ofDays`), and the
name of a day in the range of timestamps is a day that exists (`Date.isValid_ofDays`).

Both rest on the place of a day in the cycle of four hundred years: so many whole centuries, so
many spans of four years, so many years and so many days on top, with March the first month. A
place of that kind says at once what the divisions of the calendar come to – the sums that take
the number of a day apart all leave a remainder by one too large only on the last day of a leap
year, and that day is singled out by `Date.Place.leap`.
-/

namespace LinkQuality.Date

/-- **A place in the cycle**: centuries, spans of four years, years and days, each counted from
the one before. The three hundred and sixty-sixth day exists in the last year of a span, and for
the last span of a century only where the cycle ends. -/
structure Place (century span year day : Nat) : Prop where
  century_le : century ≤ 3
  span_le : span ≤ 24
  year_le : year ≤ 3
  day_le : day ≤ 365
  leap : day = 365 → year = 3 ∧ (span = 24 → century = 3)

/-- The number of a day in the cycle, from its place. -/
def ofPlace (century span year day : Nat) : Nat :=
  36524 * century + 1461 * span + 365 * year + day

/-- Every day of the cycle has a place. A century or a year that would be the fifth of its kind
is the last day of the fourth. -/
theorem exists_place {n : Nat} (hn : n < 146097) :
    ∃ c q y k, Place c q y k ∧ n = ofPlace c q y k := by
  obtain ⟨c, r, hc, hr, h1⟩ : ∃ c r, c ≤ 3 ∧ (r < 36524 ∨ r = 36524 ∧ c = 3) ∧
      n = 36524 * c + r :=
    ⟨min (n / 36524) 3, n - 36524 * min (n / 36524) 3, by omega, by omega, by omega⟩
  obtain ⟨y, k, hy, hk, h2⟩ : ∃ y k, y ≤ 3 ∧ (k < 365 ∨ k = 365 ∧ y = 3) ∧
      r % 1461 = 365 * y + k :=
    ⟨min (r % 1461 / 365) 3, r % 1461 - 365 * min (r % 1461 / 365) 3,
      by omega, by omega, by omega⟩
  refine ⟨c, r / 1461, y, k, ⟨hc, by omega, hy, by omega, by omega⟩, ?_⟩
  rw [ofPlace]
  omega

section Place

variable {c q y k : Nat}

/-- The year of a place, as the calendar finds it. One day in 1460, in 36524 and in 146096 is
taken out, so that every year has 365; what has been taken out before a place is its leap days,
its own one included. -/
theorem Place.yearOfEra_eq (h : Place c q y k) {n : Nat} (hn : n = ofPlace c q y k) :
    (n - n / 1460 + n / 36524 - n / 146096) / 365 = 100 * c + 4 * q + y := by
  obtain ⟨hc, hq, hy, hk, hleap⟩ := h
  rw [ofPlace] at hn
  by_cases hlast : n = 146096
  · subst hlast
    omega
  · have hcentury : n / 36524 = c := by omega
    have hcycle : n / 146096 = 0 := by omega
    have hspan : n / 1460 = 25 * c + q + (24 * c + q + 365 * y + k) / 1460 := by omega
    rw [hcentury, hcycle, hspan]
    omega

/-- A place lies in the cycle. -/
theorem Place.ofPlace_lt (h : Place c q y k) : ofPlace c q y k < 146097 := by
  obtain ⟨hc, hq, hy, hk, hleap⟩ := h
  rw [ofPlace]
  omega

/-- The days before the year of a place. -/
theorem Place.daysBefore_eq (h : Place c q y k) :
    365 * (100 * c + 4 * q + y) + (100 * c + 4 * q + y) / 4 - (100 * c + 4 * q + y) / 100
      = ofPlace c q y 0 := by
  obtain ⟨hc, hq, hy, -, -⟩ := h
  rw [ofPlace]
  omega

/-! ## Months -/

/-- The month of a day, counted from March, begins on or before it. -/
theorem monthStart_le (k : Nat) : (153 * ((5 * k + 2) / 153) + 2) / 5 ≤ k := by
  omega

/-- **The name of a day**, from its place: the year begins in March, so that the last two months
belong to the year that follows. -/
theorem Place.ofDays_eq (h : Place c q y k) (era : Int) :
    ofDays (146097 * era + ofPlace c q y k - epochShift) =
      let m := (5 * k + 2) / 153
      let month := if m < 10 then m + 3 else m - 9
      ⟨era * 400 + Int.ofNat (100 * c + 4 * q + y) + (if month ≤ 2 then 1 else 0), month,
        k - (153 * m + 2) / 5 + 1⟩ := by
  have hlt := h.ofPlace_lt
  have hera : (146097 * era + (ofPlace c q y k : Int)) / 146097 = era := by omega
  have hday : ((146097 * era + (ofPlace c q y k : Int)) % 146097).toNat = ofPlace c q y k := by
    omega
  have hk : ofPlace c q y k - ofPlace c q y 0 = k := by
    rw [ofPlace, ofPlace]
    omega
  simp only [ofDays, Int.sub_add_cancel, hera, hday, h.yearOfEra_eq rfl, h.daysBefore_eq, hk]

/-- Days come in the order of their places: what is not later lies in an earlier year, or in the
same year and not later in it. -/
theorem Place.year_lt_or_day_le (h : Place c q y k) {c' q' y' k' : Nat} (h' : Place c' q' y' k')
    (hle : ofPlace c q y k ≤ ofPlace c' q' y' k') :
    100 * c + 4 * q + y < 100 * c' + 4 * q' + y' ∨
      100 * c + 4 * q + y = 100 * c' + 4 * q' + y' ∧ k ≤ k' := by
  obtain ⟨hc, hq, hy, hk, hleap⟩ := h
  obtain ⟨hc', hq', hy', hk', hleap'⟩ := h'
  rw [ofPlace, ofPlace] at hle
  rcases Nat.lt_trichotomy c c' with hlt | rfl | hgt
  · omega
  · rcases Nat.lt_trichotomy q q' with hlt | rfl | hgt <;> omega
  · omega

/-- The days of timestamps begin with the 1st of January of a year and end with the 31st of
December of one, here counted from the March before. -/
theorem Place.year_bounds (h : Place c q y k) (era : Int)
    (hge : -95745824 ≤ 146097 * era + ofPlace c q y k)
    (hle : 146097 * era + ofPlace c q y k ≤ 95745704) :
    (-262144 < era * 400 + (100 * c + 4 * q + y : Nat) ∨
        era * 400 + (100 * c + 4 * q + y : Nat) = -262144 ∧ 306 ≤ k) ∧
      (era * 400 + (100 * c + 4 * q + y : Nat) < 262142 ∨
        era * 400 + (100 * c + 4 * q + y : Nat) = 262142 ∧ k ≤ 305) := by
  have hfirst : Place 2 14 0 306 := by constructor <;> omega
  have hlast : Place 1 10 2 305 := by constructor <;> omega
  have hlt : ofPlace c q y k < 146097 := h.ofPlace_lt
  have hY : 100 * c + 4 * q + y < 400 := by
    obtain ⟨hc, hq, hy, -, -⟩ := h
    omega
  constructor
  · rcases show -656 < era ∨ era = -656 by omega with hera | rfl
    · exact Or.inl (by omega)
    · have := hfirst.year_lt_or_day_le h (by rw [ofPlace]; omega)
      omega
  · rcases show era < 655 ∨ era = 655 by omega with hera | rfl
    · exact Or.inl (by omega)
    · have := h.year_lt_or_day_le hlast (by rw [ofPlace.eq_1 1]; omega)
      omega

end Place

/-- The place of a day: an era and a place in it. -/
theorem exists_era_place (d : Int) :
    ∃ era c q y k, Place c q y k ∧ d = 146097 * era + ofPlace c q y k - epochShift := by
  obtain ⟨c, q, y, k, h, hn⟩ : ∃ c q y k, Place c q y k ∧
      ((d + epochShift) % 146097).toNat = ofPlace c q y k :=
    exists_place (by omega)
  exact ⟨(d + epochShift) / 146097, c, q, y, k, h, by omega⟩

/-- Counting to a day whose month is the `m`th from March on. -/
theorem toDays_march (era : Int) {Y m : Nat} (hY : Y < 400) (hm : m ≤ 11) (day : Nat) :
    let month := if m < 10 then m + 3 else m - 9
    toDays ⟨era * 400 + Int.ofNat Y + (if month ≤ 2 then 1 else 0), month, day⟩ =
      era * 146097 + Int.ofNat (Y * 365 + Y / 4 - Y / 100 + ((153 * m + 2) / 5 + day - 1))
        - epochShift := by
  have hyear : ∀ x : Int, x = era * 400 + Y → x / 400 = era ∧ (x % 400).toNat = Y := by
    intro x hx
    omega
  by_cases h : m < 10
  · have hmonth : ¬ m + 3 ≤ 2 := by omega
    obtain ⟨h1, h2⟩ := hyear (era * 400 + Int.ofNat Y + 0) (Int.add_zero _)
    simp only [toDays, if_pos h, if_neg hmonth, h1, h2, if_pos (Nat.lt_of_not_le hmonth),
      Nat.add_sub_cancel]
  · have hmonth : m - 9 ≤ 2 := by omega
    obtain ⟨h1, h2⟩ := hyear (era * 400 + Int.ofNat Y + 1 - 1) (Int.add_sub_cancel _ _)
    have hback : m - 9 + 9 = m := by omega
    simp only [toDays, if_neg h, if_pos hmonth, h1, h2, if_neg (Nat.not_lt_of_le hmonth), hback]

/-- **Counting from a name gives back the day.** -/
theorem toDays_ofDays (d : Int) : toDays (ofDays d) = d := by
  obtain ⟨era, c, q, y, k, h, rfl⟩ := exists_era_place d
  have hbefore := h.daysBefore_eq
  have hstart := monthStart_le k
  obtain ⟨hc, hq, hy, hk, -⟩ := id h
  rw [h.ofDays_eq, toDays_march era (by omega) (by omega)]
  rw [ofPlace] at hbefore
  rw [ofPlace, Int.ofNat_eq_natCast]
  omega

/-! ## Days that exist -/

/-- A day of at most 31 exists in its month, if it is at most 30 in the short months and the 29th
of February only in a leap year. -/
theorem le_monthLength {year : Int} {month day : Nat} (hlong : day ≤ 31)
    (hshort : month = 4 ∨ month = 6 ∨ month = 9 ∨ month = 11 → day ≤ 30)
    (hfebruary : month = 2 → day ≤ 28 ∨ day = 29 ∧ isLeapYear year = true) :
    day ≤ monthLength year month := by
  unfold monthLength
  split
  case h_1 =>
    rcases hfebruary rfl with h | ⟨rfl, h⟩
    · split <;> omega
    · exact Nat.le_of_eq (if_pos h).symm
  case h_6 => exact hlong
  all_goals exact hshort (by omega)

/-- The last day of a leap year is one: its year, which began in January, has 366 days. -/
theorem Place.isLeapYear {c q y : Nat} (h : Place c q y 365) (era : Int) :
    isLeapYear (era * 400 + Int.ofNat (100 * c + 4 * q + y) + 1) = true := by
  obtain ⟨hc, hq, -, -, hleap⟩ := h
  obtain ⟨rfl, hcycle⟩ := hleap rfl
  simp only [Date.isLeapYear, Bool.and_eq_true, Bool.or_eq_true, decide_eq_true_eq,
    Int.ofNat_eq_natCast]
  omega

/-- **The name of a day is the name of a day that exists**, as long as its year is one that
timestamps can lie in. -/
theorem isValid_ofDays {d : Int} (hge : -96465292 ≤ d) (hle : d ≤ 95026236) :
    (ofDays d).isValid = true := by
  obtain ⟨era, c, q, y, k, h, rfl⟩ := exists_era_place d
  obtain ⟨hfirst, hlast⟩ := h.year_bounds era (by rw [epochShift] at hge; omega)
    (by rw [epochShift] at hle; omega)
  have hk := h.day_le
  rw [h.ofDays_eq]
  have hexists : ∀ m, m = (5 * k + 2) / 153 →
      k - (153 * m + 2) / 5 + 1 ≤
        monthLength (era * 400 + Int.ofNat (100 * c + 4 * q + y) +
          (if (if m < 10 then m + 3 else m - 9) ≤ 2 then 1 else 0))
          (if m < 10 then m + 3 else m - 9) := by
    intro m hm
    refine le_monthLength (by omega) (fun hshort => ?_) (fun hfebruary => ?_)
    · split at hshort <;> omega
    · obtain rfl : m = 11 := by split at hfebruary <;> omega
      rcases Nat.lt_or_ge k 365 with hday | hday
      · exact Or.inl (by omega)
      · obtain rfl : k = 365 := by omega
        exact Or.inr ⟨rfl, h.isLeapYear era⟩
  simp only [isValid, Bool.and_eq_true, decide_eq_true_eq, firstYear, lastYear,
    Int.ofNat_eq_natCast]
  refine ⟨⟨⟨⟨⟨?_, ?_⟩, ?_⟩, ?_⟩, ?_⟩, hexists _ rfl⟩
  all_goals clear hexists
  · split <;> split <;> exact decide_eq_true (by omega)
  · split <;> split <;> exact decide_eq_true (by omega)
  · split <;> omega
  · split <;> omega
  · omega

end LinkQuality.Date
