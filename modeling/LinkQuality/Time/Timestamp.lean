import LinkQuality.Time.Calendar

/-!
# Points in time

A timestamp counts seconds from the start of 1970 and nanoseconds within the second. A leap
second is written as a fraction of a second and more that follows second 59 of its minute, so it
belongs to the minute it ends. The range of the calendar is part of the type: a value that breaks it
cannot be built.

The place of leap seconds is not. Who sets the nanosecond of a clock may make any second of a minute
overlong (`Fields.withNanos?`), and then has a timestamp like others, ordered by second and
nanosecond. But one that is made from its parts, or read from a text, has an overlong second at the
end of a minute only (`Timestamp.ofParts?`, `Timestamp.IsRegular`).

The start of a timestamp's minute is reached in two steps, second to zero and then nanosecond to
zero, each on the fields of the clock. In between a leap second shows as an overlong second zero.
Each of the two has to leave the clock in the range of the calendar.
-/

namespace LinkQuality

/-- A point in time on the civil clock. -/
structure Timestamp where
  /-- Whole seconds since the start of 1970. -/
  seconds : Int
  /-- Nanoseconds on top of them; a thousand million and more where a second is overlong, as a leap
  second makes the one before it. -/
  nanos : Nat
  seconds_ge : -8334601228800 ≤ seconds
  seconds_le : seconds ≤ 8210266876799
  nanos_lt : nanos < 2000000000
  deriving DecidableEq, Repr

/-- What a clock shows: the day, and hour, minute, second and nanosecond within it. -/
structure Fields where
  day : Int
  hour : Nat
  minute : Nat
  second : Nat
  nanos : Nat
  deriving DecidableEq, Repr

namespace Fields

/-- Seconds from the start of 1970, leap seconds not counted. -/
def seconds (f : Fields) : Int :=
  f.day * 86400 + Int.ofNat (f.hour * 3600 + f.minute * 60 + f.second)

/-- The fields again, if the clock that shows them stands in the range of the calendar. A leap
second that follows the last second of the range is beyond it. -/
def inRange? (f : Fields) : Option Fields :=
  if -8334601228800 ≤ f.seconds ∧
      (f.seconds < 8210266876799 ∨ f.seconds = 8210266876799 ∧ f.nanos < 1000000000) then some f
  else none

/-- The same fields with the second replaced, if that is a second of the clock. -/
def withSecond? (f : Fields) (second : Nat) : Option Fields :=
  if second < 60 then inRange? { f with second } else none

/-- The same fields with the nanosecond replaced; room is left for a leap second. -/
def withNanos? (f : Fields) (nanos : Nat) : Option Fields :=
  if nanos < 2000000000 then inRange? { f with nanos } else none

end Fields

namespace Timestamp

/-- The start of a second. -/
def ofSecond (second : Int) (hge : -8334601228800 ≤ second) (hle : second ≤ 8210266876799) :
    Timestamp :=
  ⟨second, 0, hge, hle, by decide⟩

/-- **Is a second overlong only where a minute ends?** -/
def IsRegular (t : Timestamp) : Prop := 1000000000 ≤ t.nanos → t.seconds % 60 = 59

instance (t : Timestamp) : Decidable t.IsRegular :=
  inferInstanceAs (Decidable (1000000000 ≤ t.nanos → t.seconds % 60 = 59))

/-- The timestamp with the given parts, if they are in range and a leap second is where one can
be. -/
def ofParts? (seconds : Int) (nanos : Nat) : Option Timestamp :=
  if h : -8334601228800 ≤ seconds ∧ seconds ≤ 8210266876799 ∧ nanos < 2000000000 then
    let t : Timestamp := ⟨seconds, nanos, h.1, h.2.1, h.2.2⟩
    if t.IsRegular then some t else none
  else none

/-- The fields of the clock at a timestamp. -/
def fields (t : Timestamp) : Fields :=
  let second := (t.seconds % 86400).toNat
  ⟨t.seconds / 86400, second / 3600, second / 60 % 60, second % 60, t.nanos⟩

/-- The timestamp at which a clock shows the given fields. -/
def ofFields? (f : Fields) : Option Timestamp :=
  if h : -8334601228800 ≤ f.seconds ∧ f.seconds ≤ 8210266876799 ∧ f.nanos < 2000000000 then
    some ⟨f.seconds, f.nanos, h.1, h.2.1, h.2.2⟩
  else none

/-- The calendar date of a timestamp. -/
def date (t : Timestamp) : Date := Date.ofDays (t.seconds / 86400)

/-- The start of the minute, by setting second and nanosecond to zero. -/
def minute? (t : Timestamp) : Option Timestamp := do
  let f ← t.fields.withSecond? 0
  let f ← f.withNanos? 0
  ofFields? f

/-- **The minute of a timestamp.** Should there be none, the timestamp stands for itself. -/
def minute (t : Timestamp) : Timestamp := t.minute?.getD t

/-- Order in time: by second, then by nanosecond. -/
protected def lt (a b : Timestamp) : Prop :=
  a.seconds < b.seconds ∨ a.seconds = b.seconds ∧ a.nanos < b.nanos

/-- Not later than. -/
protected def le (a b : Timestamp) : Prop :=
  a.seconds < b.seconds ∨ a.seconds = b.seconds ∧ a.nanos ≤ b.nanos

instance : LT Timestamp := ⟨Timestamp.lt⟩
instance : LE Timestamp := ⟨Timestamp.le⟩

instance (a b : Timestamp) : Decidable (a < b) :=
  inferInstanceAs (Decidable (a.seconds < b.seconds ∨ a.seconds = b.seconds ∧ a.nanos < b.nanos))

instance (a b : Timestamp) : Decidable (a ≤ b) :=
  inferInstanceAs (Decidable (a.seconds < b.seconds ∨ a.seconds = b.seconds ∧ a.nanos ≤ b.nanos))

/-! ## Writing -/

/-- The decimal text of a number, filled up with zeros on the left to `width` digits. -/
def zeroPadded (width n : Nat) : List Char :=
  let digits := Nat.toDigits 10 n
  List.replicate (width - digits.length) '0' ++ digits

/-- The year in four digits, or with a sign where four do not hold it. -/
def yearText (year : Int) : List Char :=
  if 0 ≤ year ∧ year ≤ 9999 then zeroPadded 4 year.toNat
  else (if year < 0 then '-' else '+') :: zeroPadded 4 year.natAbs

/-- The date as year, month and day. -/
def dateText (t : Timestamp) : List Char :=
  let d := t.date
  yearText d.year ++ '-' :: zeroPadded 2 d.month ++ '-' :: zeroPadded 2 d.day

/-- The second shown on the clock: an overlong one shows as the next, that of a leap second as
60. -/
def shownSecond (t : Timestamp) : Nat :=
  t.fields.second + t.nanos / 1000000000

/-- Hour, minute and second. -/
def clockText (t : Timestamp) : List Char :=
  let f := t.fields
  zeroPadded 2 f.hour ++ ':' :: zeroPadded 2 f.minute ++
    ':' :: zeroPadded 2 t.shownSecond

/-- The fraction of the second in as many groups of three digits as it needs, none for a whole
second. -/
def fractionText (t : Timestamp) : List Char :=
  let n := t.nanos % 1000000000
  if n = 0 then []
  else if n % 1000000 = 0 then '.' :: zeroPadded 3 (n / 1000000)
  else if n % 1000 = 0 then '.' :: zeroPadded 6 (n / 1000)
  else '.' :: zeroPadded 9 n

/-- The fraction cut to three digits, always written. -/
def millisText (t : Timestamp) : List Char :=
  '.' :: zeroPadded 3 (t.nanos % 1000000000 / 1000000)

/-- **The form for data interchange**, such as `2024-05-01T10:00:30.5Z` with the fraction in
groups of three. -/
def rfc3339 (t : Timestamp) : List Char :=
  t.dateText ++ 'T' :: t.clockText ++ t.fractionText ++ ['Z']

/-- The form for statements, such as `2024-05-01 10:00:30.500`. -/
def sqlText (t : Timestamp) : List Char :=
  t.dateText ++ ' ' :: t.clockText ++ t.millisText

/-- The form for people, such as `2024-05-01 10:00:00 UTC`. -/
def displayText (t : Timestamp) : List Char :=
  t.dateText ++ ' ' :: t.clockText ++ t.fractionText ++ " UTC".toList

end Timestamp

end LinkQuality
