import LinkQuality.Decimal.Reading
import LinkQuality.Text.Blank
import LinkQuality.Time.Timestamp

/-!
# Reading timestamps

The interchange form is read liberally: parts may lack their leading zero, white space may stand
between parts, a year with a sign may be of any length, the colon of an offset may be missing
and the fraction may be longer than nine digits. What is read is checked strictly – the day must
exist, the clock must show it, the result must be a timestamp.
-/

namespace LinkQuality

/-- A time as its parts are written: date and clock of some place, and how far that place is
ahead of universal time in seconds. -/
structure WrittenTime where
  date : Date
  hour : Nat
  minute : Nat
  /-- Up to 60, which is a leap second. -/
  second : Nat
  nanos : Nat
  offset : Int
  deriving Repr

namespace WrittenTime

/-- A number of at most `width` digits, white space before it. -/
def readNumber (width : Nat) (cs : List Char) : Option (Nat × List Char) :=
  let cs := Text.trimStart cs
  let digits := (cs.take width).takeWhile Decimal.isDigit
  if digits.isEmpty then none
  else some (Decimal.natOfDigits digits, cs.drop digits.length)

/-- The given character, white space before it. -/
def readMark (c : Char) (cs : List Char) : Option (List Char) :=
  match Text.trimStart cs with
  | d :: rest => if d = c then some rest else none
  | [] => none

/-- A year: up to four digits, or a sign and any number of them. -/
def readYear (cs : List Char) : Option (Int × List Char) :=
  let signed (negative : Bool) (rest : List Char) : Option (Int × List Char) :=
    match Decimal.spanDigits rest with
    | ([], _) => none
    | (digits, rest) =>
      let n : Int := Decimal.natOfDigits digits
      some (if negative then -n else n, rest)
  match Text.trimStart cs with
  | '-' :: rest => signed true rest
  | '+' :: rest => signed false rest
  | rest => (readNumber 4 rest).map fun (n, rest) => (n, rest)

/-- What separates date and clock: the letter T in either case, or white space. -/
def readSeparator : List Char → Option (List Char)
  | c :: rest => if c = 'T' ∨ c = 't' ∨ Text.isBlank c then some rest else none
  | [] => none

/-- The fraction of a second in nanoseconds, cut after nine digits. -/
def readFraction : List Char → Option (Nat × List Char)
  | '.' :: rest =>
    match Decimal.spanDigits rest with
    | ([], _) => none
    | (digits, rest) =>
      let kept := digits.take 9
      some (Decimal.natOfDigits kept * Nat.pow 10 (9 - kept.length), rest)
  | rest => some (0, rest)

/-- Two digits, no white space before them. -/
def readTwoDigits : List Char → Option (Nat × List Char)
  | a :: b :: rest =>
    if Decimal.isDigit a && Decimal.isDigit b then some (Decimal.natOfDigits [a, b], rest) else none
  | _ => none

/-- An offset in hours and minutes after its sign. Colons and white space may stand between. -/
def readOffsetDigits (negative : Bool) (cs : List Char) : Option (Int × List Char) := do
  let (hours, rest) ← readTwoDigits cs
  let (minutes, rest) ← readTwoDigits (rest.dropWhile fun c => c = ':' || Text.isBlank c)
  if minutes < 60 then
    let seconds : Int := hours * 3600 + minutes * 60
    some (if negative then -seconds else seconds, rest)
  else none

/-- How far the clock is ahead: the letter Z, the word UTC, or a sign and an offset. -/
def readOffset (cs : List Char) : Option (Int × List Char) :=
  match Text.trimStart cs with
  | 'Z' :: rest | 'z' :: rest => some (0, rest)
  | '+' :: rest => readOffsetDigits false rest
  | '-' :: rest | '−' :: rest => readOffsetDigits true rest
  | u :: t :: c :: rest =>
    if [u, t, c].map Char.toUpper = ['U', 'T', 'C'] then some (0, rest) else none
  | _ => none

/-- Reads all parts; only white space may follow them. -/
def read (cs : List Char) : Option WrittenTime := do
  let (year, rest) ← readYear cs
  let rest ← readMark '-' rest
  let (month, rest) ← readNumber 2 rest
  let rest ← readMark '-' rest
  let (day, rest) ← readNumber 2 rest
  let rest ← readSeparator rest
  let (hour, rest) ← readNumber 2 rest
  let rest ← readMark ':' rest
  let (minute, rest) ← readNumber 2 rest
  let rest ← readMark ':' rest
  let (second, rest) ← readNumber 2 rest
  let (nanos, rest) ← readFraction rest
  let (offset, rest) ← readOffset rest
  if rest.all Text.isBlank then some ⟨⟨year, month, day⟩, hour, minute, second, nanos, offset⟩
  else none

/-- **The timestamp of a written time**, if the day exists, the clock can show it and the offset
is less than a day. Second 60 is the end of second 59. -/
def timestamp? (w : WrittenTime) : Option Timestamp :=
  if w.date.isValid && w.hour < 24 && w.minute < 60 && w.second ≤ 60 && w.offset.natAbs < 86400 then
    let leap := w.second / 60
    let clock := w.hour * 3600 + w.minute * 60 + w.second - leap
    Timestamp.ofParts? (w.date.toDays * 86400 + clock - w.offset)
      (w.nanos + leap * 1000000000)
  else none

end WrittenTime

namespace Timestamp

/-- The timestamp a text stands for, in the interchange form. -/
def ofText? (cs : List Char) : Option Timestamp :=
  WrittenTime.read cs >>= WrittenTime.timestamp?

end Timestamp

end LinkQuality
