import LinkQuality.Text.Hexadecimal
import LinkQuality.Yaml.Place

/-!
# Scalars

A scalar is a text written in one of five ways: plain, in single or double quotes, or as a block
of lines that are kept or folded. Line breaks inside the first three are folded: a single one
becomes a space, of several the first is dropped. Each reader goes through the characters once
and gives the text with the place behind it, or nothing if the text is not well formed.
-/

namespace LinkQuality.Yaml

/-- How a scalar is written. -/
inductive ScalarStyle where
  | plain
  | quoted
  /-- A block of lines that are kept. -/
  | literal
  /-- A block of lines that are folded. -/
  | folded
  deriving DecidableEq

/-! ## Folding -/

/-- The white space between two words of a scalar. -/
structure Gap where
  /-- Spaces and tabs on the line of the word before. -/
  blanks : List Char := []
  /-- Has a line ended? -/
  broken : Bool := false
  /-- The break that ended the line, unless it was escaped. -/
  first : Option Char := none
  /-- The breaks after it. -/
  more : List Char := []

namespace Gap

/-- Takes a space, a tab or a line break. Space at the start of a later line does not count. -/
def push (g : Gap) (c : Char) : Gap :=
  if isBreak c then
    if g.broken then { g with more := g.more ++ [c] }
    else { g with blanks := [], broken := true, first := some c }
  else if g.broken then g
  else { g with blanks := g.blanks ++ [c] }

/-- Is there nothing between the words? -/
def isEmpty (g : Gap) : Bool := g.blanks.isEmpty && !g.broken

/-- **What the gap leaves in the text.** -/
def text (g : Gap) : List Char :=
  if !g.broken then g.blanks
  else match g.first with
    | some '\n' => if g.more.isEmpty then [' '] else g.more
    | some c => c :: g.more
    | none => g.more

end Gap

/-! ## Plain scalars -/

/-- A plain scalar and how it ended. -/
structure PlainScalar where
  text : List Char
  place : Place
  /-- Did a line end between its last word and the place? -/
  broken : Bool

/-- Puts characters in front of the text. -/
def PlainScalar.after (cs : List Char) (s : PlainScalar) : PlainScalar :=
  { s with text := cs ++ s.text }

/-- **Reads a plain scalar** up to what cannot belong to it: a comment, a colon that ends a word,
a document boundary, a line that is not indented to column `margin`, or, within brackets, a
bracket or comma. Tabs cannot indent, and within brackets a colon in front of one is refused. -/
def readPlain (inBrackets : Bool) (margin : Nat) :
    List Char → Nat → Nat → Gap → Option PlainScalar
  | [], line, column, gap => some ⟨[], ⟨[], line, column⟩, gap.broken⟩
  | c :: rest, line, column, gap =>
    let here : Place := ⟨c :: rest, line, column⟩
    let stop : Option PlainScalar := some ⟨[], here, gap.broken⟩
    if isBreak c then readPlain inBrackets margin rest (line + 1) 0 (gap.push c)
    else if isSpace c then
      if gap.broken && c = '\t' && column < margin then none
      else readPlain inBrackets margin rest line (column + 1) (gap.push c)
    else if !gap.isEmpty &&
        (c = '#' || here.isBoundary || (!inBrackets && column < margin)) then stop
    else if c = ':' && endsWord rest then stop
    else if inBrackets && c = ':' && rest.head?.any (fun d => d = '?' || isBracketMark d) then none
    else if inBrackets && isBracketMark c then stop
    else
      (readPlain inBrackets margin rest line (column + 1) {}).map (.after (gap.text ++ [c]))

/-! ## Quoted scalars -/

/-- Puts characters in front of the text read. -/
def prepend (cs : List Char) (r : Option (List Char × Place)) : Option (List Char × Place) :=
  r.map fun (text, place) => (cs ++ text, place)

/-- **Reads a scalar in single quotes**, after the first of them. Two quotes stand for one. -/
def readSingle : List Char → Nat → Nat → Gap → Option (List Char × Place)
  | [], _, _, _ => none
  | '\'' :: '\'' :: rest, line, column, gap =>
    prepend (gap.text ++ ['\'']) (readSingle rest line (column + 2) {})
  | '\'' :: rest, line, column, gap => some (gap.text, ⟨rest, line, column + 1⟩)
  | c :: rest, line, column, gap =>
    if (Place.mk (c :: rest) line column).isBoundary then none
    else if isBreak c then readSingle rest (line + 1) 0 (gap.push c)
    else if isSpace c then readSingle rest line (column + 1) (gap.push c)
    else prepend (gap.text ++ [c]) (readSingle rest line (column + 1) {})

/-- What a letter after a backslash stands for. -/
def escapes : List (Char × Char) :=
  [('0', '\x00'), ('a', '\x07'), ('b', '\x08'), ('t', '\t'), ('\t', '\t'), ('n', '\n'),
    ('v', '\x0b'), ('f', '\x0c'), ('r', '\r'), ('e', '\x1b'), (' ', ' '), ('"', '"'), ('/', '/'),
    ('\\', '\\'), ('N', '\x85'), ('_', '\xa0'), ('L', '\u2028'), ('P', '\u2029')]

/-- The number of digits after the letters that introduce a character by its number. -/
def escapeWidth : Char → Option Nat
  | 'x' => some 2
  | 'u' => some 4
  | 'U' => some 8
  | _ => none

/-- The character with a number, if there is one. -/
def charOf? (n : Nat) : Option Char :=
  if n.isValidChar then some (Char.ofNat n) else none

/-- How far the reading of an escape has come. -/
inductive Escape where
  | outside
  /-- After the backslash. -/
  | begun
  /-- Digits are to come, and those before them have a value. -/
  | digits (left value : Nat)

/-- **Reads a scalar in double quotes**, after the first of them. A backslash in front of a line
break takes the break away, together with the space that begins the next line. -/
def readDouble : List Char → Nat → Nat → Gap → Escape → Option (List Char × Place)
  | [], _, _, _, _ => none
  | c :: rest, line, column, gap, .begun =>
    if isBreak c then prepend gap.text (readDouble rest (line + 1) 0 { broken := true } .outside)
    else match escapes.lookup c, escapeWidth c with
      | some d, _ => prepend (gap.text ++ [d]) (readDouble rest line (column + 1) {} .outside)
      | none, some width => readDouble rest line (column + 1) gap (.digits width 0)
      | none, none => none
  | c :: rest, line, column, gap, .digits left value =>
    match Text.hexValue? c with
    | none => none
    | some d =>
      let value := value * 16 + d
      if 1 < left then readDouble rest line (column + 1) gap (.digits (left - 1) value)
      else match charOf? value with
        | some e => prepend (gap.text ++ [e]) (readDouble rest line (column + 1) {} .outside)
        | none => none
  | c :: rest, line, column, gap, .outside =>
    if (Place.mk (c :: rest) line column).isBoundary then none
    else if c = '"' then some (gap.text, ⟨rest, line, column + 1⟩)
    else if c = '\\' then readDouble rest line (column + 1) gap .begun
    else if isBreak c then readDouble rest (line + 1) 0 (gap.push c) .outside
    else if isSpace c then readDouble rest line (column + 1) (gap.push c) .outside
    else prepend (gap.text ++ [c]) (readDouble rest line (column + 1) {} .outside)

/-! ## Blocks of lines -/

/-- What becomes of the breaks after the last line of a block. -/
inductive Chomping where
  /-- All are dropped. -/
  | strip
  /-- The first is kept. -/
  | clip
  /-- All are kept. -/
  | keep

/-- What the header of a block says. -/
structure BlockHeader where
  /-- Are single breaks between lines folded into spaces? -/
  folded : Bool
  chomping : Chomping := .clip
  /-- How far the lines are indented beyond what they stand in, if that is said. -/
  indentation : Option Nat := none

/-- The mark for the treatment of the last breaks, if it is there. -/
def readChomping : List Char → Chomping × List Char
  | '+' :: rest => (.keep, rest)
  | '-' :: rest => (.strip, rest)
  | rest => (.clip, rest)

/-- The digit for the indentation, if it is there; it is not zero. -/
def readIndentation : List Char → Option (Option Nat × List Char)
  | c :: rest =>
    if c = '0' then none
    else if c.isDigit then some (some (c.toNat - 48), rest)
    else some (none, c :: rest)
  | [] => some (none, [])

/-- The two marks of a header in either order, after the character that begins it. -/
def BlockHeader.read (folded : Bool) : List Char → Option (BlockHeader × List Char)
  | c :: rest =>
    if c = '+' || c = '-' then do
      let (chomping, rest) := readChomping (c :: rest)
      let (indentation, rest) ← readIndentation rest
      some (⟨folded, chomping, indentation⟩, rest)
    else do
      let (indentation, rest) ← readIndentation (c :: rest)
      match indentation with
      | none => some (⟨folded, .clip, none⟩, rest)
      | some n =>
        let (chomping, rest) := readChomping rest
        some (⟨folded, chomping, some n⟩, rest)
  | [] => some (⟨folded, .clip, none⟩, [])

/-- The deepest column in front of the first line that holds something; tabs cannot stand there.
The first number is the column at hand, the second the deepest so far. -/
def leadingIndent : List Char → Nat → Nat → Option Nat
  | [], column, deepest => some (max deepest column)
  | c :: rest, column, deepest =>
    if c = ' ' then leadingIndent rest (column + 1) deepest
    else if c = '\t' then none
    else if isBreak c then leadingIndent rest 0 (max deepest column)
    else some (max deepest column)

/-- The state of reading a block: the break that ended the last line, those after it, and whether
that line began with white space. -/
structure BlockGap where
  last : Option Char := none
  more : List Char := []
  indented : Bool := false

/-- What the breaks between two lines leave in the text. Lines that begin with white space keep
the breaks around them. -/
def BlockGap.text (folded : Bool) (g : BlockGap) (indented : Bool) : List Char :=
  if folded && g.last = some '\n' && !g.indented && !indented then
    if g.more.isEmpty then [' '] else g.more
  else g.last.toList ++ g.more

/-- What the breaks after the last line leave. -/
def BlockGap.tail (chomping : Chomping) (g : BlockGap) : List Char :=
  match chomping with
  | .strip => []
  | .clip => g.last.toList
  | .keep => g.last.toList ++ g.more

/-- Reads the lines of a block that are indented to `margin`. Within a line all is text; between
lines the indentation is passed over, and the block ends at the first line that lacks it. -/
def readBlockLines (header : BlockHeader) (margin : Nat) :
    List Char → Nat → Nat → Bool → BlockGap → Option (List Char × Place)
  | [], line, column, _, gap => some (gap.tail header.chomping, ⟨[], line, column⟩)
  | c :: rest, line, column, true, gap =>
    if isBreak c then
      readBlockLines header margin rest (line + 1) 0 false { gap with last := some c, more := [] }
    else prepend [c] (readBlockLines header margin rest line (column + 1) true gap)
  | c :: rest, line, column, false, gap =>
    if c = ' ' && column < margin then
      readBlockLines header margin rest line (column + 1) false gap
    else if c = '\t' && column < margin then none
    else if isBreak c then
      readBlockLines header margin rest (line + 1) 0 false { gap with more := gap.more ++ [c] }
    else if column = margin then
      prepend (gap.text header.folded (isSpace c) ++ [c])
        (readBlockLines header margin rest line (column + 1) true { indented := isSpace c })
    else some (gap.tail header.chomping, ⟨c :: rest, line, column⟩)

/-- **Reads a block** from the character that begins its header. What it stands in is indented so
far that its own parts begin at column `margin`; the block's lines are indented as the header
says, or else as the first of them is. -/
def readBlock (folded : Bool) (margin : Nat) (p : Place) : Option (List Char × Place) := do
  let (header, rest) ← BlockHeader.read folded (p.rest.drop 1)
  let p := (p.moveTo rest).skipWhile isSpace
  let p := if p.rest.head? = some '#' then p.skipWhile (!isBreak ·) else p
  if !endsLine p.rest then none
  else
    let p := p.nextLine
    let indent ← match header.indentation with
      | some n => some (margin - 1 + n)
      | none => (leadingIndent p.rest p.column 0).map fun deepest => max deepest (max margin 1)
    readBlockLines header indent p.rest p.line p.column false {}

end LinkQuality.Yaml
