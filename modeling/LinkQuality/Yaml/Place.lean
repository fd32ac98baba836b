/-!
# Places in a YAML text

YAML means something by where things stand, so a reader of it keeps count of lines and columns.
Line breaks come in several forms; all that end a line without adding to a text become a single
line feed before anything else is read, and two that stand for themselves remain.
-/

namespace LinkQuality.Yaml

/-- Can `c` occur in a YAML text at all? Most control characters cannot. -/
def isAllowed (c : Char) : Bool :=
  let n := c.toNat
  n = 9 || n = 10 || n = 13 || (32 ≤ n && n ≤ 126) || n = 0x85 || (0xA0 ≤ n && n ≤ 0xD7FF) ||
    (0xE000 ≤ n && n ≤ 0xFFFD) || 0x10000 ≤ n

/-- The text with a line feed for a carriage return, for both together, and for a next line. -/
def unifyBreaks : List Char → List Char
  | '\r' :: '\n' :: rest => '\n' :: unifyBreaks rest
  | '\r' :: rest => '\n' :: unifyBreaks rest
  | c :: rest => (if c = '\x85' then '\n' else c) :: unifyBreaks rest
  | [] => []

/-- Does `c` end a line, once the breaks are unified? -/
def isBreak (c : Char) : Bool := c = '\n' || c = '\u2028' || c = '\u2029'

/-- Is `c` a space or a tab? -/
def isSpace (c : Char) : Bool := c = ' ' || c = '\t'

/-- Is the text over, or does a line end in front of it? -/
def endsLine (cs : List Char) : Bool := cs.head?.all isBreak

/-- Is the text over, or does white space stand in front of it? -/
def endsWord (cs : List Char) : Bool := cs.head?.all fun c => isSpace c || isBreak c

/-- The characters of names: of anchors, directives and tag handles. -/
def isNameChar (c : Char) : Bool := c.isAlphanum || c = '_' || c = '-'

/-- The characters that end an entry of a collection written in brackets. -/
def isBracketMark (c : Char) : Bool := c = ',' || c = '[' || c = ']' || c = '\x7b' || c = '\x7d'

/-- The characters ahead, and where the first of them stands. -/
structure Place where
  rest : List Char
  line : Nat := 0
  column : Nat := 0

namespace Place

/-- The place after `n` characters of the same line. -/
def advance (p : Place) (n : Nat) : Place :=
  { p with rest := p.rest.drop n, column := p.column + n }

/-- The place on the same line where `rest` is what remains. -/
def moveTo (p : Place) (rest : List Char) : Place := p.advance (p.rest.length - rest.length)

/-- The place after the characters that have a property. -/
def skipWhile (p : Place) (f : Char → Bool) : Place := p.advance (p.rest.takeWhile f).length

/-- The start of the next line, when a line ends here. -/
def nextLine (p : Place) : Place :=
  match p.rest with
  | c :: rest => if isBreak c then ⟨rest, p.line + 1, 0⟩ else p
  | [] => p

/-- Do three of the given character stand alone at the start of a line here? That begins or ends
a document, whatever is open. -/
def isMarker (p : Place) (c : Char) : Bool :=
  p.column = 0 && p.rest.take 3 = [c, c, c] && endsWord (p.rest.drop 3)

/-- Does a document begin or end here? -/
def isBoundary (p : Place) : Bool := p.isMarker '-' || p.isMarker '.'

end Place

end LinkQuality.Yaml
