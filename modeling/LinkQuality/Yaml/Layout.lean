import LinkQuality.Yaml.Token

/-!
# Layout

How indentation and position become tokens. Outside brackets a collection goes on as long as its
entries begin in its column; it is opened by the first and closed by whatever stands further left.
A key need not be marked in advance: whatever could be one is remembered, and when a colon
follows on the same line the mark is put in front of it after all.
-/

namespace LinkQuality.Yaml

/-- A node that will be a key if a colon follows. -/
structure PendingKey where
  /-- The number of tokens before it. -/
  index : Nat
  line : Nat
  column : Nat
  /-- Does it stand where only a key can stand? -/
  required : Bool

/-- A key is written on one line, and the colon is not too far away. -/
def PendingKey.isStale (k : PendingKey) (p : Place) : Bool :=
  k.line < p.line || k.column + 1024 < p.column

/-- The state of reading a text. -/
structure Layout where
  place : Place
  tokens : Array Token := #[]
  /-- One more than the columns of the open collections without brackets, innermost first. -/
  margins : List Nat := []
  /-- The possible key within the innermost brackets. -/
  pending : Option PendingKey := none
  /-- The possible keys outside of them, one for each pair that is open. -/
  outer : List (Option PendingKey) := []
  /-- Can a key begin here? -/
  keyAllowed : Bool := true
  /-- The numbers that the names of anchors have got last. -/
  anchors : List (String × Nat) := []
  done : Bool := false

namespace Layout

/-- Are brackets open? -/
def inBrackets (l : Layout) : Bool := !l.outer.isEmpty

/-- One more than the column of the innermost collection without brackets, or zero. -/
def margin (l : Layout) : Nat := l.margins.headD 0

/-- Adds a token. -/
def emit (l : Layout) (t : Token) : Layout := { l with tokens := l.tokens.push t }

/-- Adds a token and passes over the characters it is written with. -/
def take (l : Layout) (t : Token) (width : Nat) : Layout :=
  { l.emit t with place := l.place.advance width }

/-! ## Between tokens -/

/-- Passes over white space, comments and line ends. A tab is white space only where it cannot be
taken for indentation, and outside brackets a new line can begin with a key. -/
def skipBlanks (inBrackets : Bool) :
    List Char → Nat → Nat → (keyAllowed inComment : Bool) → Place × Bool
  | [], line, column, allowed, _ => (⟨[], line, column⟩, allowed)
  | c :: rest, line, column, allowed, inComment =>
    if isBreak c then skipBlanks inBrackets rest (line + 1) 0 (allowed || !inBrackets) false
    else if inComment then skipBlanks inBrackets rest line (column + 1) allowed true
    else if c = '#' then skipBlanks inBrackets rest line (column + 1) allowed true
    else if c = ' ' || (c = '\ufeff' && column = 0) ||
        (c = '\t' && (inBrackets || !allowed)) then
      skipBlanks inBrackets rest line (column + 1) allowed false
    else (⟨c :: rest, line, column⟩, allowed)

/-- Goes to the next token. -/
def toToken (l : Layout) : Layout :=
  let (place, allowed) :=
    skipBlanks l.inBrackets l.place.rest l.place.line l.place.column l.keyAllowed false
  { l with place, keyAllowed := allowed }

/-! ## Possible keys -/

/-- Gives up a possible key that has gone stale; one that is required cannot be given up. -/
def expire (p : Place) : Option PendingKey → Option (Option PendingKey)
  | none => some none
  | some k => if !k.isStale p then some (some k) else if k.required then none else some none

/-- Gives up all possible keys that have gone stale. -/
def expireKeys (l : Layout) : Option Layout := do
  some { l with pending := ← expire l.place l.pending, outer := ← l.outer.mapM (expire l.place) }

/-- Gives up the possible key, if there is one. -/
def forgetKey (l : Layout) : Option Layout :=
  if l.pending.any (·.required) then none else some { l with pending := none }

/-- Remembers that the next token could begin a key. -/
def rememberKey (l : Layout) : Option Layout :=
  if !l.keyAllowed then some l
  else do
    let l ← l.forgetKey
    let required := !l.inBrackets && l.margin = l.place.column + 1
    some { l with pending := some ⟨l.tokens.size, l.place.line, l.place.column, required⟩ }

/-! ## Indentation -/

/-- Closes the collections whose entries begin to the right of a column, which is given plus
one. -/
def closeBeyond (l : Layout) (margin : Nat) : Layout :=
  if l.inBrackets then l
  else
    let closed := l.margins.takeWhile (margin < ·)
    { l with
      margins := l.margins.drop closed.length
      tokens := l.tokens ++ Array.replicate closed.length .closeBlock }

/-- Opens a collection in a column, unless one is open there. Its token goes to `index`. -/
def openAt (l : Layout) (column index : Nat) (t : Token) : Layout :=
  if l.inBrackets || column < l.margin then l
  else { l with
    margins := (column + 1) :: l.margins
    tokens := l.tokens.insertIdxIfInBounds index t }

/-- Opens a collection with the next token, unless one is open in its column. -/
def openHere (l : Layout) (t : Token) : Layout :=
  l.openAt l.place.column l.tokens.size t

/-! ## One token -/

/-- The end of the text. -/
def finish (l : Layout) : Option Layout := do
  let l ← (l.closeBeyond 0).forgetKey
  some { l with done := true }

/-- A directive, with nothing but a comment behind it on its line. -/
def directive (l : Layout) : Option Layout := do
  let l ← (l.closeBeyond 0).forgetKey
  let (token, rest) ← readDirective (l.place.rest.drop 1)
  let p := (l.place.moveTo rest).skipWhile isSpace
  let p := if p.rest.head? = some '#' then p.skipWhile (!isBreak ·) else p
  if endsLine p.rest then some { l.emit token with place := p.nextLine, keyAllowed := false }
  else none

/-- The start or end of a document. -/
def boundary (l : Layout) (t : Token) : Option Layout := do
  let l ← (l.closeBeyond 0).forgetKey
  some { l.take t 3 with keyAllowed := false }

/-- An opening bracket, which may begin a key. -/
def openBracket (l : Layout) (t : Token) : Option Layout := do
  let l ← l.rememberKey
  some { l.take t 1 with pending := none, outer := l.pending :: l.outer, keyAllowed := true }

/-- A closing bracket. -/
def closeBracket (l : Layout) (t : Token) : Option Layout := do
  let l ← l.forgetKey
  some { l.take t 1 with
    pending := l.outer.headD none, outer := l.outer.tail, keyAllowed := false }

/-- A comma. -/
def comma (l : Layout) : Option Layout := do
  let l ← l.forgetKey
  some { l.take .comma 1 with keyAllowed := true }

/-- A dash in front of an entry. -/
def dash (l : Layout) : Option Layout := do
  if !l.inBrackets && !l.keyAllowed then none
  else
    let l ← (l.openHere .openBlockSequence).forgetKey
    some { l.take .dash 1 with keyAllowed := true }

/-- A question mark in front of a key. -/
def keyMark (l : Layout) : Option Layout := do
  if !l.inBrackets && !l.keyAllowed then none
  else
    let l ← (l.openHere .openBlockMapping).forgetKey
    some { l.take .key 1 with keyAllowed := !l.inBrackets }

/-- **A colon.** If a key is pending it is marked now, and with it the start of its mapping;
otherwise the key was marked, or is missing. -/
def colon (l : Layout) : Option Layout :=
  match l.pending with
  | some k =>
    let l := { l with tokens := l.tokens.insertIdxIfInBounds k.index .key }
    let l := l.openAt k.column k.index .openBlockMapping
    some { l.take .value 1 with pending := none, keyAllowed := false }
  | none =>
    if !l.inBrackets && !l.keyAllowed then none
    else some { (l.openHere .openBlockMapping).take .value 1 with keyAllowed := !l.inBrackets }

/-- An anchor. Its number is how many names have been given before, its own not counted twice. -/
def anchor (l : Layout) : Option Layout := do
  let l ← l.rememberKey
  let (name, rest) ← readReference (l.place.rest.drop 1)
  let number := l.anchors.length
  some { l.emit (.anchor number) with
    place := l.place.moveTo rest, keyAllowed := false
    anchors := (name, number) :: l.anchors.filter (·.1 ≠ name) }

/-- An alias, which stands for the number that its name has got last. -/
def reference (l : Layout) : Option Layout := do
  let l ← l.rememberKey
  let (name, rest) ← readReference (l.place.rest.drop 1)
  let number ← l.anchors.lookup name
  some { l.emit (.alias number) with place := l.place.moveTo rest, keyAllowed := false }

/-- A tag. -/
def tag (l : Layout) : Option Layout := do
  let l ← l.rememberKey
  let (token, rest) ← readTag l.inBrackets l.place.rest
  some { l.emit token with place := l.place.moveTo rest, keyAllowed := false }

/-- A block of lines. -/
def block (l : Layout) (folded : Bool) : Option Layout := do
  let l ← l.forgetKey
  let (text, place) ← readBlock folded l.margin l.place
  let style := if folded then ScalarStyle.folded else .literal
  some { l.emit (.scalar style text) with place, keyAllowed := true }

/-- A quoted scalar. -/
def quoted (l : Layout) (single : Bool) : Option Layout := do
  let l ← l.rememberKey
  let p := l.place.advance 1
  let (text, place) ← if single then readSingle p.rest p.line p.column {}
    else readDouble p.rest p.line p.column {} .outside
  some { l.emit (.scalar .quoted text) with place, keyAllowed := false }

/-- A plain scalar. Where a line ended after it a key can follow. -/
def plain (l : Layout) : Option Layout := do
  let l ← l.rememberKey
  let s ← readPlain l.inBrackets l.margin l.place.rest l.place.line l.place.column {}
  some { l.emit (.scalar .plain s.text) with place := s.place, keyAllowed := s.broken }

/-- The characters a plain scalar cannot begin with, three aside that can if more follows. -/
def indicators : List Char :=
  ['-', '?', ':', ',', '[', ']', '\x7b', '\x7d', '#', '&', '*', '!', '|', '>', '\'', '"', '%',
    '@', '\x60']

/-- Can a plain scalar begin here? -/
def beginsPlain (inBrackets : Bool) (c : Char) (rest : List Char) : Bool :=
  (!indicators.contains c && !isSpace c && !isBreak c) ||
    (c = '-' && !rest.head?.any isSpace) ||
    (!inBrackets && (c = '?' || c = ':') && !endsWord rest)

/-- **Reads one token**, with those that the layout implies before it. -/
def next (l : Layout) : Option Layout := do
  let l ← l.toToken.expireKeys
  let l := l.closeBeyond (l.place.column + 1)
  match l.place.rest with
  | [] => l.finish
  | c :: rest =>
    let marks := l.inBrackets || endsWord rest
    if c = '%' && l.place.column = 0 then l.directive
    else if l.place.isMarker '-' then l.boundary .documentStart
    else if l.place.isMarker '.' then l.boundary .documentEnd
    else if c = '[' then l.openBracket .openSequence
    else if c = '\x7b' then l.openBracket .openMapping
    else if c = ']' then l.closeBracket .closeSequence
    else if c = '\x7d' then l.closeBracket .closeMapping
    else if c = ',' then l.comma
    else if c = '-' && endsWord rest then l.dash
    else if c = '?' && marks then l.keyMark
    else if c = ':' && marks then l.colon
    else if c = '*' then l.reference
    else if c = '&' then l.anchor
    else if c = '!' then l.tag
    else if c = '|' && !l.inBrackets then l.block false
    else if c = '>' && !l.inBrackets then l.block true
    else if c = '\'' then l.quoted true
    else if c = '"' then l.quoted false
    else if beginsPlain l.inBrackets c rest then l.plain
    else none

/-- Reads tokens to the end of the text. -/
def run : Nat → Layout → Option (Array Token)
  | 0, _ => none
  | fuel + 1, l => if l.done then some l.tokens else l.next >>= run fuel

end Layout

/-- **The tokens of a text**, if its characters are allowed and it is well formed so far. Every
step but the last takes a character. -/
def tokens? (text : List Char) : Option (List Token) :=
  if text.all isAllowed then
    let text := unifyBreaks text
    (Layout.run (text.length + 2) { place := { rest := text } }).map (·.toList)
  else none

end LinkQuality.Yaml
