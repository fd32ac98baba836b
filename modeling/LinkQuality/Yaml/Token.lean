import LinkQuality.Yaml.Scalar

/-!
# Tokens

What a YAML text consists of once scalars are read and indentation is told: brackets that are
written, brackets that the layout implies, and the marks between. Anchors and aliases carry the
number their name has got. A tag is a handle, for which a directive may set something else, and a
body; as both are octets that a percent sign may introduce, they are kept octet for octet.
-/

namespace LinkQuality.Yaml

/-- **A token**. -/
inductive Token where
  /-- A directive for the version of the format. -/
  | version (major minor : Nat)
  /-- A directive that says what a tag handle stands for. -/
  | tagHandle (handle meaning : List Char)
  | documentStart
  | documentEnd
  | openBlockSequence
  | openBlockMapping
  | closeBlock
  | openSequence
  | closeSequence
  | openMapping
  | closeMapping
  /-- A dash, or a comma between entries in brackets. -/
  | dash
  | comma
  | key
  | value
  | alias (number : Nat)
  | anchor (number : Nat)
  | tag (handle body : List Char)
  | scalar (style : ScalarStyle) (text : List Char)
  deriving DecidableEq

/-! ## Anchors and aliases -/

/-- The name after an ampersand or asterisk. White space or one of a few marks must follow. -/
def readReference (cs : List Char) : Option (String × List Char) :=
  let (name, rest) := cs.span isNameChar
  if name.isEmpty then none
  else
    let marks := ['?', ':', ',', ']', '\x7d', '%', '@', '\x60']
    if endsWord rest || rest.head?.any (marks.contains ·) then some (String.ofList name, rest)
    else none

/-! ## Tags -/

/-- The marks, besides the characters of names, that can occur in a tag. -/
def tagMarks : List Char :=
  [';', '/', '?', ':', '@', '&', '=', '+', '$', '.', '!', '~', '*', '\'', '(', ')']

/-- How many octets a character has whose first octet is given, or nothing. -/
def octetCount? (octet : Nat) : Option Nat :=
  if octet < 0x80 then some 1
  else if octet < 0xC0 then none
  else if octet < 0xE0 then some 2
  else if octet < 0xF0 then some 3
  else if octet < 0xF8 then some 4
  else none

/-- Reads the body of a tag. A percent sign introduces an octet, and octets must make up
characters: the number says how many are still to come. Commas and square brackets belong to a
tag only where it is `enclosed`. -/
def readTagBody (enclosed : Bool) : List Char → Nat → Option (List Char × List Char)
  | '%' :: a :: b :: rest, due => do
    let octet := (← Text.hexValue? a) * 16 + (← Text.hexValue? b)
    let due ← match due with
      | 0 => (octetCount? octet).map (· - 1)
      | due + 1 => if octet / 64 = 2 then some due else none
    let (body, rest) ← readTagBody enclosed rest due
    some (Char.ofNat octet :: body, rest)
  | c :: rest, 0 =>
    if c = '%' then none
    else if isNameChar c || tagMarks.contains c ||
        (enclosed && (c = ',' || c = '[' || c = ']')) then do
      let (body, rest) ← readTagBody enclosed rest 0
      some (c :: body, rest)
    else some ([], c :: rest)
  | [], 0 => some ([], [])
  | _, _ + 1 => none

/-- The body of a tag, which is not empty. -/
def readFilledTagBody (enclosed : Bool) (cs : List Char) : Option (List Char × List Char) :=
  (readTagBody enclosed cs 0).filter fun (body, _) => !body.isEmpty

/-- The handle at the front of a tag, from the exclamation mark: whether a second mark ends it. -/
def readHandle : List Char → Option (List Char × Bool × List Char)
  | '!' :: rest =>
    let (name, rest) := rest.span isNameChar
    match rest with
    | '!' :: rest => some ('!' :: name ++ ['!'], true, rest)
    | rest => some ('!' :: name, false, rest)
  | _ => none

/-- **Reads a tag**: enclosed in angle brackets, with a handle between two marks, or local, after
one mark. The handle is empty where it stands for nothing. -/
def readTag (inBrackets : Bool) (cs : List Char) : Option (Token × List Char) := do
  let (handle, body, rest) ← match cs with
    | '!' :: '<' :: rest => do
      match ← readFilledTagBody true rest with
      | (body, '>' :: rest) => some ([], body, rest)
      | _ => none
    | cs => do
      match ← readHandle cs with
      | (handle, true, rest) => (readFilledTagBody false rest).map (handle, ·)
      | (name, false, rest) => do
        let (body, rest) ← readTagBody false rest 0
        let body := name.tail ++ body
        some (if body.isEmpty then ([], ['!'], rest) else (['!'], body, rest))
  if endsWord rest || (inBrackets && rest.head? = some ',') then some (.tag handle body, rest)
  else none

/-! ## Directives -/

/-- A part of a version number. -/
def readVersionPart (cs : List Char) : Option (Nat × List Char) :=
  let (digits, rest) := cs.span Char.isDigit
  if digits.isEmpty || 9 < digits.length then none
  else some (digits.foldl (fun n c => n * 10 + (c.toNat - 48)) 0, rest)

/-- The rest of a version directive. -/
def readVersion (cs : List Char) : Option (Token × List Char) := do
  let (major, rest) ← readVersionPart (cs.dropWhile isSpace)
  match rest with
  | '.' :: rest => do
    let (minor, rest) ← readVersionPart rest
    some (.version major minor, rest)
  | _ => none

/-- The rest of a directive for a tag handle. -/
def readTagHandle (cs : List Char) : Option (Token × List Char) := do
  let (handle, closed, rest) ← readHandle (cs.dropWhile isSpace)
  if (closed || handle = ['!']) && rest.head?.any isSpace then
    let (meaning, rest) ← readFilledTagBody true (rest.dropWhile isSpace)
    if endsWord rest then some (.tagHandle handle meaning, rest) else none
  else none

/-- **Reads a directive** after its percent sign, up to white space or the end of the line. -/
def readDirective (cs : List Char) : Option (Token × List Char) :=
  let (name, rest) := cs.span isNameChar
  if !endsWord rest then none
  else if name = ['Y', 'A', 'M', 'L'] then readVersion rest
  else if name = ['T', 'A', 'G'] then readTagHandle rest
  else none

end LinkQuality.Yaml
