import LinkQuality.Text.Hexadecimal

/-!
# Strings in JSON

A string stands between quotes. Quotes, backslashes and control characters are written as
escapes, everything else as it is. When a string is read, any escape is understood, and a
character beyond the sixteen-bit range may come as a pair of escapes that only make sense
together.
-/

namespace LinkQuality.Json

/-! ## Writing -/

/-- A character inside the quotes. -/
def escaped (c : Char) : List Char :=
  if c = '"' then ['\\', '"']
  else if c = '\\' then ['\\', '\\']
  else if c = '\x08' then ['\\', 'b']
  else if c = '\x0c' then ['\\', 'f']
  else if c = '\n' then ['\\', 'n']
  else if c = '\r' then ['\\', 'r']
  else if c = '\t' then ['\\', 't']
  else if c.toNat < 32 then
    ['\\', 'u', '0', '0', Text.hexDigit (c.toNat / 16), Text.hexDigit c.toNat]
  else [c]

/-- **A string with its quotes.** -/
def quoted (s : List Char) : List Char := '"' :: s.flatMap escaped ++ ['"']

/-! ## Reading -/

/-- The value of four hexadecimal digits. -/
def hexWord? (a b c d : Char) : Option Nat := do
  let a ← Text.hexValue? a
  let b ← Text.hexValue? b
  let c ← Text.hexValue? c
  let d ← Text.hexValue? d
  some (((a * 16 + b) * 16 + c) * 16 + d)

/-- What a one-letter escape stands for. -/
def shortEscape? (c : Char) : Option Char :=
  if c = '"' then some '"'
  else if c = '\\' then some '\\'
  else if c = '/' then some '/'
  else if c = 'b' then some '\x08'
  else if c = 'f' then some '\x0c'
  else if c = 'n' then some '\n'
  else if c = 'r' then some '\r'
  else if c = 't' then some '\t'
  else none

/-- Is this the first word of a pair? -/
def isLeading (n : Nat) : Bool := 0xD800 ≤ n && n ≤ 0xDBFF

/-- Is this the second word of a pair? -/
def isTrailing (n : Nat) : Bool := 0xDC00 ≤ n && n ≤ 0xDFFF

/-- The character a pair of words stands for. -/
def ofPair (leading trailing : Nat) : Char :=
  Char.ofNat (0x10000 + (leading - 0xD800) * 0x400 + (trailing - 0xDC00))

/-- **Reads a string after its opening quote**, up to and with the closing one. A word that
belongs to a pair is refused on its own, and so is a bare control character. -/
def readString : List Char → Option (List Char × List Char)
  | [] => none
  | '"' :: rest => some ([], rest)
  | '\\' :: 'u' :: a :: b :: c :: d :: rest =>
    match hexWord? a b c d with
    | none => none
    | some word =>
      if isTrailing word then none
      else if isLeading word then
        match rest with
        | '\\' :: 'u' :: a' :: b' :: c' :: d' :: rest' =>
          match hexWord? a' b' c' d' with
          | none => none
          | some second =>
            if isTrailing second then
              (readString rest').map fun (s, r) => (ofPair word second :: s, r)
            else none
        | _ => none
      else (readString rest).map fun (s, r) => (Char.ofNat word :: s, r)
  | '\\' :: c :: rest =>
    match shortEscape? c with
    | none => none
    | some e => (readString rest).map fun (s, r) => (e :: s, r)
  | c :: rest =>
    if c = '\\' ∨ c.toNat < 32 then none
    else (readString rest).map fun (s, r) => (c :: s, r)

/-- Passes over a string after its opening quote. Its escapes have to be well formed; whether
their words pair up is left open. -/
def skipString : List Char → Option (List Char)
  | [] => none
  | '"' :: rest => some rest
  | '\\' :: 'u' :: a :: b :: c :: d :: rest =>
    if (hexWord? a b c d).isSome then skipString rest else none
  | '\\' :: c :: rest => if (shortEscape? c).isSome then skipString rest else none
  | c :: rest => if c = '\\' ∨ c.toNat < 32 then none else skipString rest

end LinkQuality.Json
