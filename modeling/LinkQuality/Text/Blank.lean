/-!
# White space

The characters that separate without being seen, as Unicode lists them (`White_Space`). Feed
lines are trimmed of them and times may hold them between their parts; the data formats, which
know only a few of them, say so where they read.
-/

namespace LinkQuality.Text

/-- The ranges of white space outside ASCII and Latin-1, both ends included. -/
def wideBlanks : List (Nat × Nat) :=
  [(0x1680, 0x1680), (0x2000, 0x200A), (0x2028, 0x2029), (0x202F, 0x202F), (0x205F, 0x205F),
    (0x3000, 0x3000)]

/-- **Is `c` white space?** -/
def isBlank (c : Char) : Bool :=
  let n := c.toNat
  (9 ≤ n && n ≤ 13) || n = 32 || n = 0x85 || n = 0xA0 ||
    wideBlanks.any fun (first, last) => first ≤ n && n ≤ last

/-- The text without its leading white space. -/
def trimStart (cs : List Char) : List Char := cs.dropWhile isBlank

/-- The text without white space at either end. -/
def trim (cs : List Char) : List Char := (trimStart (trimStart cs).reverse).reverse

end LinkQuality.Text
