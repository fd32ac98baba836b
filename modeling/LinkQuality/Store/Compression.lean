import LinkQuality.Failure

/-!
# Compression of bodies

A body is sent as it is or packed in one of three ways. What matters here is which way a name
stands for and how the receiver is told; the packing itself loses nothing, so a packed body is
known by its content.
-/

namespace LinkQuality

/-- **How a body is packed.** -/
inductive Compression where
  | none
  | gzip
  | zstd
  | zlib
  deriving DecidableEq, Repr

/-- A packed body. -/
structure Body where
  packing : Compression
  /-- What unpacking gives. -/
  content : List Char
  deriving DecidableEq, Repr

namespace Compression

/-- The packing a name stands for. -/
def ofName? (name : String) : Option Compression :=
  if name = "none" ∨ name = "" then some .none
  else if name = "gzip" then some .gzip
  else if name = "zstd" then some .zstd
  else if name = "zlib" then some .zlib
  else Option.none

/-- The failure of a name that stands for nothing. -/
def unsupported (name : String) : Failure := ⟨"unsupported compression: " ++ name, []⟩

/-- **Packs a body** the way the name asks for. -/
def pack (name : String) (content : List Char) : Except Failure Body :=
  match ofName? name with
  | some packing => .ok ⟨packing, content⟩
  | Option.none => .error (unsupported name)

/-- What the receiver is told about the packing a name stands for. Packing with zlib goes by the
name of the method inside it. -/
def coding (name : String) : Option String :=
  if name = "gzip" then some "gzip"
  else if name = "zstd" then some "zstd"
  else if name = "zlib" then some "deflate"
  else Option.none

/-- The first bytes of anything packed this way, in hexadecimal. -/
def magic : Compression → String
  | none => ""
  | gzip => "1f8b"
  | zstd => "28b52ffd"
  | zlib => "78"

/-- The packing a receiver takes a coding for. -/
def ofCoding? : Option String → Option Compression
  | Option.none => some none
  | some coding =>
    if coding = "gzip" then some gzip
    else if coding = "zstd" then some zstd
    else if coding = "deflate" then some zlib
    else Option.none

end Compression

end LinkQuality
