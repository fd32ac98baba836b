import LinkQuality.Yaml.Layout

/-!
# Nodes

A YAML text describes a tree of scalars, sequences and mappings, in which a node can be named by
an anchor and used again by an alias. A node that is left out is an empty plain scalar. The
readers below take tokens and give a node with the tokens after it; collections written in
brackets and those told by the layout differ in their marks and in where entries may be missing.
-/

namespace LinkQuality.Yaml

/-- A scalar of a document. -/
structure Scalar where
  text : List Char
  style : ScalarStyle := .plain
  /-- The kind of value it is said to be. -/
  tag : Option (List Char) := none

/-- **A node** of a document. -/
inductive Node where
  | scalar (s : Scalar)
  | sequence (items : List Node)
  | mapping (entries : List (Node × Node))
  /-- Stands for the node with an anchor. -/
  | alias (number : Nat)
  | anchored (number : Nat) (node : Node)

namespace Node

/-- The node that is left out. -/
def absent : Node := .scalar { text := [] }

/-- The node without its anchor. -/
def bare : Node → Node
  | .anchored _ n => n
  | n => n

/-- The node with an anchor, if there is one. -/
def withAnchor : Option Nat → Node → Node
  | some number, n => .anchored number n
  | none, n => n

/-! ## Properties -/

/-- What can stand in front of a node: an anchor and a tag, in either order. -/
structure Properties where
  anchor : Option Nat := none
  tag : Option (List Char) := none

/-- Reads the properties of a node. Of a tag only the body is left. -/
def readProperties : List Token → Properties × List Token
  | .anchor n :: .tag _ t :: ts => (⟨some n, some t⟩, ts)
  | .anchor n :: ts => (⟨some n, none⟩, ts)
  | .tag _ t :: .anchor n :: ts => (⟨some n, some t⟩, ts)
  | .tag _ t :: ts => (⟨none, some t⟩, ts)
  | ts => ({}, ts)

/-! ## Collections -/

/-- Where a node stands: in brackets, as an entry of a sequence, or as a part of a mapping, whose
sequences need not be indented. -/
inductive Context where
  | brackets
  | entry
  | part
  deriving DecidableEq

/-- Is the node left out before this token, in a collection told by the layout? A dash is the next
entry only in a sequence, the marks of a mapping belong to one in which the sequence stands. -/
def isAbsent (dash marks : Bool) : List Token → Bool
  | .dash :: _ => dash
  | .key :: _ | .value :: _ => marks
  | .closeBlock :: _ => true
  | _ => false

mutual

/-- **Reads a node.** The first number bounds the depth of the recursion. -/
def read : Nat → Context → List Token → Option (Node × List Token)
  | 0, _, _ => none
  | _ + 1, _, .alias n :: ts => some (.alias n, ts)
  | fuel + 1, context, ts =>
    let (properties, ts) := readProperties ts
    let named (r : Option (Node × List Token)) := r.map fun (n, ts) =>
      (withAnchor properties.anchor n, ts)
    match context, ts with
    | .part, .dash :: _ => named (readUnindented fuel [] ts)
    | _, .scalar style text :: ts => named (some (.scalar ⟨text, style, properties.tag⟩, ts))
    | _, .openSequence :: ts => named (readListed fuel [] ts)
    | _, .openMapping :: ts => named (readPaired fuel [] ts)
    | .entry, .openBlockSequence :: ts | .part, .openBlockSequence :: ts =>
      named (readEntries fuel [] ts)
    | .entry, .openBlockMapping :: ts | .part, .openBlockMapping :: ts =>
      named (readParts fuel [] ts)
    | _, ts =>
      if properties.anchor.isSome || properties.tag.isSome then named (some (absent, ts)) else none

/-- Entries of a sequence, each after a dash, up to its end. -/
def readEntries : Nat → List Node → List Token → Option (Node × List Token)
  | fuel + 1, items, .dash :: ts =>
    if isAbsent true false ts then readEntries fuel (absent :: items) ts
    else do
      let (n, ts) ← read fuel .entry ts
      readEntries fuel (n :: items) ts
  | _ + 1, items, .closeBlock :: ts => some (.sequence items.reverse, ts)
  | _, _, _ => none

/-- Entries of a sequence that stands in the column of the mapping around it. -/
def readUnindented : Nat → List Node → List Token → Option (Node × List Token)
  | 0, _, _ => none
  | fuel + 1, items, .dash :: ts =>
    if isAbsent true true ts then readUnindented fuel (absent :: items) ts
    else do
      let (n, ts) ← read fuel .entry ts
      readUnindented fuel (n :: items) ts
  | _ + 1, items, ts => some (.sequence items.reverse, ts)

/-- Keys and values of a mapping up to its end. -/
def readParts : Nat → List (Node × Node) → List Token → Option (Node × List Token)
  | fuel + 1, entries, .key :: ts => do
    let (k, ts) ← if isAbsent false true ts then some (absent, ts) else read fuel .part ts
    match ts with
    | .value :: ts =>
      let (v, ts) ← if isAbsent false true ts then some (absent, ts) else read fuel .part ts
      readParts fuel ((k, v) :: entries) ts
    | ts => readParts fuel ((k, absent) :: entries) ts
  | _ + 1, entries, .closeBlock :: ts => some (.mapping entries.reverse, ts)
  | _, _, _ => none

/-- Entries of a sequence in brackets, up to its end. An entry with a colon is a mapping of its
own. -/
def readListed : Nat → List Node → List Token → Option (Node × List Token)
  | _ + 1, items, .closeSequence :: ts => some (.sequence items.reverse, ts)
  | fuel + 1, items, ts => do
    let ts ← if items.isEmpty then some ts else match ts with
      | .comma :: ts => some ts
      | _ => none
    match ts with
    | .closeSequence :: ts => some (.sequence items.reverse, ts)
    | .key :: ts =>
      let (k, ts) ← match ts with
        | .value :: ts | .comma :: ts | .closeSequence :: ts => some (absent, ts)
        | ts => read fuel .brackets ts
      match ts with
      | .value :: .comma :: ts => readListed fuel (.mapping [(k, absent)] :: items) (.comma :: ts)
      | .value :: .closeSequence :: ts =>
        readListed fuel (.mapping [(k, absent)] :: items) (.closeSequence :: ts)
      | .value :: ts =>
        let (v, ts) ← read fuel .brackets ts
        readListed fuel (.mapping [(k, v)] :: items) ts
      | ts => readListed fuel (.mapping [(k, absent)] :: items) ts
    | ts =>
      let (n, ts) ← read fuel .brackets ts
      readListed fuel (n :: items) ts
  | _, _, _ => none

/-- Keys and values of a mapping in brackets, up to its end. -/
def readPaired : Nat → List (Node × Node) → List Token → Option (Node × List Token)
  | _ + 1, entries, .closeMapping :: ts => some (.mapping entries.reverse, ts)
  | fuel + 1, entries, ts => do
    let ts ← if entries.isEmpty then some ts else match ts with
      | .comma :: ts => some ts
      | _ => none
    match ts with
    | .closeMapping :: ts => some (.mapping entries.reverse, ts)
    | .key :: ts =>
      let (k, ts) ← match ts with
        | .value :: _ | .comma :: _ | .closeMapping :: _ => some (absent, ts)
        | ts => read fuel .brackets ts
      match ts with
      | .value :: ts =>
        let (v, ts) ← match ts with
          | .comma :: _ | .closeMapping :: _ => some (absent, ts)
          | ts => read fuel .brackets ts
        readPaired fuel ((k, v) :: entries) ts
      | ts => readPaired fuel ((k, absent) :: entries) ts
    | ts =>
      let (k, ts) ← read fuel .brackets ts
      readPaired fuel ((k, absent) :: entries) ts
  | _, _, _ => none

end

/-! ## Anchors -/

mutual

/-- The nodes with an anchor, in the order in which they begin. -/
def anchors : Node → List (Nat × Node)
  | .scalar _ | .alias _ => []
  | .sequence items => anchorsOfItems items
  | .mapping entries => anchorsOfEntries entries
  | .anchored number n => (number, n) :: anchors n

/-- The nodes with an anchor among items. -/
def anchorsOfItems : List Node → List (Nat × Node)
  | [] => []
  | n :: ns => anchors n ++ anchorsOfItems ns

/-- The nodes with an anchor among keys and values. -/
def anchorsOfEntries : List (Node × Node) → List (Nat × Node)
  | [] => []
  | (k, v) :: rest => anchors k ++ anchors v ++ anchorsOfEntries rest

end

end Node

end LinkQuality.Yaml
