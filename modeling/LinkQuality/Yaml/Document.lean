import LinkQuality.Yaml.Node

/-!
# Documents

A text holds one document: perhaps directives, perhaps a mark where it begins, one node, and marks
where it ends. A text without any of these holds nothing, which is not the same as a node that is
left out.
-/

namespace LinkQuality.Yaml

/-- The root of a document, and the nodes of it that have an anchor. -/
structure Document where
  root : Node
  /-- Later nodes come first. -/
  anchors : List (Nat × Node)

namespace Document

/-- A document with a root. -/
def ofRoot (n : Node) : Document := ⟨n, n.anchors.reverse⟩

/-- **What a node stands for**, neither an alias nor anchored. Of several nodes with the same number
the last is meant. -/
def content (d : Document) (n : Node) : Option Node :=
  match n.bare with
  | .alias number => (d.anchors.lookup number).map Node.bare
  | n => some n

/-! ## Reading -/

/-- What tag handles stand for, the last said first. -/
abbrev TagHandles := List (List Char × List Char)

/-- What tag handles stand for without a directive. -/
def standardHandles : TagHandles :=
  [([], []), (['!'], ['!']), (['!', '!'], "tag:yaml.org,2002:".toList)]

/-- Reads directives: one version at most, of the first edition, and each handle once. -/
def readDirectives : Bool → TagHandles → List Token → Option (TagHandles × List Token)
  | versioned, handles, .version major minor :: ts =>
    if !versioned && major = 1 && (minor = 1 || minor = 2) then readDirectives true handles ts
    else none
  | versioned, handles, .tagHandle handle meaning :: ts =>
    if (handles.lookup handle).isSome then none
    else readDirectives versioned ((handle, meaning) :: handles) ts
  | _, handles, ts => some (handles, ts)

/-- Puts what its handle stands for in front of a tag. -/
def expandTag (handles : TagHandles) : Token → Option Token
  | .tag handle body =>
    ((handles ++ standardHandles).lookup handle).map fun meaning => .tag [] (meaning ++ body)
  | t => some t

/-- Does nothing follow but marks of an end? -/
def isOver (ts : List Token) : Bool := ts.all (· = .documentEnd)

/-- The root of a document that may be left out. -/
def readRoot (ts : List Token) : Option (Node × List Token) :=
  match ts with
  | [] | .documentStart :: _ | .documentEnd :: _ => some (.absent, ts)
  | ts => Node.read (3 * ts.length + 3) .entry ts

/-- The one document that tokens hold, or nothing if there are none. -/
def ofTokens (ts : List Token) : Option (Option Document) :=
  match ts with
  | [] => some none
  | ts => do
    let (handles, rest) ← readDirectives false [] ts
    let directed := rest.length < ts.length
    let rest ← rest.mapM (expandTag handles)
    let (root, rest) ← match rest with
      | .documentStart :: rest => readRoot rest
      | rest => if directed then none else Node.read (3 * rest.length + 3) .entry rest
    if isOver rest then some (some (ofRoot root)) else none

/-- **Reads the one document of a text**, or finds that it holds nothing. -/
def ofText (text : List Char) : Option (Option Document) := tokens? text >>= ofTokens

end Document

end LinkQuality.Yaml
