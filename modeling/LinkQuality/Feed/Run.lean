import LinkQuality.Feed.Sample
import LinkQuality.Pipeline.Basic

/-!
# Feeding a pipeline

A feed is text, one sample a line. Its lines are taken in one after the other: blank ones are
passed over, those that are no sample or whose values are out of range are reported and left
out, the others are ingested. A line whose bytes are no text at all ends the feed.

Only a line that has come to its end can be read – by a line break, or by the end of the feed.
-/

namespace LinkQuality

/-- **What became of the lines of a feed.** -/
structure FeedSummary where
  ingested : Nat := 0
  malformed : Nat := 0
  rejected : Nat := 0
  deriving DecidableEq, Repr

/-- Why a feed ends before its last line. -/
inductive FeedError where
  /-- A line could not be read as text. -/
  | unreadable
  deriving DecidableEq, Repr

/-- The wording of the failure of a feed. -/
def FeedError.message : FeedError → String
  | unreadable => "reading sample feed"

/-- Bytes that arrive, and whether more may follow. -/
structure FeedInput where
  bytes : List UInt8
  /-- The feed stays open and is abandoned once nothing more has come. -/
  isOpen : Bool := false

namespace FeedInput

/-- Cuts bytes at line breaks. The last piece is what follows the last break. -/
def pieces : List UInt8 → List UInt8 × List (List UInt8)
  | [] => ([], [])
  | b :: rest =>
    let (first, others) := pieces rest
    if b = 10 then ([], first :: others) else (b :: first, others)

/-- The lines that can be read. -/
def lines (input : FeedInput) : List (List UInt8) :=
  let (first, others) := pieces input.bytes
  let all := first :: others
  let last := all.getLast?.getD []
  if input.isOpen || last.isEmpty then all.dropLast else all

/-- The text of a line. -/
def text? (line : List UInt8) : Option (List Char) :=
  (String.fromUTF8? ⟨line.toArray⟩).map String.toList

end FeedInput

namespace Pipeline

variable {σ : Type}

/-- Takes in a sample that could be read. -/
def feedSample (now : Timestamp) (s : FeedSample) (summary : FeedSummary) (p : Pipeline σ) :
    FeedSummary × Pipeline σ :=
  match s.check with
  | .error why =>
    ({ summary with rejected := summary.rejected + 1 }, p.tell (.rejected s.node why.message))
  | .ok _ =>
    match p.ingest s.node s.probe (s.toSample now) with
    | (.ok _, p) => ({ summary with ingested := summary.ingested + 1 }, p)
    | (.error why, p) =>
      ({ summary with rejected := summary.rejected + 1 }, p.tell (.rejected s.node why.message))

/-- Takes in one line. -/
def feedLine (now : Timestamp) (line : List Char) (summary : FeedSummary) (p : Pipeline σ) :
    FeedSummary × Pipeline σ :=
  let line := Text.trim line
  if line.isEmpty then (summary, p)
  else
    match FeedSample.ofText? line with
    | none => ({ summary with malformed := summary.malformed + 1 }, p.tell .malformedLine)
    | some s => p.feedSample now s summary

/-- Takes in lines until they end or one cannot be read. -/
def feedLines (now : Timestamp) :
    List (List UInt8) → FeedSummary → Pipeline σ → Except FeedError FeedSummary × Pipeline σ
  | [], summary, p => (.ok summary, p)
  | line :: rest, summary, p =>
    match FeedInput.text? line with
    | none => (.error .unreadable, p)
    | some text =>
      let (summary, p) := p.feedLine now text summary
      feedLines now rest summary p

/-- **Feeds a pipeline.** Samples without a time of their own are made at `now`. -/
def feed (now : Timestamp) (input : FeedInput) (p : Pipeline σ) :
    Except FeedError FeedSummary × Pipeline σ :=
  p.feedLines now input.lines {}

end Pipeline

end LinkQuality
