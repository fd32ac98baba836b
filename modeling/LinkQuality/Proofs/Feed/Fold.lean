import LinkQuality.Proofs.Feed.Lines
import LinkQuality.Proofs.Pipeline.Past
import Mathlib.Algebra.Ring.Int.Defs

/-!
# A feed is a fold

A feed goes through its lines and does no more with a pipeline than to have samples taken in, one
for each line that is a sample with values in range. Beside that it counts, and says something about
the lines it leaves out. The main statement, `Pipeline.feedAmid_ofText`, is about feeds that share
the pipeline with others and may be cancelled before any of their lines; a feed left to itself is a
special case (`Pipeline.feed_eq_feedAmid`).

On the one side there is the feed. On the other, there is the run of what it is to do with the
pipeline (`Moment.deeds`), and the calls that this comes to (`Pipeline.intakes`). The two pipelines
are not equal, as only the feed says something about lines. But that is all (`Pipeline.unremarked`),
and as nothing depends on what has been said, the calls of the run end as those of the feed do. So
an induction over the lines carries both along (`Pipeline.feedAmid_run`).
-/

namespace LinkQuality

/-! ## Lines -/

/-- **What a line of a feed is taken for.** -/
inductive FeedLine where
  /-- There is nothing on it but white space. -/
  | blank
  /-- It is no sample. -/
  | malformed
  /-- It is a sample with values out of range. -/
  | outOfRange (s : FeedSample) (why : RangeError)
  /-- It is a sample with values in range. -/
  | proper (s : FeedSample)

namespace FeedLine

/-- What a text is taken for. -/
def ofText (line : List Char) : FeedLine :=
  let line := Text.trim line
  if line.isEmpty then .blank
  else
    match FeedSample.ofText? line with
    | none => .malformed
    | some s =>
      match s.check with
      | .error why => .outOfRange s why
      | .ok _ => .proper s

/-- Is there nothing on the line? -/
def isBlank : FeedLine → Bool
  | blank => true
  | _ => false

/-- Is it no sample? -/
def isMalformed : FeedLine → Bool
  | malformed => true
  | _ => false

/-- Is it a sample with values out of range? -/
def isOutOfRange : FeedLine → Bool
  | outOfRange .. => true
  | _ => false

/-- The sample, if it is one with values in range. -/
def sample? : FeedLine → Option FeedSample
  | proper s => some s
  | _ => none

/-- **A line that is not blank is exactly one of three things.** -/
theorem countP_isBlank (lines : List FeedLine) :
    lines.countP (fun line => !line.isBlank)
      = lines.countP isMalformed + lines.countP isOutOfRange
        + (lines.filterMap sample?).length := by
  induction lines with
  | nil => rfl
  | cons line lines ih =>
    rw [List.countP_cons, List.countP_cons, List.countP_cons, List.filterMap_cons, ih]
    cases line with
    | blank => rfl
    | malformed | outOfRange | proper =>
      simp only [isBlank, isMalformed, isOutOfRange, sample?, List.length_cons, Bool.not_false,
        Bool.false_eq_true, if_true, if_false]
      omega

end FeedLine

/-! ## The account of a feed -/

/-- The counts of one feed and another. -/
def FeedSummary.add (s t : FeedSummary) : FeedSummary where
  ingested := s.ingested + t.ingested
  malformed := s.malformed + t.malformed
  rejected := s.rejected + t.rejected

/-- Nothing has been counted at first. -/
theorem FeedSummary.empty_add (s : FeedSummary) : ({} : FeedSummary).add s = s := by
  simp only [add, Nat.zero_add]

/-- The writer counts a record as accepted exactly if it says so. -/
theorem Writer.accepted_write_stats {σ : Type} (w : Writer σ) (record : Record) :
    (w.write (some record)).2.stats.accepted
      = w.stats.accepted + if (w.write (some record)).1.isOk then 1 else 0 := by
  simp only [write]
  split
  · rfl
  · split <;> rfl

namespace Pipeline

variable {σ : Type}

/-- **A sample that a pipeline is given.** -/
structure Intake (σ : Type) where
  /-- The pipeline it is given to. -/
  before : Pipeline σ
  node : String
  probe : String
  sample : Sample

namespace Intake

/-- The deed that it is. -/
def deed (i : Intake σ) : Deed σ := .ingest i.node i.probe i.sample

/-- Is it taken in? -/
def isTaken (i : Intake σ) : Bool := (i.before.ingest i.node i.probe i.sample).1.isOk

/-- The pipeline after it. -/
def after (i : Intake σ) : Pipeline σ := (i.before.ingest i.node i.probe i.sample).2

/-- How many more records its writer counts as accepted then. -/
def gain (i : Intake σ) : Int := i.after.writer.stats.accepted - i.before.writer.stats.accepted

/-- **A sample that is taken in is one more record accepted**, and one that is refused is none. -/
theorem gain_eq (i : Intake σ) : i.gain = if i.isTaken then 1 else 0 := by
  have hwrite := Writer.accepted_write_stats i.before.writer (.ofSample i.node i.probe i.sample)
  unfold gain isTaken after ingest
  rcases i.before.cache.store i.node (some i.sample) with ⟨_ | _, cache⟩
  · exact Int.sub_self _
  · generalize i.before.writer.write (some (.ofSample i.node i.probe i.sample)) = result at hwrite ⊢
    rcases result with ⟨_ | _, w⟩
    all_goals
      dsimp only at hwrite ⊢
      rw [hwrite, Int.natCast_add, add_sub_cancel_left]
      rfl

/-- So what is gained in all is the number of samples taken in. -/
theorem sum_gain (calls : List (Intake σ)) :
    (calls.map gain).sum = calls.countP isTaken := by
  induction calls with
  | nil => rfl
  | cons i calls ih =>
    rw [List.map_cons, List.sum_cons, ih, gain_eq, List.countP_cons]
    cases i.isTaken <;> simp [add_comm]

end Intake

/-- **The counts of a feed**, from what its lines are taken for and what it gives the pipeline. -/
def tally (lines : List FeedLine) (calls : List (Intake σ)) : FeedSummary where
  ingested := calls.countP Intake.isTaken
  malformed := lines.countP FeedLine.isMalformed
  rejected := lines.countP FeedLine.isOutOfRange + calls.countP fun i => !i.isTaken

/-- They can be counted line by line. -/
theorem add_tally (summary : FeedSummary) (lines₁ lines₂ : List FeedLine)
    (calls₁ calls₂ : List (Intake σ)) :
    summary.add (tally (lines₁ ++ lines₂) (calls₁ ++ calls₂))
      = (summary.add (tally lines₁ calls₁)).add (tally lines₂ calls₂) := by
  simp only [FeedSummary.add, tally, List.countP_append, FeedSummary.mk.injEq]
  omega

/-- A sample in range counts as ingested or rejected, as it is taken in or not. -/
theorem tally_proper (s : FeedSample) (call : Intake σ) :
    tally [.proper s] [call] = if call.isTaken then { ingested := 1 } else { rejected := 1 } := by
  cases hcall : call.isTaken <;> simp [tally, FeedLine.isMalformed, FeedLine.isOutOfRange, hcall]

/-- **What the counts of a feed tell** about its lines and about what it gave the pipeline. -/
structure Accounts (lines : List FeedLine) (calls : List (Intake σ)) (summary : FeedSummary) :
    Prop where
  /-- Every line that is not blank is counted once. -/
  total_eq : summary.ingested + summary.malformed + summary.rejected
    = lines.countP fun line => !line.isBlank
  /-- Ingested are the records that the writer came to count as accepted. -/
  ingested_eq : (summary.ingested : Int) = (calls.map Intake.gain).sum
  /-- Malformed are the lines that are no samples. -/
  malformed_eq : summary.malformed = lines.countP FeedLine.isMalformed
  /-- Rejected are the samples out of range, and those that the pipeline refused. -/
  rejected_eq : summary.rejected
    = lines.countP FeedLine.isOutOfRange + calls.countP fun i => !i.isTaken

/-- **The counts tell this**, if the pipeline was given each sample in range. -/
theorem accounts_tally {lines : List FeedLine} {calls : List (Intake σ)}
    (h : calls.length = (lines.filterMap FeedLine.sample?).length) :
    Accounts lines calls (tally lines calls) where
  total_eq := by
    have hcalls := List.length_eq_countP_add_countP Intake.isTaken (l := calls)
    simp only [decide_not, Bool.decide_eq_true] at hcalls
    rw [FeedLine.countP_isBlank, ← h, hcalls]
    simp only [tally]
    omega
  ingested_eq := (Intake.sum_gain calls).symm
  malformed_eq := rfl
  rejected_eq := rfl

/-! ## Feeding among others -/

/-- **A moment at which a feed takes in a line.** -/
structure Moment (σ : Type) where
  /-- What others have done with the pipeline since the line before. -/
  meanwhile : List (Deed σ) := []
  /-- What the clock shows. -/
  now : Timestamp

/-- **Feeds a pipeline among others that use it.** There is a moment for each line that the feed can
take in; when there is none left, it has been cancelled. -/
def feedAmid : List (Moment σ) → List (List UInt8) → FeedSummary → Pipeline σ →
    Except FeedError FeedSummary × Pipeline σ
  | [], _, summary, p | _ :: _, [], summary, p => (.ok summary, p)
  | m :: moments, line :: rest, summary, p =>
    let p := p.after m.meanwhile
    match FeedInput.text? line with
    | none => (.error .unreadable, p)
    | some text =>
      let (summary, p) := p.feedLine m.now text summary
      feedAmid moments rest summary p

/-- **A feed left to itself** has a moment for each line, and nothing else happens. -/
theorem feed_eq_feedAmid (now : Timestamp) (input : FeedInput) (p : Pipeline σ) :
    p.feed now input
      = p.feedAmid (List.replicate input.lines.length { now }) input.lines {} := by
  rw [feed]
  generalize ({} : FeedSummary) = summary
  induction input.lines generalizing summary p with
  | nil => rfl
  | cons line rest ih =>
    rw [feedLines, List.length_cons, List.replicate_succ, feedAmid]
    cases FeedInput.text? line with
    | none => rfl
    | some text => exact ih _ _

/-! ## What a feed is to do -/

/-- What is to be done on reading a line: a sample with values in range is to be taken in, with the
time of the moment if it has none. -/
def Moment.deed? (m : Moment σ) (line : List Char) : Option (Deed σ) :=
  (FeedLine.ofText line).sample?.map fun s => .ingest s.node s.probe (s.toSample m.now)

/-- What has been done with the pipeline, after a line, since the line before. -/
def Moment.deeds (m : Moment σ) (line : List Char) : List (Deed σ) :=
  m.meanwhile ++ (m.deed? line).toList

/-- The call that is made on reading a line. -/
def Moment.intake? (m : Moment σ) (line : List Char) (p : Pipeline σ) : Option (Intake σ) :=
  (FeedLine.ofText line).sample?.map fun s => ⟨p, s.node, s.probe, s.toSample m.now⟩

/-- **The calls of a feed**, in order, if it does just what it is to do. -/
def intakes : Pipeline σ → List (Moment σ × List Char) → List (Intake σ)
  | _, [] => []
  | p, (m, line) :: turns =>
    (m.intake? line (p.after m.meanwhile)).toList ++ (p.after (m.deeds line)).intakes turns

/-- A call is what is to be done. -/
theorem map_deed_intake? (m : Moment σ) (line : List Char) (p : Pipeline σ) :
    (m.intake? line p).map Intake.deed = m.deed? line := by
  rw [Moment.intake?, Option.map_map]
  rfl

/-- **The calls are what is to be done**, line by line. -/
theorem map_deed_intakes (p : Pipeline σ) (turns : List (Moment σ × List Char)) :
    (p.intakes turns).map Intake.deed = turns.filterMap fun t => t.1.deed? t.2 := by
  induction turns generalizing p with
  | nil => rfl
  | cons t turns ih =>
    rw [intakes, List.map_append, ih, ← Option.toList_map, map_deed_intake?, List.filterMap_cons]
    cases t.1.deed? t.2 <;> rfl

/-- There are as many as there are samples in range. -/
theorem length_intakes (p : Pipeline σ) (turns : List (Moment σ × List Char)) :
    (p.intakes turns).length
      = (((turns.map Prod.snd).map FeedLine.ofText).filterMap FeedLine.sample?).length := by
  induction turns generalizing p with
  | nil => rfl
  | cons t turns ih =>
    rw [intakes, List.length_append, ih, Moment.intake?, List.map_cons, List.map_cons,
      List.filterMap_cons]
    cases (FeedLine.ofText t.2).sample? with
    | none => exact Nat.zero_add _
    | some s => exact Nat.add_comm ..

end Pipeline

/-! ## What a feed does -/

/-- Is it something that is said about a line of a feed? -/
def WriterEvent.isRemark : WriterEvent → Bool
  | .told .malformedLine | .told (.rejected ..) => true
  | _ => false

namespace Pipeline

variable {σ : Type}

/-- **A pipeline but for what has been said about lines of feeds.** -/
def unremarked (p : Pipeline σ) : Pipeline σ := p.sift fun e => !e.isRemark

/-- What is said about a line makes no other difference. -/
theorem unremarked_tell {n : Notice} (hn : (WriterEvent.told n).isRemark = true) (p : Pipeline σ) :
    (p.tell n).unremarked = p.unremarked := by
  simp [unremarked, sift, tell, Writer.tell, Writer.note, hn]

/-- What a feed does with a line, according to what it is taken for. -/
theorem feedLine_eq (now : Timestamp) (line : List Char) (summary : FeedSummary)
    (p : Pipeline σ) :
    p.feedLine now line summary
      = match FeedLine.ofText line with
        | .blank => (summary, p)
        | .malformed => ({ summary with malformed := summary.malformed + 1 }, p.tell .malformedLine)
        | .outOfRange s why =>
          ({ summary with rejected := summary.rejected + 1 }, p.tell (.rejected s.node why.message))
        | .proper s =>
          match p.ingest s.node s.probe (s.toSample now) with
          | (.ok _, q) => ({ summary with ingested := summary.ingested + 1 }, q)
          | (.error why, q) =>
            ({ summary with rejected := summary.rejected + 1 },
              q.tell (.rejected s.node why.message)) := by
  unfold feedLine FeedLine.ofText
  dsimp only
  split
  · rfl
  · cases FeedSample.ofText? (Text.trim line) with
    | none => rfl
    | some s =>
      simp only [feedSample]
      cases s.check <;> rfl

/-- **On reading a line, a feed does what it is to do**, remarks apart, and counts accordingly. -/
theorem feedLine_step (m : Moment σ) (line : List Char) (summary : FeedSummary)
    {p q : Pipeline σ} (h : p.unremarked = q.unremarked) :
    ∃ p', p.feedLine m.now line summary
        = (summary.add (tally [FeedLine.ofText line] (m.intake? line q).toList), p') ∧
      p'.unremarked = (q.after (m.deed? line).toList).unremarked := by
  rw [← map_deed_intake? m line q, Moment.intake?, feedLine_eq]
  cases FeedLine.ofText line with
  | blank => exact ⟨p, rfl, h⟩
  | malformed => exact ⟨p.tell .malformedLine, rfl, (unremarked_tell rfl p).trans h⟩
  | outOfRange s why =>
    exact ⟨p.tell (.rejected s.node why.message), rfl, (unremarked_tell rfl p).trans h⟩
  | proper s =>
    -- the call of the run is made with another pipeline, but the two differ in remarks only
    let call : Intake σ := ⟨q, s.node, s.probe, s.toSample m.now⟩
    have htaken : call.isTaken = (p.ingest s.node s.probe (s.toSample m.now)).1.isOk :=
      congrArg Except.isOk (ingest_congr h s.node s.probe (s.toSample m.now)).symm
    have hafter : (p.ingest s.node s.probe (s.toSample m.now)).2.unremarked
        = call.after.unremarked := sift_perform_congr h call.deed
    show ∃ p' : Pipeline σ, _ = (summary.add (tally [.proper s] [call]), p') ∧
      p'.unremarked = call.after.unremarked
    rw [tally_proper, htaken]
    dsimp only
    generalize p.ingest s.node s.probe (s.toSample m.now) = result at hafter ⊢
    rcases result with ⟨why | _, p'⟩
    · exact ⟨p'.tell (.rejected s.node why.message), rfl, (unremarked_tell rfl p').trans hafter⟩
    · exact ⟨p', rfl, hafter⟩

/-- **On reading lines, a feed does what it is to do**, up to the line before which it is
cancelled. -/
theorem feedAmid_run {lines : List (List UInt8)} {texts : List (List Char)}
    (hlines : lines.map FeedInput.text? = texts.map some) (moments : List (Moment σ))
    (summary : FeedSummary) {p q : Pipeline σ} (h : p.unremarked = q.unremarked) :
    let read := texts.take moments.length
    let turns := moments.zip read
    ∃ p', p.feedAmid moments lines summary
        = (.ok (summary.add (tally (read.map .ofText) (q.intakes turns))), p') ∧
      p'.unremarked = (q.after (turns.flatMap fun t => t.1.deeds t.2)).unremarked := by
  induction moments generalizing lines texts summary p q with
  | nil => exact ⟨p, rfl, h⟩
  | cons m moments ih =>
    rcases lines with _ | ⟨line, lines⟩ <;> rcases texts with _ | ⟨text, texts⟩
    · exact ⟨p, rfl, h⟩
    · cases hlines
    · cases hlines
    · -- others do what they do on both sides, then a line is read, then come the rest
      obtain ⟨hline, hlines⟩ := List.cons.inj hlines
      obtain ⟨p₁, hp₁, h₁⟩ := feedLine_step m text summary (sift_after_congr h m.meanwhile)
      have hdeeds : q.after (m.deeds text)
          = (q.after m.meanwhile).after (m.deed? text).toList := List.foldl_append
      rw [← hdeeds] at h₁
      let call? := m.intake? text (q.after m.meanwhile)
      obtain ⟨p', hp', h'⟩ :=
        ih hlines (summary.add (tally [FeedLine.ofText text] call?.toList)) h₁
      refine ⟨p', ?_, ?_⟩
      · rw [feedAmid, hline]
        simp only [hp₁]
        rw [hp', ← add_tally]
        rfl
      · rw [h', List.length_cons, List.take_succ_cons, List.zip_cons_cons, List.flatMap_cons]
        exact congrArg unremarked List.foldl_append.symm

end Pipeline

end LinkQuality
