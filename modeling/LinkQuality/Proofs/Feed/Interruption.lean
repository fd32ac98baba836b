import LinkQuality.Proofs.Feed.Fold
import LinkQuality.Proofs.Writer.Conservation

/-!
# What ends a feed

A line that is no sample is counted and passed over, whatever is written on it; but it has to be
text. Bytes that are none are noticed where lines are read, before anyone asks what stands on
them, and there they end the feed. So the feeds that come to their end are exactly those of which
each line that is read can be read as text (`Pipeline.feedAmid_isOk_eq`).

The lines before the first one that is no text (`FeedInput.texts`) are those of a feed that brings a
text, so all that holds of such a feed holds up to there, and `feedAmid_append` carries it over.
The counts are lost then, and nothing is read any more.
-/

namespace LinkQuality

namespace FeedInput

/-- Can a line be read as text? -/
def isReadable (line : List UInt8) : Bool := (text? line).isSome

/-- **The texts of lines**, up to the first one that is none. -/
def texts (lines : List (List UInt8)) : List (List Char) :=
  (lines.takeWhile isReadable).filterMap text?

/-- Each line before the first one that is no text has its text. -/
theorem map_text?_takeWhile (lines : List (List UInt8)) :
    (lines.takeWhile isReadable).map text? = (texts lines).map some := by
  have hall : ∀ line ∈ lines.takeWhile isReadable, isReadable line = true :=
    List.all_eq_true.mp List.all_takeWhile
  unfold texts
  generalize lines.takeWhile isReadable = read at hall ⊢
  induction read with
  | nil => rfl
  | cons line read ih =>
    obtain ⟨hline, hread⟩ := List.forall_mem_cons.mp hall
    obtain ⟨text, htext⟩ := Option.isSome_iff_exists.mp hline
    rw [List.map_cons, List.filterMap_cons, htext, ih hread]
    rfl

/-- So there are as many texts as such lines. -/
theorem length_texts (lines : List (List UInt8)) :
    (texts lines).length = (lines.takeWhile isReadable).length := by
  have hlength := congrArg List.length (map_text?_takeWhile lines)
  rw [List.length_map, List.length_map] at hlength
  exact hlength.symm

end FeedInput

namespace Pipeline

open FeedInput (isReadable texts)

variable {σ : Type}

/-- Only lines for which there is a moment make a difference. -/
theorem feedAmid_take (moments : List (Moment σ)) (lines : List (List UInt8))
    (summary : FeedSummary) (p : Pipeline σ) :
    p.feedAmid moments (lines.take moments.length) summary = p.feedAmid moments lines summary := by
  induction moments generalizing lines summary p with
  | nil => rfl
  | cons m moments ih =>
    cases lines with
    | nil => rfl
    | cons line rest =>
      rw [List.length_cons, List.take_succ_cons, feedAmid, feedAmid]
      cases FeedInput.text? line with
      | none => rfl
      | some text => exact ih rest _ _

/-- **A feed goes on where it is**: lines that can be read are followed by the others, at the
moments that are left. -/
theorem feedAmid_append {read : List (List UInt8)} (hread : ∀ line ∈ read, isReadable line = true)
    (rest : List (List UInt8)) (moments : List (Moment σ)) (summary : FeedSummary)
    (p : Pipeline σ) :
    ∃ summary' q, p.feedAmid moments read summary = (.ok summary', q) ∧
      p.feedAmid moments (read ++ rest) summary
        = q.feedAmid (moments.drop read.length) rest summary' := by
  induction read generalizing moments summary p with
  | nil => cases moments <;> exact ⟨summary, p, rfl, rfl⟩
  | cons line read ih =>
    obtain ⟨hline, hread⟩ := List.forall_mem_cons.mp hread
    obtain ⟨text, htext⟩ := Option.isSome_iff_exists.mp hline
    rcases moments with _ | ⟨m, moments⟩
    · exact ⟨summary, p, rfl, by rw [List.drop_nil]; cases rest <;> rfl⟩
    · simp only [List.cons_append, feedAmid, htext, List.length_cons, List.drop_succ_cons]
      exact ih hread moments _ _

/-- **A line that is no text ends the feed**, after others have had their turn before it. -/
theorem feedAmid_unreadable {line : List UInt8} (hline : isReadable line = false) (m : Moment σ)
    (moments : List (Moment σ)) (rest : List (List UInt8)) (summary : FeedSummary)
    (p : Pipeline σ) :
    p.feedAmid (m :: moments) (line :: rest) summary
      = (.error .unreadable, p.after m.meanwhile) := by
  have htext : FeedInput.text? line = none := by
    rw [isReadable, Option.isSome_eq_false_iff] at hline
    exact Option.isNone_iff_eq_none.mp hline
  rw [feedAmid, htext]

/-- What others do at the moment of the first line that is no text, before it is read. -/
def interlude (moments : List (Moment σ)) (lines : List (List UInt8)) : List (Deed σ) :=
  ((moments.zip lines).find? fun t => !isReadable t.2).toList.flatMap (·.1.meanwhile)

/-- There is no such moment if all lines are text. -/
theorem interlude_of_all {lines : List (List UInt8)} (h : ∀ line ∈ lines, isReadable line = true)
    (moments : List (Moment σ)) : interlude moments lines = [] := by
  have hnone : ((moments.zip lines).find? fun t => !isReadable t.2) = none := by
    refine List.find?_eq_none.mpr fun t ht => ?_
    simp [h t.2 (List.of_mem_zip ht).2]
  rw [interlude, hnone]
  rfl

/-- It is that of the line that comes after those that are. -/
theorem interlude_append {read : List (List UInt8)} (hread : ∀ line ∈ read, isReadable line = true)
    {line : List UInt8} (hline : isReadable line = false) (rest : List (List UInt8))
    {first : List (Moment σ)} (hfirst : first.length = read.length) (m : Moment σ)
    (later : List (Moment σ)) :
    interlude (first ++ m :: later) (read ++ line :: rest) = m.meanwhile := by
  have hnone : ((first.zip read).find? fun t => !isReadable t.2) = none := by
    refine List.find?_eq_none.mpr fun t ht => ?_
    simp [hread t.2 (List.of_mem_zip ht).2]
  rw [interlude, List.zip_append hfirst, List.find?_append, hnone, List.zip_cons_cons,
    List.find?_cons_of_pos (by simp [hline])]
  exact List.flatMap_singleton ..

/-- The texts read are no more than the lines there are moments for. -/
theorem length_texts_le {lines : List (List UInt8)} {moments : List (Moment σ)}
    (hlength : lines.length ≤ moments.length) : (texts lines).length ≤ moments.length := by
  rw [FeedInput.length_texts]
  exact (List.takeWhile_prefix isReadable).length_le.trans hlength

/-- **What a feed of any bytes does.** Up to the first line that is no text it does what it is to
do. If there is no such line it ends with its counts, and else without. -/
theorem feedAmid_eq {lines : List (List UInt8)} {moments : List (Moment σ)}
    (hlength : lines.length ≤ moments.length) (p : Pipeline σ) :
    let turns := moments.zip (texts lines)
    let summary := tally ((texts lines).map .ofText) (p.intakes turns)
    ∃ q, p.feedAmid moments lines {}
        = (if lines.all isReadable then .ok summary else .error .unreadable, q) ∧
      q.unremarked = (p.after (turns.flatMap (fun t => t.1.deeds t.2)
        ++ interlude moments lines)).unremarked := by
  intro turns summary
  let read := lines.takeWhile isReadable
  have hread : ∀ line ∈ read, isReadable line = true := List.all_eq_true.mp List.all_takeWhile
  have hsplit : lines = read ++ lines.dropWhile isReadable := List.takeWhile_append_dropWhile.symm
  have htake : (texts lines).take moments.length = texts lines :=
    List.take_of_length_le (length_texts_le hlength)
  -- up to the first line that is no text, this is a feed that brings a text
  obtain ⟨q, hq, hafter⟩ := feedAmid_run (FeedInput.map_text?_takeWhile lines) moments {}
    (rfl : p.unremarked = p.unremarked)
  rw [FeedSummary.empty_add, htake] at hq
  rw [htake] at hafter
  cases hrest : lines.dropWhile isReadable with
  | nil =>
    have hall : lines.takeWhile isReadable = lines := by
      rw [hrest, List.append_nil] at hsplit
      exact hsplit.symm
    have hread : ∀ line ∈ lines, isReadable line = true := hall ▸ hread
    rw [hall] at hq
    refine ⟨q, ?_, ?_⟩
    · rw [hq, if_pos (List.all_eq_true.mpr hread)]
    · rw [hafter, interlude_of_all hread, List.append_nil]
  | cons line rest =>
    have hline : isReadable line = false := by
      have h := List.head?_dropWhile_not isReadable lines
      rw [hrest] at h
      simpa using h
    have hlines : lines = read ++ line :: rest := by rw [← hrest, ← hsplit]
    have hnotall : ¬ lines.all isReadable = true := by
      rw [hlines]
      simp [hline]
    have hmore : read.length < moments.length := by
      rw [hlines, List.length_append, List.length_cons] at hlength
      omega
    obtain ⟨m, later, hdrop⟩ : ∃ m later, moments.drop read.length = m :: later :=
      ⟨_, _, List.drop_eq_getElem_cons hmore⟩
    have hmoments : moments = moments.take read.length ++ m :: later := by
      rw [← hdrop, List.take_append_drop]
    obtain ⟨summary', q', hq', happend⟩ := feedAmid_append hread (line :: rest) moments {} p
    obtain rfl : q' = q := congrArg Prod.snd (hq'.symm.trans hq)
    refine ⟨q'.after m.meanwhile, ?_, ?_⟩
    · rw [hlines, happend, hdrop, feedAmid_unreadable hline, ← hlines, if_neg hnotall]
    · have hinterlude : interlude moments lines = m.meanwhile := by
        rw [hlines, hmoments]
        exact interlude_append hread hline rest (List.length_take_of_le hmore.le) m later
      have happ : p.after (turns.flatMap (fun t => t.1.deeds t.2) ++ m.meanwhile)
          = (p.after (turns.flatMap fun t => t.1.deeds t.2)).after m.meanwhile :=
        List.foldl_append
      rw [hinterlude, happ]
      exact sift_after_congr hafter m.meanwhile

/-- **A feed comes to its end exactly if all that it reads is text**, whatever else is written on
its lines, whatever others do with the pipeline meanwhile, and whenever it is cancelled.

* If each line that is read is text, it ends with its counts: every line that is not blank is
  counted, those that are no samples as malformed, and every sample in range was taken in, in
  order, wherever the others stand.
* If some line is not, the first such line ends the feed with an error. The lines before it have
  been taken in as always, but their counts are lost, and no later line is read.

A feed left to itself reads all of its lines. -/
theorem feedAmid_isOk_eq (input : FeedInput) (moments : List (Moment σ)) (p : Pipeline σ) :
    let lines := input.lines.take moments.length
    let read := texts lines
    let turns := moments.zip read
    let calls := p.intakes turns
    (∃ summary q,
      p.feedAmid moments input.lines {}
        = (if lines.all isReadable then .ok summary else .error .unreadable, q) ∧
      (lines.takeWhile isReadable).map FeedInput.text? = read.map some ∧
      q.unremarked = (p.after (turns.flatMap (fun t => t.1.deeds t.2)
        ++ interlude moments lines)).unremarked ∧
      calls.map Intake.deed = turns.filterMap (fun t => t.1.deed? t.2) ∧
      Accounts (read.map .ofText) calls summary) ∧
    ∀ now, (p.feed now input).1.isOk = input.lines.all isReadable := by
  intro lines read turns calls
  have hlength : lines.length ≤ moments.length := List.length_take_le ..
  have hcalls : calls.length = ((read.map .ofText).filterMap FeedLine.sample?).length := by
    rw [length_intakes, List.map_snd_zip (length_texts_le hlength)]
  obtain ⟨q, hq, hafter⟩ := feedAmid_eq hlength p
  rw [feedAmid_take] at hq
  refine ⟨⟨tally (read.map .ofText) calls, q, hq, FeedInput.map_text?_takeWhile lines, hafter,
    map_deed_intakes p turns, accounts_tally hcalls⟩, fun now => ?_⟩
  -- left to itself, a feed has a moment for each of its lines
  obtain ⟨q, hq, -⟩ := feedAmid_eq (List.length_replicate (a := ({ now } : Moment σ))).ge p
  rw [feed_eq_feedAmid, hq]
  cases input.lines.all isReadable <;> rfl

/-- A sample as it can stand on a line. -/
def plainLine : List Char := "[\"a\",\"p\",\"2024-05-01T10:00:00Z\",1]".toList

/-- Two bytes that are no text, on a line of their own, keep a feed from its end and the sample on
the next line from the pipeline, which would be taken in but for them. -/
theorem not_isOk_after_bad_line :
    let p := ofSettings {} {} Store.prompt ()
    let now : Timestamp := ⟨0, 0, by decide, by decide, by decide⟩
    let good := FeedInput.encoded plainLine
    let bad := 0xc3 :: 0x28 :: 10 :: good
    (p.feed now ⟨bad, false⟩).1.isOk = false ∧
      (p.feed now ⟨bad, false⟩).2.cache.isEmpty = true ∧
      (p.feed now ⟨good, false⟩).1 = .ok { ingested := 1 } := by
  decide +kernel

end Pipeline

end LinkQuality
