import LinkQuality.Proofs.Pipeline.Run
import LinkQuality.Proofs.Writer.Past

/-!
# What a pipeline does is not a matter of its past

As with a writer (`Writer.withPast`), so with a pipeline: nothing that can be done with it depends
on what has happened to its writer before (`Pipeline.perform_withPast`).

What is to be said about a run often concerns some events only. `Pipeline.sift` is a pipeline that
remembers those and no others. As the past makes no difference, two pipelines that are equal but for
events that are not remembered are so after every run (`sift_after_congr`), and give the same answer
to whoever has a sample taken in (`ingest_congr`).
-/

namespace LinkQuality

namespace Pipeline

variable {σ : Type}

/-- **A pipeline with more behind it**: its writer is one with more behind it. -/
def withPast (past : List WriterEvent) (p : Pipeline σ) : Pipeline σ :=
  { p with writer := p.writer.withPast past }

variable (past : List WriterEvent) (p : Pipeline σ)

/-- A sample is taken in or refused as it would be. -/
theorem ingest_withPast (node probe : String) (sample : Sample) :
    (p.withPast past).ingest node probe sample
      = (p.ingest node probe sample).map id (withPast past) := by
  have hcache : (p.withPast past).cache = p.cache := rfl
  have hwriter : (p.withPast past).writer = p.writer.withPast past := rfl
  simp only [ingest, hcache, hwriter, Writer.write_withPast]
  rcases p.cache.store node (some sample) with ⟨_ | _, cache⟩
  · rfl
  · rcases p.writer.write (some (.ofSample node probe sample)) with ⟨_ | _, writer⟩ <;> rfl

/-- The same minutes are written. -/
theorem persistMinutes_withPast (node : String) (current : Timestamp) (mark : Option Timestamp)
    (summaries : List Summary) (newest : Option Timestamp) (w : Writer σ) :
    persistMinutes node current mark summaries newest (w.withPast past)
      = (persistMinutes node current mark summaries newest w).map id (Writer.withPast past) := by
  induction summaries generalizing newest w with
  | nil => rfl
  | cons s rest ih =>
    simp only [persistMinutes, Writer.write_withPast]
    split
    · rcases w.write (some (.ofSummary node "" s)) with ⟨why | _, w'⟩
      · rfl
      · exact ih (some s.time) w'
    · exact ih newest w

/-- So the node has the same mark then. -/
theorem persist_withPast (reading : Timestamp) (node : String) (summaries : List Summary) :
    (p.withPast past).persist reading node summaries
      = (p.persist reading node summaries).withPast past := by
  have hmarks : (p.withPast past).marks = p.marks := rfl
  have hwriter : (p.withPast past).writer = p.writer.withPast past := rfl
  simp only [persist, hmarks, hwriter, persistMinutes_withPast]
  rcases persistMinutes node reading.minute (p.marks.get? node) summaries (p.marks.get? node)
    p.writer with ⟨_ | m, writer⟩
  · rfl
  · simp only [Prod.map_apply, id, apply_ite (withPast past)]
    rfl

/-- A sweep does the same. -/
theorem sweepIn_withPast (order : List String) (reading : String → Timestamp) :
    (p.withPast past).sweepIn order reading = (p.sweepIn order reading).withPast past := by
  have hvisits : Sweep.visits cache (react reading) order (p.withPast past)
      = (Sweep.visits cache (react reading) order p).withPast past := by
    refine Sweep.visits_hom (f := withPast past) (fun _ => rfl) (fun hook node summaries q => ?_)
      order p
    unfold react
    split
    · exact persist_withPast past q (reading node) node summaries
    · rfl
  simp only [sweepIn, hvisits]
  rfl

/-- **Every deed has the same effect** whatever is behind the pipeline. -/
theorem perform_withPast (d : Deed σ) :
    (p.withPast past).perform d = (p.perform d).withPast past := by
  cases d with
  | ingest node probe sample => exact congrArg Prod.snd (ingest_withPast past p node probe sample)
  | sweep order reading => exact sweepIn_withPast past p order reading
  | tend cache => rfl
  | move m => simp only [perform, withPast, Writer.move_withPast]

/-! ## Remembering less -/

/-- **A pipeline that remembers certain events only.** -/
def sift (keep : WriterEvent → Bool) (p : Pipeline σ) : Pipeline σ :=
  { p with writer := { p.writer with history := p.writer.history.filter keep } }

/-- A pipeline with nothing behind it. -/
def afresh (p : Pipeline σ) : Pipeline σ := { p with writer := { p.writer with history := [] } }

variable (keep : WriterEvent → Bool)

/-- A pipeline is what it would be afresh, with its past behind it. -/
theorem afresh_withPast : p.afresh.withPast p.writer.history = p := rfl

/-- If it remembers less, it has less behind it. -/
theorem afresh_withPast_filter :
    p.afresh.withPast (p.writer.history.filter keep) = p.sift keep := rfl

/-- What is behind a pipeline is remembered apart from what comes after it. -/
theorem sift_withPast :
    (p.withPast past).sift keep = (p.sift keep).withPast (past.filter keep) := by
  simp only [sift, withPast, Writer.withPast, List.filter_append]

/-- **Remembering less, a pipeline does the same.** -/
theorem sift_perform (d : Deed σ) :
    ((p.sift keep).perform d).sift keep = (p.perform d).sift keep := by
  -- what is kept of the past comes out on both sides, and is kept a second time on the left
  let kept := p.writer.history.filter keep
  have hkept : kept.filter keep = kept := by simp only [kept, List.filter_filter, Bool.and_self]
  calc ((p.sift keep).perform d).sift keep
      = ((p.afresh.withPast kept).perform d).sift keep := by rw [afresh_withPast_filter]
    _ = ((p.afresh.perform d).sift keep).withPast kept := by
      rw [perform_withPast, sift_withPast, hkept]
    _ = ((p.afresh.withPast p.writer.history).perform d).sift keep := by
      rw [perform_withPast, sift_withPast]
    _ = (p.perform d).sift keep := by rw [afresh_withPast]

/-- And gives the same answer. -/
theorem ingest_sift (node probe : String) (sample : Sample) :
    ((p.sift keep).ingest node probe sample).1 = (p.ingest node probe sample).1 := by
  calc ((p.sift keep).ingest node probe sample).1
      = (p.afresh.ingest node probe sample).1 := by
        rw [← afresh_withPast_filter, ingest_withPast]
        rfl
    _ = ((p.afresh.withPast p.writer.history).ingest node probe sample).1 := by
        rw [ingest_withPast]
        rfl
    _ = (p.ingest node probe sample).1 := by rw [afresh_withPast]

variable {keep} {p} {q : Pipeline σ}

/-- **What is not remembered makes no difference to a deed.** -/
theorem sift_perform_congr (h : p.sift keep = q.sift keep) (d : Deed σ) :
    (p.perform d).sift keep = (q.perform d).sift keep := by
  rw [← sift_perform, h, sift_perform]

/-- **Nor does it to a run.** -/
theorem sift_after_congr (h : p.sift keep = q.sift keep) (deeds : List (Deed σ)) :
    (p.after deeds).sift keep = (q.after deeds).sift keep := by
  induction deeds generalizing p q with
  | nil => exact h
  | cons d deeds ih => exact ih (sift_perform_congr h d)

/-- **Nor to the answer**, when a sample is to be taken in. -/
theorem ingest_congr (h : p.sift keep = q.sift keep) (node probe : String) (sample : Sample) :
    (p.ingest node probe sample).1 = (q.ingest node probe sample).1 := by
  rw [← ingest_sift p keep, h, ingest_sift]

end Pipeline

end LinkQuality
