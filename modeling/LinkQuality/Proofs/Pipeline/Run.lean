import LinkQuality.Pipeline.Run
import LinkQuality.Proofs.Cache.Sweep
import LinkQuality.Proofs.Writer.Step

/-!
# What can happen to a pipeline

A pipeline takes in samples and is swept, its cache is used and its writer moved on besides. A
run is a list of such deeds (`Pipeline.after`), in any order; a sweep is one of them, with any
order of the nodes and any reading of the clock at each. Nothing is asked of the cache that a deed
leaves behind, so what holds of every run does not depend on what the cache holds. The writer of a
pipeline is only used as a writer is, so what holds of every run of a writer holds of it
(`reaches_after`).
-/

namespace LinkQuality

/-- That a minute is deferred does not say that the consumer has failed. -/
theorem Notice.deferring_ne_consumerFailed {node : String} {minute : Timestamp}
    {why : RecordRefusal} : ∀ lost, deferring node minute why ≠ consumerFailed lost := nofun

namespace Pipeline

variable {σ : Type}

/-- **One thing that can be done with a pipeline.** -/
inductive Deed (σ : Type) where
  | ingest (node probe : String) (sample : Sample)
  | sweep (order : List String) (reading : String → Timestamp)
  /-- The cache is used past the pipeline, in whatever way. -/
  | tend (cache : Cache)
  /-- The writer is moved on. -/
  | move (m : Writer.Move σ)

/-- The pipeline after a deed. -/
def perform (p : Pipeline σ) : Deed σ → Pipeline σ
  | .ingest node probe sample => (p.ingest node probe sample).2
  | .sweep order reading => p.sweepIn order reading
  | .tend cache => { p with cache }
  | .move m => { p with writer := p.writer.move m }

/-- **The pipeline after a run.** -/
def after (p : Pipeline σ) (deeds : List (Deed σ)) : Pipeline σ := deeds.foldl perform p

/-! ## Taking a sample in -/

/-- **What taking a sample in does** to the parts of a pipeline: the cache stores it, and unless it
is refused there the writer is offered the record of it. -/
theorem ingest_parts (node probe : String) (sample : Sample) (p : Pipeline σ) :
    let q := (p.ingest node probe sample).2
    q.cache = (p.cache.store node (some sample)).2 ∧ q.persists = p.persists ∧
      q.marks = p.marks ∧
      (q.writer = p.writer ∨
        q.writer = (p.writer.write (some (.ofSample node probe sample))).2) := by
  unfold ingest
  rcases p.cache.store node (some sample) with ⟨_ | _, cache⟩
  · exact ⟨rfl, rfl, rfl, .inl rfl⟩
  · rcases p.writer.write (some (.ofSample node probe sample)) with ⟨_ | _, writer⟩ <;>
      exact ⟨rfl, rfl, rfl, .inr rfl⟩

/-! ## Sweeping -/

/-- **What writing minutes does** to the parts of a pipeline: the cache is left, and the writer is
the one that the minutes were written to. -/
theorem persist_parts (reading : Timestamp) (node : String) (summaries : List Summary)
    (p : Pipeline σ) :
    (p.persist reading node summaries).cache = p.cache ∧
      (p.persist reading node summaries).persists = p.persists ∧
      (p.persist reading node summaries).writer =
        (persistMinutes node reading.minute (p.marks.get? node) summaries (p.marks.get? node)
          p.writer).2 := by
  unfold persist
  dsimp only
  split
  · split <;> exact ⟨rfl, rfl, rfl⟩
  · exact ⟨rfl, rfl, rfl⟩

/-- **What each visit keeps, a sweep keeps.** The histories are throughout what they were when the
sweep began, and whoever is told of a visit and does not write minutes only uses the cache. -/
theorem sweepIn_keeps {P : Pipeline σ → Prop} {reading : String → Timestamp} {p : Pipeline σ}
    (hvisit : ∀ {q : Pipeline σ} node, q.cache.nodes = p.cache.nodes → P q →
      P (q.persist (reading node) node (q.cache.summaries node)))
    (htend : ∀ {q : Pipeline σ} {cache : Cache}, Cache.Tended q.cache cache → P q →
      P { q with cache })
    (order : List String) (hp : P p) : P (p.sweepIn order reading) := by
  let Q : Pipeline σ → Prop := fun q => q.cache.nodes = p.cache.nodes ∧ P q
  have hvisits : Q (Sweep.visits Pipeline.cache (react reading) order p) := by
    refine Sweep.visits_keeps (fun hook node q₀ q h₀ hq => ?_) order ⟨rfl, hp⟩
    unfold react
    split
    · -- what is told is what the node had when its visit began, and that is what it has now
      have hsame : q₀.cache.summaries node = q.cache.summaries node :=
        Cache.summaries_of_nodes_eq (h₀.1.trans hq.1.symm) node
      have hcache := (persist_parts (reading node) node (q.cache.summaries node) q).1
      rw [hsame]
      exact ⟨(congrArg Cache.nodes hcache).trans hq.1, hvisit node hq.1 hq.2⟩
    · have htended := q.cache.tended_witness hook node (q₀.cache.summaries node)
      exact ⟨htended.nodes_eq.trans hq.1, htend htended hq.2⟩
  -- what is left is to count the sweep
  exact htend (.of_hooks_eq rfl rfl rfl) hvisits.2

/-- **The hooks of a pipeline**, with `reading` on the clock at the visit of each node. Who writes
minutes leaves the cache as it is, the others take note. -/
def audience (reading : String → Timestamp) : Sweep.Audience (Pipeline σ) where
  cache := Pipeline.cache
  tell := react reading
  grows_tell hook node summaries p := by
    unfold react
    split
    · rw [(persist_parts (reading node) node summaries p).1]
      exact .refl
    · exact p.cache.grows_witness hook node summaries

/-- **A sweep of a pipeline is not affected by what its hooks do.** It finds all nodes known, and
counts itself. -/
theorem sweep_faithful {p : Pipeline σ} (h : p.cache.nodeNames.Pairwise (· < ·))
    (reading : Timestamp) :
    (audience fun _ => reading).Faithful p.cache.nodeNames p ∧
      p.sweep reading =
        ((audience fun _ => reading).search p.cache.hooks p.cache.nodeNames p).map id
          fun q => { q with cache := q.cache.countSweep } := by
  have hfaithful : (audience fun _ => reading).Faithful p.cache.nodeNames p :=
    (audience fun _ => reading).faithful_of_perm (s := p) h (.refl _)
  have hsearch : (audience fun _ => reading).search p.cache.hooks p.cache.nodeNames p =
      (p.cache.size, (audience fun _ => reading).visits p.cache.nodeNames p) :=
    hfaithful.search_eq
  refine ⟨hfaithful, ?_⟩
  rw [hsearch]
  rfl

/-! ## What becomes of the writer -/

/-- Writing minutes is a run of the writer. -/
theorem reaches_persistMinutes (node : String) (current : Timestamp) (mark : Option Timestamp)
    (summaries : List Summary) (newest : Option Timestamp) (w : Writer σ) :
    w.Reaches (persistMinutes node current mark summaries newest w).2 := by
  induction summaries generalizing newest w with
  | nil => exact .refl w
  | cons s rest ih =>
    rw [persistMinutes]
    split
    · have hreaches := Writer.reaches_perform (.write (some (.ofSummary node "" s))) w
      rcases hwrite : w.write (some (.ofSummary node "" s)) with ⟨_ | _, w'⟩
      all_goals rw [Writer.perform, hwrite] at hreaches
      · exact hreaches.trans (Writer.Step.announce _ Notice.deferring_ne_consumerFailed).reaches
      · exact hreaches.trans (ih (some s.time) w')
    · exact ih newest w

/-- A sweep is a run of the writer. -/
theorem reaches_sweepIn (order : List String) (reading : String → Timestamp) (p : Pipeline σ) :
    p.writer.Reaches (p.sweepIn order reading).writer := by
  let P : Pipeline σ → Prop := fun q => p.writer.Reaches q.writer
  refine sweepIn_keeps (P := P) (fun {q} node _ hq => hq.trans ?_) (fun _ hq => hq) order (.refl _)
  rw [(persist_parts _ _ _ q).2.2]
  exact reaches_persistMinutes ..

/-- Writing minutes does not close the writer. -/
theorem closed_persistMinutes (node : String) (current : Timestamp) (mark : Option Timestamp)
    (summaries : List Summary) (newest : Option Timestamp) (w : Writer σ) :
    (persistMinutes node current mark summaries newest w).2.closed = w.closed := by
  induction summaries generalizing newest w with
  | nil => rfl
  | cons s rest ih =>
    rw [persistMinutes]
    split
    · have hclosed := Writer.closed_perform (d := .write (some (.ofSummary node "" s))) nofun w
      rcases hwrite : w.write (some (.ofSummary node "" s)) with ⟨_ | _, w'⟩
      all_goals rw [Writer.perform, hwrite] at hclosed
      · exact hclosed
      · exact (ih (some s.time) w').trans hclosed
    · exact ih newest w

/-- Nor does a sweep. -/
theorem closed_sweepIn (order : List String) (reading : String → Timestamp) (p : Pipeline σ) :
    (p.sweepIn order reading).writer.closed = p.writer.closed := by
  let P : Pipeline σ → Prop := fun q => q.writer.closed = p.writer.closed
  refine sweepIn_keeps (P := P) (fun {q} node _ hq => .trans ?_ hq) (fun _ hq => hq) order rfl
  rw [(persist_parts _ _ _ q).2.2]
  exact closed_persistMinutes ..

/-- **Whatever is done with a pipeline is a run of its writer.** -/
theorem reaches_perform (d : Deed σ) (p : Pipeline σ) : p.writer.Reaches (p.perform d).writer := by
  cases d with
  | ingest node probe sample =>
    obtain ⟨-, -, -, hsame | hwrite⟩ := ingest_parts node probe sample p
    · rw [perform, hsame]
      exact .refl p.writer
    · rw [perform, hwrite]
      exact Writer.reaches_perform (.write (some (.ofSample node probe sample))) p.writer
  | sweep order reading => exact reaches_sweepIn order reading p
  | tend cache => exact .refl p.writer
  | move m => exact Writer.reaches_perform (.move m) p.writer

/-- So is every run. -/
theorem reaches_after (deeds : List (Deed σ)) (p : Pipeline σ) :
    p.writer.Reaches (p.after deeds).writer := by
  induction deeds generalizing p with
  | nil => exact .refl p.writer
  | cons d deeds ih => exact (reaches_perform d p).trans (ih (p.perform d))

end Pipeline

end LinkQuality
