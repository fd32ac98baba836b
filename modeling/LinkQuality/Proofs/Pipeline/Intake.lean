import LinkQuality.Proofs.Cache.Accounts
import LinkQuality.Proofs.Pipeline.Use
import LinkQuality.Proofs.Pipeline.Workers
import LinkQuality.Proofs.Writer.Admission

/-!
# Taking in a sample

A sample goes two ways, and on each of them it may be turned away. The cache is asked first, and
what it refuses comes no further: nothing has been done with it. What the cache has taken is offered
to the writer, once, and if that turns it away the cache keeps what it has. So there is one case in
which a sample is taken in by half, and whoever brought it is told so, and why
(`Pipeline.TakesIn`).

Each half is all or nothing because of what is known of its part. That a store is a push to one
history takes a cache that remembers what was stored (`Cache.Remembers.stored`), and that a write
which is turned away leaves nothing but a count takes a writer that runs can come to
(`Writer.admits_of_reaches`). Both are had in every state of a pipeline, whatever it has been used
for. After a stop each sample is taken in by half, for the cache goes on and the writer does not
(`closed_of_stopped`).
-/

namespace LinkQuality.Pipeline

variable {σ : Type}

/-! ## Two halves -/

/-- **A sample that the cache refuses goes no further**, whatever the state of the pipeline. -/
theorem ingest_of_refused {p : Pipeline σ} {node : String} {sample : Sample} {why : SampleRefusal}
    (h : (p.cache.store node (some sample)).1 = .error why) (probe : String) :
    p.ingest node probe sample = (.error (.cache why), p) := by
  have hsame := Cache.store_of_error h
  rw [ingest]
  generalize p.cache.store node (some sample) = result at h hsame ⊢
  obtain ⟨answer, cache⟩ := result
  obtain rfl : answer = .error why := h
  obtain rfl : cache = p.cache := hsame
  rfl

/-- **Any other goes on to the writer**, which has the last word. -/
theorem ingest_of_stored {p : Pipeline σ} {node : String} {sample : Sample}
    (h : (p.cache.store node (some sample)).1 = .ok ()) (probe : String) :
    let written := p.writer.write (some (.ofSample node probe sample))
    p.ingest node probe sample = (written.1.mapError .writer,
      { p with cache := (p.cache.store node (some sample)).2, writer := written.2 }) := by
  rw [ingest]
  generalize p.cache.store node (some sample) = result at h ⊢
  obtain ⟨answer, cache⟩ := result
  obtain rfl : answer = .ok () := h
  dsimp only
  rcases p.writer.write (some (.ofSample node probe sample)) with ⟨_ | _, writer⟩ <;> rfl

/-! ## What comes of a sample -/

/-- **What comes of a sample** that is brought to a pipeline. -/
structure TakesIn (node probe : String) (sample : Sample) (p : Pipeline σ) : Prop where
  /-- The cache refuses samples of no node, and no others. -/
  store_fst : (p.cache.store node (some sample)).1 =
    if node = "" then .error .emptyNode else .ok ()
  /-- A sample that the cache refuses comes to nothing. -/
  of_refused : ∀ why, (p.cache.store node (some sample)).1 = .error why →
    p.ingest node probe sample = (.error (.cache why), p)
  /-- Any other is stored in the history of its node. -/
  stored : (p.cache.store node (some sample)).1 = .ok () →
    Cache.Stored node sample p.cache (p.ingest node probe sample).2.cache
  /-- And it is offered to the writer once, as it is. -/
  written : (p.cache.store node (some sample)).1 = .ok () →
    let record : Record :=
      { node, probe, time := sample.time, latency := sample.latency, loss := sample.loss,
        jitter := sample.jitter, aggregated := false }
    p.ingest node probe sample = ((p.writer.write (some record)).1.mapError .writer,
      { p with
        cache := (p.ingest node probe sample).2.cache
        writer := (p.writer.write (some record)).2 })
  /-- If the writer turns it away, it is counted there and nowhere else. -/
  turnsAway : ∀ why, (p.ingest node probe sample).1 = .error (.writer why) →
    p.writer.TurnsAway why (p.ingest node probe sample).2.writer
  /-- All is well if neither of them refuses it. -/
  answer_eq_ok_iff : (p.ingest node probe sample).1 = .ok () ↔
    (p.cache.store node (some sample)).1 = .ok () ∧
      (p.writer.write (some (.ofSample node probe sample))).1 = .ok ()

/-- **So it is in every pipeline that has arisen from settings.** -/
theorem Arisen.takesIn {c : CacheSettings} {s : WriterSettings} {store : Store σ} {state : σ}
    {p : Pipeline σ} (hp : p.Arisen c s store state) (node probe : String) (sample : Sample) :
    p.TakesIn node probe sample := by
  have hfst : (p.cache.store node (some sample)).1 =
      if node = "" then .error .emptyNode else .ok () := by
    rw [Cache.store_fst, if_neg (Option.some_ne_none sample)]
  by_cases hnode : node = ""
  · have hstore := hfst.trans (if_pos hnode)
    have hnot : (p.cache.store node (some sample)).1 ≠ .ok () := by
      rw [hstore]
      exact nofun
    have hanswer : (p.ingest node probe sample).1 = .error (.cache .emptyNode) := by
      rw [ingest_of_refused hstore]
    exact
      { store_fst := hfst
        of_refused := fun why h => ingest_of_refused h probe
        stored := fun h => absurd h hnot
        written := fun h => absurd h hnot
        turnsAway := fun why h => absurd (hanswer.symm.trans h) nofun
        answer_eq_ok_iff :=
          iff_of_false (fun h => absurd (hanswer.symm.trans h) nofun) fun h => hnot h.1 }
  · have hstore := hfst.trans (if_neg hnode)
    have hingest := ingest_of_stored hstore probe
    -- the answer is that of the write
    have hanswer : (∀ why, (p.ingest node probe sample).1 = .error (.writer why) →
          (p.writer.write (some (.ofSample node probe sample))).1 = .error why) ∧
        ((p.ingest node probe sample).1 = .ok () ↔
          (p.writer.write (some (.ofSample node probe sample))).1 = .ok ()) := by
      rw [hingest]
      dsimp only
      cases (p.writer.write (some (.ofSample node probe sample))).1 with
      | error other => exact ⟨fun why h => by cases h; rfl, nofun, nofun⟩
      | ok => exact ⟨nofun, fun _ => rfl, fun _ => rfl⟩
    obtain ⟨log, hlog⟩ := hp.exists_remembers
    have hadmits := Writer.admits_of_reaches hp.reaches
    exact
      { store_fst := hfst
        of_refused := fun why h => absurd (hstore.symm.trans h) nofun
        stored := fun _ => by
          rw [hingest]
          exact hlog.stored hnode sample
        written := fun _ => by
          rw [hingest]
          rfl
        turnsAway := fun why h => by
          rw [hingest]
          exact hadmits.turnsAway _ why (hanswer.1 why h)
        answer_eq_ok_iff := hanswer.2.trans ⟨fun h => ⟨hstore, h⟩, And.right⟩ }

/-! ## After a stop -/

/-- A stop closes the writer. -/
theorem closed_stop (now : Nat) (reading : Timestamp) (p : Pipeline σ) :
    (p.stop now reading).2.writer.closed = true :=
  Writer.closed_stop now _

/-- **After a stop the writer is closed**, whatever else is done. -/
theorem closed_of_stopped {uses : List (Use σ)} {now : Nat} {reading : Timestamp}
    (h : .call (.stop now reading) ∈ uses) (p : Pipeline σ) :
    (p.afterUses uses).writer.closed = true := by
  refine foldl_of_mem (P := fun q : Pipeline σ => q.writer.closed = true) (fun q u hq => ?_) h
    (closed_stop now reading) p
  exact ((lasts_reaches q.writer).use u (.refl _)).keeps (P := (Writer.closed · = true))
    Writer.closed_of_step hq

/-! ## All of it, or half of it -/

/-- **A sample is taken in as a whole, by half, or not at all**, and whoever brought it is told
which, in every state that a pipeline can come to:

* One that the cache refuses leaves the pipeline as it is.
* Any other is stored, in the room that was asked for, and written once. If the writer turns it away
  it stays stored, and a count of the writer is all else that changes.
* The answer is good exactly if it has been stored and written.

After a stop, each sample of a node is still stored, and the writer is closed to it. -/
theorem takesIn_afterUses (c : CacheSettings) (s : WriterSettings) (store : Store σ) (state : σ)
    (uses : List (Use σ)) :
    let p := (ofSettings c s store state).afterUses uses
    p.cache.capacity = c.capacity ∧ (∀ node probe sample, p.TakesIn node probe sample) ∧
      ∀ now reading, .call (.stop now reading) ∈ uses →
        ∀ node probe sample, node ≠ "" →
          (p.ingest node probe sample).1 = .error (.writer .closed) ∧
            Cache.Stored node sample p.cache (p.ingest node probe sample).2.cache := by
  intro p
  have hp : p.Arisen c s store state := arisen_afterUses c s store state uses
  refine ⟨hp.capacity_eq, hp.takesIn, fun now reading hstop node probe sample hnode => ?_⟩
  have hstored : (p.cache.store node (some sample)).1 = .ok () :=
    (hp.takesIn node probe sample).store_fst.trans (if_neg hnode)
  have hclosed : p.writer.closed = true := closed_of_stopped hstop _
  refine ⟨?_, (hp.takesIn node probe sample).stored hstored⟩
  rw [ingest_of_stored hstored]
  dsimp only
  rw [Writer.write_fst, if_pos hclosed]
  rfl

/-- A queue for one record, and two samples: the second one is taken in by half, and so is a third
one after a stop. -/
example :
    let sample : Sample := ⟨⟨0, 0, by decide, by decide, by decide⟩, 1, 0, 0⟩
    let p := (ofSettings {} { queueCapacity := 1 } Store.prompt ()).afterUses
      [.call (.act (.ingest "a" "p" sample)), .call (.act (.ingest "a" "p" sample)),
        .call (.stop 0 sample.time), .call (.act (.ingest "a" "p" sample))]
    (p.cache.get "a").length = 3 ∧ p.writer.accepted.length = 1 ∧
      p.writer.metrics.dropped.count "queue_full" = 1 ∧
      p.writer.metrics.dropped.count "closed" = 1 := by
  decide +kernel

end LinkQuality.Pipeline
