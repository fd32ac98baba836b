import LinkQuality.Proofs.Pipeline.Run

/-!
# Runs in which the cache is only used

A run as such may put any other cache in the place of the one a pipeline has. What is written of a
minute depends on what the cache holds, and whether it is written on who is told of the visits. So
here the cache is only used: samples are stored in it, by the pipeline or past it, and whatever else
is done with it stores nothing and brings in nobody who writes minutes (`Cache.Tended`).

Such a run is a list of acts (`Pipeline.afterActs`). Each of them is a deed, so what holds of runs
as such holds of these (`afterActs_eq`); beside that there is a chronicle of what a run of acts has
stored, and the cache remembers it (`remembers_afterActs`). Starting, stopping and running a
pipeline on a clock are runs of acts (`engages_start`, `engages_stop`, `PipelineRun.engages_run`).
-/

namespace LinkQuality

/-! ## Who writes minutes -/

namespace Cache

/-- **One hook writes minutes**, the one registered first. -/
def Staffed (c : Cache) : Prop :=
  ∃ archivist others, c.hooks = archivist :: others ∧ archivist.role = .archivist ∧
    ∀ hook ∈ others, hook.role ≠ .archivist

/-- Using a cache leaves it at that. -/
theorem Staffed.of_tended {c c' : Cache} (hc : c.Staffed) (h : Tended c c') : c'.Staffed := by
  obtain ⟨archivist, others, hhooks, hrole, hothers⟩ := hc
  obtain ⟨more, hmore, hall⟩ := h.exists_hooks_eq
  refine ⟨archivist, others ++ more, ?_, hrole, List.forall_mem_append.mpr ⟨hothers, hall⟩⟩
  rw [hmore, hhooks, List.cons_append]

end Cache

namespace Pipeline

variable {σ : Type}

/-! ## Acts -/

/-- **A use of the cache** of a pipeline. -/
structure Chore where
  run : Cache → Cache
  tended_run : ∀ c, Cache.Tended c (run c)

/-- **One thing that is done with a pipeline**, its cache being only used. -/
inductive Act (σ : Type) where
  | ingest (node probe : String) (sample : Sample)
  /-- A sample is stored past the pipeline. -/
  | store (node : String) (sample : Option Sample)
  | sweep (order : List String) (reading : String → Timestamp)
  | tend (chore : Chore)
  /-- The writer is moved on. -/
  | move (m : Writer.Move σ)

/-- The deed that an act is. -/
def Act.deed (p : Pipeline σ) : Act σ → Deed σ
  | .ingest node probe sample => .ingest node probe sample
  | .store node sample => .tend (p.cache.store node sample).2
  | .sweep order reading => .sweep order reading
  | .tend chore => .tend (chore.run p.cache)
  | .move m => .move m

/-- The pipeline after an act. -/
def act (p : Pipeline σ) (a : Act σ) : Pipeline σ := p.perform (a.deed p)

/-- **The pipeline after a run of acts.** -/
def afterActs (p : Pipeline σ) (acts : List (Act σ)) : Pipeline σ := acts.foldl act p

/-- The deeds that a run of acts is. -/
def deeds : Pipeline σ → List (Act σ) → List (Deed σ)
  | _, [] => []
  | p, a :: acts => a.deed p :: (p.act a).deeds acts

/-- **A run of acts is a run.** -/
theorem afterActs_eq (p : Pipeline σ) (acts : List (Act σ)) :
    p.afterActs acts = p.after (p.deeds acts) := by
  induction acts generalizing p with
  | nil => rfl
  | cons a acts ih => exact ih (p.act a)

/-- One more act follows the run before it. -/
theorem afterActs_concat (p : Pipeline σ) (acts : List (Act σ)) (a : Act σ) :
    p.afterActs (acts ++ [a]) = (p.afterActs acts).act a := by
  rw [afterActs, List.foldl_append]
  rfl

/-- What an act stores. -/
def stored (p : Pipeline σ) : Act σ → Chronicle
  | .ingest node _ sample => p.cache.entries node (some sample)
  | .store node sample => p.cache.entries node sample
  | .sweep .. | .tend _ | .move _ => []

/-- **The chronicle of a run**: the samples that the cache has said it took, in order. -/
def chronicle : Pipeline σ → List (Act σ) → Chronicle
  | _, [] => []
  | p, a :: acts => p.stored a ++ (p.act a).chronicle acts

/-! ### What acts do to the cache -/

/-- **A sweep uses the cache.** -/
theorem tended_sweepIn (order : List String) (reading : String → Timestamp) (p : Pipeline σ) :
    let q := p.sweepIn order reading
    Cache.Tended p.cache q.cache ∧ q.persists = p.persists := by
  let P : Pipeline σ → Prop := fun q => Cache.Tended p.cache q.cache ∧ q.persists = p.persists
  refine sweepIn_keeps (P := P) (fun {q} node _ hq => ?_)
    (fun htended hq => ⟨hq.1.trans htended, hq.2⟩) order ⟨.refl p.cache, rfl⟩
  obtain ⟨hcache, hpersists, -⟩ := persist_parts (reading node) node (q.cache.summaries node) q
  exact ⟨hcache.symm ▸ hq.1, hpersists.trans hq.2⟩

/-- **An act is remembered for what it stores**, and does not change how much there is room
for. -/
theorem remembers_act {p : Pipeline σ} {log : Chronicle} (hp : p.cache.Remembers log)
    (a : Act σ) :
    (p.act a).cache.Remembers (log ++ p.stored a) ∧
      (p.act a).cache.capacity = p.cache.capacity := by
  have htended : ∀ {c : Cache}, Cache.Tended p.cache c →
      c.Remembers (log ++ []) ∧ c.capacity = p.cache.capacity := by
    intro c h
    rw [List.append_nil]
    exact ⟨hp.of_nodes_eq ⟨h.nodes_eq, h.capacity_eq⟩, h.capacity_eq⟩
  cases a with
  | ingest node probe sample =>
    have hcache : (p.act (.ingest node probe sample)).cache =
      (p.cache.store node (some sample)).2 := (ingest_parts node probe sample p).1
    rw [hcache]
    exact ⟨hp.store node (some sample), p.cache.capacity_store node (some sample)⟩
  | store node sample => exact ⟨hp.store node sample, p.cache.capacity_store node sample⟩
  | sweep order reading => exact htended (p.tended_sweepIn order reading).1
  | tend chore => exact htended (chore.tended_run p.cache)
  | move m => exact htended (.refl p.cache)

/-- **A run of acts is remembered for what it stores.** -/
theorem remembers_afterActs {p : Pipeline σ} {log : Chronicle} (hp : p.cache.Remembers log)
    (acts : List (Act σ)) :
    (p.afterActs acts).cache.Remembers (log ++ p.chronicle acts) ∧
      (p.afterActs acts).cache.capacity = p.cache.capacity := by
  induction acts generalizing p log with
  | nil =>
    rw [chronicle, List.append_nil]
    exact ⟨hp, rfl⟩
  | cons a acts ih =>
    obtain ⟨hact, hcapacity⟩ := remembers_act hp a
    obtain ⟨hacts, hcapacity'⟩ := ih hact
    rw [chronicle, ← List.append_assoc]
    exact ⟨hacts, hcapacity'.trans hcapacity⟩

/-- The cache of a pipeline at rest has the room that was asked for, and nothing in it. -/
theorem nodes_ofSettings (c : CacheSettings) (s : WriterSettings) (store : Store σ) (state : σ) :
    (ofSettings c s store state).cache.nodes = (Cache.ofSettings c).nodes ∧
      (ofSettings c s store state).cache.capacity = (Cache.ofSettings c).capacity := by
  unfold ofSettings
  dsimp only
  split <;> exact ⟨rfl, rfl⟩

/-- **The cache of a pipeline recalls what a run of acts has stored**, and nothing else. -/
theorem recalls_afterActs (c : CacheSettings) (s : WriterSettings) (store : Store σ) (state : σ)
    (acts : List (Act σ)) :
    ((ofSettings c s store state).afterActs acts).cache.Recalls (max c.capacity 1)
      ((ofSettings c s store state).chronicle acts) := by
  have hrest := nodes_ofSettings c s store state
  obtain ⟨hremembers, hcapacity⟩ :=
    remembers_afterActs ((Cache.remembers_ofSettings c).of_nodes_eq hrest) acts
  have hrecalls := hremembers.recalls
  rw [hcapacity, hrest.2] at hrecalls
  exact hrecalls

/-- **A pipeline that keeps minutes**: one hook writes them, and a stop does a last sweep. -/
structure Archiving (p : Pipeline σ) : Prop where
  persists_eq : p.persists = true
  staffed : p.cache.Staffed

/-- A pipeline at rest keeps minutes, if that was asked for. -/
theorem archiving_ofSettings (c : CacheSettings) (s : WriterSettings) (store : Store σ)
    (state : σ) : (ofSettings { c with persistAggregates := true } s store state).Archiving :=
  ⟨rfl, _, [], rfl, rfl, fun _ h => absurd h List.not_mem_nil⟩

/-- **No act changes who writes minutes.** -/
theorem Archiving.act {p : Pipeline σ} (a : Act σ) (hp : p.Archiving) : (p.act a).Archiving := by
  cases a with
  | ingest node probe sample =>
    obtain ⟨hcache, hpersists, -⟩ := ingest_parts node probe sample p
    refine ⟨hpersists.trans hp.persists_eq, ?_⟩
    show (p.ingest node probe sample).2.cache.Staffed
    rw [hcache, Cache.Staffed, Cache.hooks_store]
    exact hp.staffed
  | store node sample =>
    refine ⟨hp.persists_eq, ?_⟩
    show (p.cache.store node sample).2.Staffed
    rw [Cache.Staffed, Cache.hooks_store]
    exact hp.staffed
  | sweep order reading =>
    obtain ⟨htended, hpersists⟩ := p.tended_sweepIn order reading
    exact ⟨hpersists.trans hp.persists_eq, hp.staffed.of_tended htended⟩
  | tend chore => exact ⟨hp.persists_eq, hp.staffed.of_tended (chore.tended_run p.cache)⟩
  | move m => exact { hp with }

/-! ## Start and stop -/

/-- By acts a pipeline can become another one. -/
def Engages (p q : Pipeline σ) : Prop := ∃ acts, q = p.afterActs acts

theorem Engages.refl (p : Pipeline σ) : Engages p p := ⟨[], rfl⟩

theorem Engages.trans {p q r : Pipeline σ} (h₁ : Engages p q) (h₂ : Engages q r) :
    Engages p r := by
  obtain ⟨acts, rfl⟩ := h₁
  obtain ⟨later, rfl⟩ := h₂
  exact ⟨acts ++ later, List.foldl_append.symm⟩

theorem engages_act (a : Act σ) (p : Pipeline σ) : Engages p (p.act a) := ⟨[a], rfl⟩

/-- What comes of acts comes of deeds. -/
theorem Engages.exists_deeds {p q : Pipeline σ} (h : Engages p q) : ∃ deeds, q = p.after deeds := by
  obtain ⟨acts, rfl⟩ := h
  exact ⟨p.deeds acts, afterActs_eq p acts⟩

/-- **What each act keeps, every run of acts keeps.** -/
theorem Engages.keeps {P : Pipeline σ → Prop} {p q : Pipeline σ} (h : Engages p q)
    (hP : ∀ {p : Pipeline σ} (a : Act σ), P p → P (p.act a)) (hp : P p) : P q := by
  obtain ⟨acts, rfl⟩ := h
  exact List.foldlRecOn acts act hp fun _ hq a _ => hP a hq

/-- Moving the writer on moves the pipeline on. -/
theorem engages_moves (moves : List (Writer.Move σ)) (p : Pipeline σ) :
    Engages p { p with writer := p.writer.afterMoves moves } := by
  induction moves generalizing p with
  | nil => exact .refl p
  | cons m moves ih => exact (engages_act (.move m) p).trans (ih (p.act (.move m)))

/-- Using the cache is an act. -/
theorem engages_tend (chore : Chore) (p : Pipeline σ) :
    Engages p { p with cache := chore.run p.cache } :=
  engages_act (.tend chore) p

/-- A sweep with one reading of the clock is an act. -/
theorem engages_sweep (reading : Timestamp) (p : Pipeline σ) : Engages p (p.sweep reading).2 :=
  engages_act (.sweep p.cache.nodeNames fun _ => reading) p

/-- **A start is a run of acts.** -/
theorem engages_start (p : Pipeline σ) : Engages p p.start :=
  (engages_tend ⟨Cache.start, Cache.tended_start⟩ p).trans (engages_act (.move .start) _)

/-- So is running the writer for a while. -/
theorem engages_writer_run (now span : Nat) (p : Pipeline σ) :
    Engages p { p with writer := p.writer.run now span } := by
  obtain ⟨moves, h⟩ := p.writer.exists_run_eq now span
  rw [h]
  exact engages_moves moves p

/-- So is stopping the writer. -/
theorem engages_writer_stop (now : Nat) (p : Pipeline σ) :
    Engages p { p with writer := (p.writer.stop now).2 } := by
  obtain ⟨moves, h⟩ := p.writer.exists_stop_eq now
  rw [h]
  exact engages_moves moves p

/-- **A pipeline about to be swept for the last time** in a stop at time `now`: the background
sweep has ended, and the consumer may have done meanwhile what it had at hand. -/
def beforeLastSweep (now : Nat) (p : Pipeline σ) : Pipeline σ :=
  let q := { p with cache := p.cache.stop }
  if p.cache.sweeper ≠ .absent then { q with writer := q.writer.run now 0 } else q

theorem engages_beforeLastSweep (now : Nat) (p : Pipeline σ) :
    Engages p (p.beforeLastSweep now) := by
  refine (engages_tend ⟨Cache.stop, Cache.tended_stop⟩ p).trans ?_
  unfold beforeLastSweep
  dsimp only
  split
  · exact engages_writer_run now 0 _
  · exact .refl _

/-- **A stop is a run of acts**: the background sweep ends, the writer may go on, there is a last
sweep, and the writer is stopped. -/
theorem engages_stop (now : Nat) (reading : Timestamp) (p : Pipeline σ) :
    Engages p (p.stop now reading).2 := by
  have hstop : (p.stop now reading).2 =
      let q := p.beforeLastSweep now
      let r := if q.persists then (q.sweep reading).2 else q
      { r with writer := (r.writer.stop now).2 } := rfl
  rw [hstop]
  refine (engages_beforeLastSweep now p).trans (.trans ?_ (engages_writer_stop now _))
  split
  · exact engages_sweep reading _
  · exact .refl _

end Pipeline

/-! ## Running on a clock -/

namespace PipelineRun

open Pipeline (Engages engages_tend engages_sweep engages_writer_run)

variable {σ : Type}

/-- A turn is a run of acts: a sweep, or what the writer can do at once. -/
theorem engages_turn? {reading : Timestamp} {r r' : PipelineRun σ}
    (h : r.turn? reading = some r') : Engages r.pipeline r'.pipeline := by
  unfold turn? at h
  dsimp only at h
  split at h
  · obtain rfl := Option.some.inj h
    unfold sweepTurn
    dsimp only
    refine .trans ?_ (engages_tend ⟨Cache.rearm r.now, Cache.tended_rearm r.now⟩ _)
    split
    · exact engages_sweep reading r.pipeline
    · exact .refl r.pipeline
  · split at h
    · obtain rfl := Option.some.inj h
      exact engages_writer_run r.now 0 r.pipeline
    · exact absurd h nofun

theorem engages_drive (reading : Timestamp) (limit fuel : Nat) (r : PipelineRun σ) :
    Engages r.pipeline (drive reading limit fuel r).pipeline := by
  induction fuel generalizing r with
  | zero => exact .refl r.pipeline
  | succ fuel ih =>
    rw [drive]
    split
    next r' h => exact (engages_turn? h).trans (ih r')
    next =>
      split
      next t _ =>
        split
        · exact ih { r with now := t }
        · exact .refl r.pipeline
      · exact .refl r.pipeline

/-- **Running a pipeline on a clock is a run of acts.** -/
theorem engages_run (reading : Timestamp) (span : Nat) (r : PipelineRun σ) :
    Engages r.pipeline (r.run reading span).pipeline :=
  engages_drive reading _ _ r

theorem engages_stop (reading : Timestamp) (r : PipelineRun σ) :
    Engages r.pipeline (r.stop reading).pipeline :=
  Pipeline.engages_stop r.now reading r.pipeline

end PipelineRun

end LinkQuality
