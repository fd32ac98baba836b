import LinkQuality.Proofs.Pipeline.Keyed

/-!
# All that a pipeline is used for

A statement about every state of a pipeline needs runs in which everything is done that can be
done. Most of it is there already: samples are taken in, lines of feeds are read, nodes are visited
while others act, and the pipeline is stopped (`Call`). What is left is its writer, which others may
hold as well and write records to. With that a sample may also be taken in by halves, stored first
and offered to the writer when others have acted in between.

However it is used, a pipeline is only changed in four ways. Acts are done, the writer is offered a
record, the operator is told something, and marks are set. So what survives these four survives
every use (`Lasts.afterUses`). Among it is what has to be known of a pipeline wherever it comes
from: that its cache remembers what was stored, that its writer has run as writers do, and that
minutes are written by one hook (`Arisen`).
-/

namespace LinkQuality.Pipeline

variable {σ : Type}

/-- **One use of a pipeline, or of its writer.** -/
inductive Use (σ : Type) where
  | call (c : Call σ)
  /-- A record is written past the pipeline. -/
  | write (record : Option Record)

/-- The pipeline after that. -/
def use (p : Pipeline σ) : Use σ → Pipeline σ
  | .call c => p.call c
  | .write record => { p with writer := (p.writer.write record).2 }

/-- **The pipeline after all that it is used for.** -/
def afterUses (p : Pipeline σ) (uses : List (Use σ)) : Pipeline σ := uses.foldl use p

/-! ## What lasts -/

/-- **What no part of a use undoes.** -/
structure Lasts (P : Pipeline σ → Prop) : Prop where
  act : ∀ {p : Pipeline σ} (a : Act σ), P p → P (p.act a)
  write : ∀ {p : Pipeline σ} (record : Option Record), P p →
    P { p with writer := (p.writer.write record).2 }
  tell : ∀ {p : Pipeline σ} {n : Notice}, (∀ lost, n ≠ .consumerFailed lost) → P p → P (p.tell n)
  mark : ∀ {p : Pipeline σ} (marks : NameTable Timestamp), P p → P { p with marks }

namespace Lasts

variable {P : Pipeline σ → Prop} {p : Pipeline σ}

/-- A run of acts does not undo it. -/
theorem afterActs (h : Lasts P) (acts : List (Act σ)) (hp : P p) : P (p.afterActs acts) :=
  Engages.keeps ⟨acts, rfl⟩ h.act hp

/-- Nor does a visit of a node, while others act. -/
theorem visitAmid (h : Lasts P) (meanwhile : Timestamp → List (Act σ)) (reading : Timestamp)
    (node : String) (hp : P p) : P (p.visitAmid meanwhile reading node) :=
  setMark_keeps h.mark node _ _ <|
    persistMinutesAmid_keeps (fun minute hq => h.afterActs (meanwhile minute) hq)
      (fun _ hq => h.write _ hq) h.tell _ _ _ _ hp

/-- Nor does a line of a feed. -/
theorem feedLine (h : Lasts P) (now : Timestamp) (text : List Char) (summary : FeedSummary)
    (hp : P p) : P (p.feedLine now text summary).2 :=
  feedLine_keeps (fun node probe sample hq => h.act (.ingest node probe sample) hq) h.tell now text
    summary hp

/-- **No use undoes it.** -/
theorem use (h : Lasts P) (u : Use σ) (hp : P p) : P (p.use u) := by
  cases u with
  | write record => exact h.write record hp
  | call c =>
    cases c with
    | act a => exact h.act a hp
    | visit meanwhile reading node => exact h.visitAmid meanwhile reading node hp
    | line now text => exact h.feedLine now text {} hp
    | feed now input =>
      exact feedLines_keeps (fun text summary hq => h.feedLine now text summary hq) input.lines {}
        hp
    | stop now reading => exact (engages_stop now reading p).keeps h.act hp

/-- Nor do many. -/
theorem afterUses (h : Lasts P) (uses : List (Use σ)) (hp : P p) : P (p.afterUses uses) :=
  List.foldlRecOn uses Pipeline.use hp fun _ hq u _ => h.use u hq

end Lasts

/-! ## Where a pipeline comes from -/

/-- **What the writer of a pipeline goes through is a run of a writer.** -/
theorem lasts_reaches (w : Writer σ) : Lasts fun p : Pipeline σ => w.Reaches p.writer where
  act {p} a hp := hp.trans (reaches_perform (a.deed p) p)
  write {p} record hp := hp.trans (Writer.reaches_perform (.write record) p.writer)
  tell hn hp := hp.trans (Writer.Step.announce _ hn).reaches
  mark _ hp := hp

/-- **A pipeline that has arisen from settings** by being used. -/
structure Arisen (c : CacheSettings) (s : WriterSettings) (store : Store σ) (state : σ)
    (p : Pipeline σ) : Prop where
  reaches : Writer.Reaches (.ofSettings s store state) p.writer
  exists_remembers : ∃ log, p.cache.Remembers log
  capacity_eq : p.cache.capacity = c.capacity
  archiving : c.persistAggregates = true → p.Archiving

section

variable {c : CacheSettings} {s : WriterSettings} {store : Store σ} {state : σ}

/-- A pipeline at rest has. -/
theorem arisen_ofSettings : (ofSettings c s store state).Arisen c s store state where
  reaches := .refl _
  exists_remembers :=
    ⟨[], (Cache.remembers_ofSettings c).of_nodes_eq (nodes_ofSettings c s store state)⟩
  capacity_eq := (nodes_ofSettings c s store state).2
  archiving h := by
    have hsettings : { c with persistAggregates := true } = c := by rw [← h]
    exact hsettings ▸ archiving_ofSettings c s store state

/-- **Using it does not change that.** -/
theorem lasts_arisen : Lasts (Arisen c s store state) where
  act {p} a hp := by
    obtain ⟨log, hlog⟩ := hp.exists_remembers
    obtain ⟨hremembers, hcapacity⟩ := remembers_act hlog a
    exact
      { reaches := (lasts_reaches _).act a hp.reaches
        exists_remembers := ⟨_, hremembers⟩
        capacity_eq := hcapacity.trans hp.capacity_eq
        archiving := fun h => (hp.archiving h).act a }
  write record hp :=
    { hp with
      reaches := (lasts_reaches _).write record hp.reaches
      archiving := fun h => { hp.archiving h with } }
  tell hn hp :=
    { hp with
      reaches := (lasts_reaches _).tell hn hp.reaches
      archiving := fun h => { hp.archiving h with } }
  mark _ hp := { hp with archiving := fun h => { hp.archiving h with } }

/-- So every pipeline has arisen from settings, whatever it has been used for. -/
theorem arisen_afterUses (c : CacheSettings) (s : WriterSettings) (store : Store σ) (state : σ)
    (uses : List (Use σ)) : ((ofSettings c s store state).afterUses uses).Arisen c s store state :=
  lasts_arisen.afterUses uses arisen_ofSettings

end

end LinkQuality.Pipeline
