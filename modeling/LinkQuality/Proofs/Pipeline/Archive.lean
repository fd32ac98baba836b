import LinkQuality.Proofs.Metric.Minute
import LinkQuality.Proofs.NameTable
import LinkQuality.Proofs.Pipeline.Run
import LinkQuality.Proofs.Writer.Ledger

/-!
# The archive of minutes

A pipeline that keeps minutes writes each of them at most once and in order: of two minutes of
one node that the writer accepts, the one accepted first is the earlier one. Each is a whole
minute that was over when it was written.

What carries this is the mark kept for each node. No minute accepted for the node is later than
the mark, a visit writes only minutes that are, and it writes them in ascending order, so the last
one it gets through is the new mark. Nothing is asked of the samples, of the clock or of the
order of the nodes, and the writer may turn away whatever it likes.
-/

namespace LinkQuality

namespace Pipeline

variable {σ : Type}

/-! ## One visit -/

/-- A minute is to be written if it is over and later than the mark. -/
theorem isEligible_iff {current : Timestamp} {mark : Option Timestamp} {s : Summary} :
    isEligible current mark s = true ↔ s.time < current ∧ ∀ m ∈ mark, m < s.time := by
  cases mark <;> simp [isEligible, Timestamp.not_le]

/-- **What one visit of a node has written**, with `reading` on the clock: whole minutes that are
over, in ascending order, later than the mark before and not later than the mark after. -/
structure Visit (node : String) (reading : Timestamp) (before after : Option Timestamp)
    (records : List Record) : Prop where
  node_eq : ∀ r ∈ records, r.node = node
  aggregated_eq : ∀ r ∈ records, r.aggregated = true
  minute_eq : ∀ r ∈ records, r.time.minute = r.time
  lt_reading : ∀ r ∈ records, r.time < reading.minute
  ascending : records.Pairwise (·.time < ·.time)
  before_lt : ∀ r ∈ records, ∀ m ∈ before, m < r.time
  le_after : ∀ r ∈ records, ∃ m ∈ after, r.time ≤ m
  before_le : ∀ m ∈ before, ∃ m' ∈ after, m ≤ m'

/-- A visit that writes nothing leaves the mark. -/
theorem Visit.nil (node : String) (reading : Timestamp) (mark : Option Timestamp) :
    Visit node reading mark mark [] where
  node_eq _ h := absurd h List.not_mem_nil
  aggregated_eq _ h := absurd h List.not_mem_nil
  minute_eq _ h := absurd h List.not_mem_nil
  lt_reading _ h := absurd h List.not_mem_nil
  ascending := List.Pairwise.nil
  before_lt _ h := absurd h List.not_mem_nil
  le_after _ h := absurd h List.not_mem_nil
  before_le m h := ⟨m, h, m.le_refl⟩

/-- A visit that goes on after a minute has been written, with that as the mark. -/
theorem Visit.cons {node : String} {reading : Timestamp} {before after : Option Timestamp}
    {records : List Record} {s : Summary} (hv : Visit node reading (some s.time) after records)
    (hm : s.time.minute = s.time) (hr : s.time < reading.minute)
    (hb : ∀ m ∈ before, m < s.time) :
    Visit node reading before after (.ofSummary node "" s :: records) where
  node_eq := List.forall_mem_cons.mpr ⟨rfl, hv.node_eq⟩
  aggregated_eq := List.forall_mem_cons.mpr ⟨rfl, hv.aggregated_eq⟩
  minute_eq := List.forall_mem_cons.mpr ⟨hm, hv.minute_eq⟩
  lt_reading := List.forall_mem_cons.mpr ⟨hr, hv.lt_reading⟩
  ascending := List.pairwise_cons.mpr ⟨fun r hr => hv.before_lt r hr s.time rfl, hv.ascending⟩
  before_lt := List.forall_mem_cons.mpr ⟨hb, fun r hr m hm =>
    Timestamp.lt_trans (hb m hm) (hv.before_lt r hr s.time rfl)⟩
  le_after := List.forall_mem_cons.mpr ⟨hv.before_le s.time rfl, hv.le_after⟩
  before_le m hm := by
    obtain ⟨m', hm', hle⟩ := hv.before_le s.time rfl
    exact ⟨m', hm', Timestamp.le_of_lt (Timestamp.lt_of_lt_of_le (hb m hm) hle)⟩

/-- **Writing the minutes of a node in ascending order makes a visit.** The mark that decides
which are eligible stays fixed meanwhile; as the minutes ascend, those that follow are later than
the last one written too. -/
theorem visit_persistMinutes (node : String) (reading : Timestamp) (mark : Option Timestamp)
    {summaries : List Summary} (newest : Option Timestamp) {w : Writer σ} (hw : w.Sound)
    (hs : summaries.Pairwise (·.time < ·.time)) (hm : ∀ s ∈ summaries, s.time.minute = s.time)
    (hn : ∀ s ∈ summaries, isEligible reading.minute mark s = true → ∀ m ∈ newest, m < s.time) :
    let result := persistMinutes node reading.minute mark summaries newest w
    result.2.Sound ∧ ∃ records, result.2.accepted = w.accepted ++ records ∧
      Visit node reading newest result.1 records := by
  induction summaries generalizing newest w with
  | nil => exact ⟨hw, [], (List.append_nil _).symm, .nil node reading newest⟩
  | cons s rest ih =>
    obtain ⟨hfirst, hrest⟩ := List.pairwise_cons.mp hs
    obtain ⟨hminute, hminutes⟩ := List.forall_mem_cons.mp hm
    obtain ⟨hnewest, hnewests⟩ := List.forall_mem_cons.mp hn
    dsimp only
    rw [persistMinutes]
    split
    next heligible =>
      rcases hwrite : w.write (some (.ofSummary node "" s)) with ⟨_ | _, w'⟩
      · obtain ⟨hsound, haccepted⟩ := Writer.accepted_write hw hwrite
        exact ⟨hsound.step (.announce _ Notice.deferring_ne_consumerFailed), [], haccepted, .nil ..⟩
      · obtain ⟨hsound, haccepted⟩ := Writer.accepted_write hw hwrite
        obtain ⟨hsound', records, haccepted', hvisit⟩ := ih (some s.time) hsound hrest hminutes
          fun t ht _ m hm => Option.mem_some.mp hm ▸ hfirst t ht
        refine ⟨hsound', _, ?_,
          hvisit.cons hminute (isEligible_iff.mp heligible).1 (hnewest heligible)⟩
        rw [haccepted', haccepted]
        exact List.append_assoc ..
    next => exact ih newest hw hrest hminutes hnewests

/-- **Writing the completed minutes of a node makes a visit**, and moves the mark of no other. -/
theorem visit_persist {p : Pipeline σ} (node : String) (reading : Timestamp)
    {summaries : List Summary} (hw : p.writer.Sound)
    (hs : summaries.Pairwise (·.time < ·.time)) (hm : ∀ s ∈ summaries, s.time.minute = s.time) :
    let p' := p.persist reading node summaries
    p'.writer.Sound ∧ (∀ other ≠ node, p'.marks.get? other = p.marks.get? other) ∧
      ∃ records, p'.writer.accepted = p.writer.accepted ++ records ∧
        Visit node reading (p.marks.get? node) (p'.marks.get? node) records := by
  have hresult := visit_persistMinutes node reading (p.marks.get? node) (p.marks.get? node) hw hs
    hm fun s _ h => (isEligible_iff.mp h).2
  simp only [persist]
  generalize persistMinutes node reading.minute (p.marks.get? node) summaries (p.marks.get? node)
    p.writer = result at hresult ⊢
  obtain ⟨newest, w'⟩ := result
  obtain ⟨hsound, records, haccepted, hvisit⟩ := hresult
  dsimp only at hsound haccepted hvisit ⊢
  cases newest with
  | none =>
    have hmark : p.marks.get? node = none := by
      refine Option.eq_none_iff_forall_not_mem.mpr fun m hm => ?_
      obtain ⟨m', hm', -⟩ := hvisit.before_le m hm
      exact absurd hm' (Option.not_mem_none m')
    exact ⟨hsound, fun _ _ => rfl, records, haccepted, by rw [hmark] at hvisit ⊢; exact hvisit⟩
  | some m =>
    dsimp only
    split
    next hsame => exact ⟨hsound, fun _ _ => rfl, records, haccepted, hsame ▸ hvisit⟩
    next =>
      refine ⟨hsound, fun other hne => NameTable.get?_insert_of_ne hne m p.marks, records,
        haccepted, ?_⟩
      rw [NameTable.get?_insert_self]
      exact hvisit

/-! ## The invariant -/

/-- The minutes that the writer has accepted, in order. -/
def archived (p : Pipeline σ) : List Record := p.writer.accepted.filter (·.aggregated)

/-- **The archive is in order**, and the marks are ahead of it. -/
structure Ordered (p : Pipeline σ) : Prop where
  sound : p.writer.Sound
  /-- Of two minutes of one node, the one accepted first is the earlier one. -/
  ascending : p.archived.Pairwise fun a b => a.node = b.node → a.time < b.time
  minute_eq : ∀ r ∈ p.archived, r.time.minute = r.time
  /-- No minute of a node is later than its mark. -/
  le_mark : ∀ r ∈ p.archived, ∃ m ∈ p.marks.get? r.node, r.time ≤ m

/-- A pipeline at rest has an empty archive. -/
theorem ordered_ofSettings (c : CacheSettings) (s : WriterSettings) (store : Store σ) (state : σ) :
    (ofSettings c s store state).Ordered where
  sound := Writer.sound_ofSettings s store state
  ascending := List.Pairwise.nil
  minute_eq _ h := absurd h List.not_mem_nil
  le_mark _ h := absurd h List.not_mem_nil

/-- Where no minute is accepted, the archive stays in order. -/
theorem Ordered.of_archived_eq {p q : Pipeline σ} (hp : p.Ordered) (hw : q.writer.Sound)
    (ha : q.archived = p.archived) (hm : q.marks = p.marks) : q.Ordered where
  sound := hw
  ascending := ha ▸ hp.ascending
  minute_eq := ha ▸ hp.minute_eq
  le_mark := by
    rw [ha, hm]
    exact hp.le_mark

/-- **The writer goes on to accept minutes** that are over by the reading of the clock at their
node, and nothing else, and the archive stays in order. -/
structure Archives (reading : String → Timestamp) (p q : Pipeline σ) : Prop where
  ordered : q.Ordered
  exists_accepted_eq : ∃ records, q.writer.accepted = p.writer.accepted ++ records ∧
    ∀ r ∈ records, r.aggregated = true ∧ r.time < (reading r.node).minute

theorem Archives.refl {reading : String → Timestamp} {p : Pipeline σ} (hp : p.Ordered) :
    Archives reading p p :=
  ⟨hp, [], (List.append_nil _).symm, fun _ h => absurd h List.not_mem_nil⟩

theorem Archives.trans {reading : String → Timestamp} {p q r : Pipeline σ}
    (h₁ : Archives reading p q) (h₂ : Archives reading q r) : Archives reading p r := by
  obtain ⟨first, hfirst, hall⟩ := h₁.exists_accepted_eq
  obtain ⟨second, hsecond, hall'⟩ := h₂.exists_accepted_eq
  refine ⟨h₂.ordered, first ++ second, ?_, List.forall_mem_append.mpr ⟨hall, hall'⟩⟩
  rw [hsecond, hfirst, List.append_assoc]

/-- **A visit keeps the archive in order.** -/
theorem archives_persist {p : Pipeline σ} (hp : p.Ordered) (reading : String → Timestamp)
    {node : String} {summaries : List Summary} (hs : summaries.Pairwise (·.time < ·.time))
    (hm : ∀ s ∈ summaries, s.time.minute = s.time) :
    Archives reading p (p.persist (reading node) node summaries) := by
  obtain ⟨hsound, hothers, records, haccepted, hvisit⟩ :=
    visit_persist node (reading node) hp.sound hs hm
  generalize p.persist (reading node) node summaries = q at *
  have harchived : q.archived = p.archived ++ records := by
    rw [archived, haccepted, List.filter_append, List.filter_eq_self.mpr hvisit.aggregated_eq]
    rfl
  refine ⟨⟨hsound, ?_, ?_, ?_⟩, records, haccepted, fun r hr => ?_⟩
  · rw [harchived]
    refine List.pairwise_append.mpr
      ⟨hp.ascending, hvisit.ascending.imp fun {a b} h (_ : a.node = b.node) => h,
        fun a ha r hr heq => ?_⟩
    obtain ⟨m, hm, hle⟩ := hp.le_mark a ha
    rw [heq, hvisit.node_eq r hr] at hm
    exact Timestamp.lt_of_le_of_lt hle (hvisit.before_lt r hr m hm)
  · rw [harchived]
    exact List.forall_mem_append.mpr ⟨hp.minute_eq, hvisit.minute_eq⟩
  · rw [harchived]
    refine List.forall_mem_append.mpr ⟨fun a ha => ?_, fun r hr => ?_⟩
    · obtain ⟨m, hm, hle⟩ := hp.le_mark a ha
      by_cases hnode : a.node = node
      · rw [hnode] at hm ⊢
        obtain ⟨m', hm', hle'⟩ := hvisit.before_le m hm
        exact ⟨m', hm', Timestamp.le_trans hle hle'⟩
      · rw [hothers a.node hnode]
        exact ⟨m, hm, hle⟩
    · rw [hvisit.node_eq r hr]
      exact hvisit.le_after r hr
  · rw [hvisit.node_eq r hr]
    exact ⟨hvisit.aggregated_eq r hr, hvisit.lt_reading r hr⟩

/-- What a cache tells of a node are whole minutes in ascending order. -/
theorem ascending_summaries (c : Cache) (node : String) :
    (c.summaries node).Pairwise (·.time < ·.time) ∧
      ∀ s ∈ c.summaries node, s.time.minute = s.time := by
  unfold Cache.summaries
  cases c.nodes.get? node with
  | none => exact ⟨List.Pairwise.nil, fun _ h => absurd h List.not_mem_nil⟩
  | some h => exact ⟨pairwise_time_summarise _, fun _ => minute_time_of_mem_summarise⟩

/-- **A sweep keeps the archive in order**, whatever the nodes and their order, and whatever the
clock shows at each. -/
theorem archives_sweepIn {p : Pipeline σ} (hp : p.Ordered) (order : List String)
    (reading : String → Timestamp) : Archives reading p (p.sweepIn order reading) := by
  refine sweepIn_keeps (fun {q} node _ hq => ?_)
    (fun _ hq => ⟨{ hq.ordered with }, hq.exists_accepted_eq⟩) order (.refl hp)
  obtain ⟨hs, hm⟩ := ascending_summaries q.cache node
  exact hq.trans (archives_persist hq.ordered reading hs hm)

/-! ## Every run -/

/-- The minutes that a deed writes, each with what the clock showed at the visit of its node. -/
def written (p : Pipeline σ) : Deed σ → List (Timestamp × Record)
  | .sweep order reading =>
    ((p.sweepIn order reading).writer.accepted.drop p.writer.accepted.length).map fun r =>
      (reading r.node, r)
  | .ingest .. | .tend .. | .move .. => []

/-- **The minutes that a run writes**, in order, each with what the clock showed at the visit of
its node. -/
def log : Pipeline σ → List (Deed σ) → List (Timestamp × Record)
  | _, [] => []
  | p, d :: deeds => p.written d ++ (p.perform d).log deeds

/-- What the writer accepts of a sample that is taken in is no minute, and no mark moves. -/
theorem accepted_ingest {p : Pipeline σ} (hw : p.writer.Sound) (node probe : String)
    (sample : Sample) :
    let q := (p.ingest node probe sample).2
    q.writer.Sound ∧ q.marks = p.marks ∧
      ∃ records, q.writer.accepted = p.writer.accepted ++ records ∧
        ∀ r ∈ records, r.aggregated = false := by
  dsimp only
  obtain ⟨-, -, hmarks, hsame | hoffered⟩ := ingest_parts node probe sample p
  · rw [hsame, hmarks]
    exact ⟨hw, rfl, [], (List.append_nil _).symm, fun _ h => absurd h List.not_mem_nil⟩
  · rw [hoffered, hmarks]
    rcases hwrite : p.writer.write (some (.ofSample node probe sample)) with ⟨result, writer⟩
    obtain ⟨hsound, haccepted⟩ := Writer.accepted_write hw hwrite
    refine ⟨hsound, rfl, _, haccepted, ?_⟩
    cases result with
    | ok _ => exact List.forall_mem_singleton.mpr rfl
    | error _ => exact fun _ h => absurd h List.not_mem_nil

/-- So the archive stays as it is. -/
theorem archived_ingest {p : Pipeline σ} (hp : p.Ordered) (node probe : String)
    (sample : Sample) : (p.ingest node probe sample).2.Ordered ∧
      (p.ingest node probe sample).2.archived = p.archived := by
  obtain ⟨hsound, hmarks, records, haccepted, hall⟩ :=
    accepted_ingest hp.sound node probe sample
  have hnone : records.filter (·.aggregated) = [] :=
    List.filter_eq_nil_iff.mpr fun r hr => by rw [hall r hr]; exact Bool.false_ne_true
  have harchived : (p.ingest node probe sample).2.archived = p.archived := by
    rw [archived, haccepted, List.filter_append, hnone, List.append_nil]
    rfl
  exact ⟨hp.of_archived_eq hsound harchived hmarks, harchived⟩

/-- **A deed keeps the archive in order**, and adds to it what it writes: minutes that are over
by the reading of the clock at their node. -/
theorem archived_perform {p : Pipeline σ} (hp : p.Ordered) (d : Deed σ) :
    (p.perform d).Ordered ∧
      (p.perform d).archived = p.archived ++ (p.written d).map (·.2) ∧
        ∀ e ∈ p.written d, e.2.time < e.1.minute := by
  cases d with
  | ingest node probe sample =>
    obtain ⟨hordered, harchived⟩ := archived_ingest hp node probe sample
    exact ⟨hordered, by rw [written]; exact harchived.trans (List.append_nil _).symm,
      fun _ h => absurd h List.not_mem_nil⟩
  | tend cache =>
    exact ⟨{ hp with }, (List.append_nil _).symm, fun _ h => absurd h List.not_mem_nil⟩
  | move m =>
    have haccepted : (p.writer.move m).accepted = p.writer.accepted ++ [] :=
      Writer.accepted_perform hp.sound (.move m)
    have harchived : (p.perform (.move m)).archived = p.archived := by
      rw [archived, perform, haccepted, List.append_nil]
      rfl
    exact ⟨hp.of_archived_eq (hp.sound.perform (.move m)) harchived rfl,
      harchived.trans (List.append_nil _).symm, fun _ h => absurd h List.not_mem_nil⟩
  | sweep order reading =>
    obtain ⟨hordered, records, haccepted, hall⟩ := archives_sweepIn hp order reading
    have hwritten : p.written (.sweep order reading) =
        records.map fun r => (reading r.node, r) := by
      rw [written, haccepted, List.drop_left]
    refine ⟨hordered, ?_, ?_⟩
    · have hmap : (records.map fun r => (reading r.node, r)).map (·.2) = records := by
        simp [Function.comp_def]
      rw [hwritten, hmap, archived, perform, haccepted, List.filter_append,
        List.filter_eq_self.mpr fun r hr => (hall r hr).1]
      rfl
    · rw [hwritten]
      exact List.forall_mem_map.mpr fun r hr => (hall r hr).2

/-- A run keeps the archive in order, and adds to it what it writes. -/
theorem archived_after_ordered {p : Pipeline σ} (hp : p.Ordered) (deeds : List (Deed σ)) :
    (p.after deeds).Ordered ∧
      (p.after deeds).archived = p.archived ++ (p.log deeds).map (·.2) ∧
        ∀ e ∈ p.log deeds, e.2.time < e.1.minute := by
  induction deeds generalizing p with
  | nil => exact ⟨hp, (List.append_nil _).symm, fun _ h => absurd h List.not_mem_nil⟩
  | cons d deeds ih =>
    obtain ⟨hordered, harchived, hover⟩ := archived_perform hp d
    obtain ⟨hordered', harchived', hover'⟩ := ih hordered
    refine ⟨hordered', ?_, List.forall_mem_append.mpr ⟨hover, hover'⟩⟩
    rw [log, List.map_append, ← List.append_assoc, ← harchived]
    exact harchived'

/-- **Minutes are written at most once and in order.** The minutes that the writer accepts in a
run are those that its sweeps write. Of two minutes of one node the one accepted first is the
earlier one, so none is accepted twice; each is a whole minute, and earlier than the minute the
clock showed when it was written. -/
theorem archived_after (c : CacheSettings) (s : WriterSettings) (store : Store σ) (state : σ)
    (deeds : List (Deed σ)) :
    let p := ofSettings c s store state
    (p.after deeds).archived = (p.log deeds).map (·.2) ∧
      (p.log deeds).Pairwise (fun a b => a.2.node = b.2.node → a.2.time < b.2.time) ∧
      ((p.log deeds).map fun e => (e.2.node, e.2.time)).Nodup ∧
      ∀ e ∈ p.log deeds, e.2.time.minute = e.2.time ∧ e.2.time < e.1.minute := by
  intro p
  obtain ⟨hordered, harchived, hover⟩ :=
    archived_after_ordered (ordered_ofSettings c s store state) deeds
  have harchive : (p.after deeds).archived = (p.log deeds).map (·.2) := harchived
  have hascending :
      (p.log deeds).Pairwise fun a b => a.2.node = b.2.node → a.2.time < b.2.time := by
    have h := hordered.ascending
    rw [harchived] at h
    exact List.pairwise_map.mp h
  refine ⟨harchive, hascending, ?_, fun e he => ⟨?_, hover e he⟩⟩
  · refine List.pairwise_map.mpr (hascending.imp fun {a b} h heq => ?_)
    obtain ⟨hnode, htime⟩ := Prod.mk.inj heq
    exact Timestamp.lt_irrefl b.2.time (htime ▸ h hnode)
  · refine hordered.minute_eq e.2 ?_
    rw [harchived]
    exact List.mem_map_of_mem he

/-- The first sweep that finds a minute over writes it, and no later one does. -/
example :
    let sample : Timestamp := ⟨90, 0, by decide, by decide, by decide⟩
    let early : Timestamp := ⟨119, 0, by decide, by decide, by decide⟩
    let late : Timestamp := ⟨120, 0, by decide, by decide, by decide⟩
    let store : Store Unit := ⟨"none", fun _ _ => (none, ()), fun _ _ => (.done, ())⟩
    let p := ofSettings { persistAggregates := true } {} store ()
    let deeds : List (Deed Unit) :=
      [.ingest "a" "p" ⟨sample, 1, 0, 0⟩, .sweep ["a"] fun _ => early, .sweep ["a"] fun _ => late,
        .sweep ["a"] fun _ => late]
    (p.log deeds).map (fun e => (e.1.seconds, e.2.node, e.2.time.seconds)) = [(120, "a", 60)] := by
  decide +kernel

end Pipeline

end LinkQuality
