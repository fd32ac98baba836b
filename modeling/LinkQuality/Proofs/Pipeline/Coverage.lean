import LinkQuality.Proofs.Pipeline.Act
import LinkQuality.Proofs.Pipeline.Deferral
import LinkQuality.Proofs.Writer.Conservation

/-!
# What a written minute covers

A minute is written from the samples of it that the cache has at that sweep. These are the ones
among the last samples of the node, as many as there is room for, so the record holds the means of
what is left of its minute (`archived_covers`). If no sample of the minute has been overwritten by
then, that is all of it (`Record.Covers.whole`); else it is not, and the record does not tell
(`not_whole_after_overwriting`).

Once a minute has been written the mark keeps it from being written again, so whatever comes to be
known of it later is in no record.
-/

namespace LinkQuality

/-! ## What is left of a minute -/

/-- **The samples that later ones have overwritten**, where the last `capacity` are held. -/
def overwritten (capacity : Nat) (samples : List Sample) : List Sample :=
  samples.take (samples.length - capacity)

/-- A minute of which nothing has been overwritten is held as a whole. -/
theorem inMinute_lastOf {capacity : Nat} {minute : Timestamp} {samples : List Sample}
    (h : inMinute minute (overwritten capacity samples) = []) :
    inMinute minute (lastOf capacity samples) = inMinute minute samples :=
  calc inMinute minute (lastOf capacity samples)
      = inMinute minute (overwritten capacity samples) ++
          inMinute minute (lastOf capacity samples) := by rw [h, List.nil_append]
    _ = inMinute minute (overwritten capacity samples ++ lastOf capacity samples) :=
        (List.filter_append ..).symm
    _ = inMinute minute samples := by rw [overwritten, lastOf, List.take_append_drop]

/-- **A record covers what is left of its minute**, when the samples of a chronicle have been
stored and the last `capacity` of each node are held. -/
structure Record.Covers (r : Record) (capacity : Nat) (log : Chronicle) : Prop where
  held_ne_nil : inMinute r.time (lastOf capacity (log.of r.node)) ≠ []
  eq_ofMinute :
    r = .ofMinute r.node r.time (inMinute r.time (lastOf capacity (log.of r.node)))
  /-- It covers the whole minute, if nothing of that has been overwritten. -/
  whole : inMinute r.time (overwritten capacity (log.of r.node)) = [] →
    r = .ofMinute r.node r.time (inMinute r.time (log.of r.node))

/-- **The record of a minute that a cache sums up covers what is left of it.** -/
theorem Cache.Recalls.covers {c : Cache} {capacity : Nat} {log : Chronicle}
    (hc : c.Recalls capacity log) {node : String} {s : Summary} (hs : s ∈ c.summaries node) :
    (Record.ofSummary node "" s).Covers capacity log := by
  rw [hc.summaries_eq, hc.get_eq] at hs
  have heq := ofSummary_of_mem node hs
  exact
    { held_ne_nil := (mem_summarise.mp hs).1
      eq_ofMinute := heq
      whole := fun h => heq.trans (congrArg (Record.ofMinute node s.time) (inMinute_lastOf h)) }

namespace Pipeline

variable {σ : Type}

/-! ## What a sweep writes -/

/-- **The writer goes on to accept minutes that the cache sums up**, and nothing else, and the
histories in the cache stay as they are. -/
structure Draws (p q : Pipeline σ) : Prop where
  sound : q.writer.Sound
  nodes_eq : q.cache.nodes = p.cache.nodes
  exists_accepted_eq : ∃ records, q.writer.accepted = p.writer.accepted ++ records ∧
    ∀ r ∈ records, ∃ s ∈ p.cache.summaries r.node, r = .ofSummary r.node "" s

theorem Draws.refl {p : Pipeline σ} (hw : p.writer.Sound) : Draws p p :=
  ⟨hw, rfl, [], (List.append_nil _).symm, fun _ h => absurd h List.not_mem_nil⟩

/-- A visit draws on the histories of its node. -/
theorem Draws.persist {p q : Pipeline σ} (h : Draws p q) (reading : Timestamp) (node : String) :
    Draws p (q.persist reading node (q.cache.summaries node)) := by
  rw [persist_eq_persistAmid]
  obtain ⟨hadvances, hsound, hcache, records, haccepted, -, halone⟩ :=
    advances_persistAmid h.sound quiet reading node
  obtain ⟨earlier, hearlier, hall⟩ := h.exists_accepted_eq
  have hrecords := halone fun _ => ⟨[], rfl⟩
  refine ⟨hsound, (congrArg Cache.nodes hcache).trans h.nodes_eq, earlier ++ records, ?_,
    List.forall_mem_append.mpr ⟨hall, ?_⟩⟩
  · rw [haccepted, hearlier, List.append_assoc]
  · rw [hrecords]
    refine List.forall_mem_map.mpr fun s hs => ⟨s, ?_, rfl⟩
    have hdue := hadvances.written_isPrefix.subset hs
    have hsource := (List.mem_filter.mp hdue).1
    rw [Cache.summaries_of_nodes_eq h.nodes_eq] at hsource
    exact hsource

/-- **A sweep draws on the histories in the cache.** -/
theorem draws_sweepIn {p : Pipeline σ} (hw : p.writer.Sound) (order : List String)
    (reading : String → Timestamp) : Draws p (p.sweepIn order reading) :=
  sweepIn_keeps (fun node _ hq => hq.persist (reading node) node)
    (fun htended hq => { hq with nodes_eq := htended.nodes_eq.trans hq.nodes_eq }) order (.refl hw)

/-- What an act writes covers what is left of its minute. -/
theorem covers_of_written {p : Pipeline σ} {capacity : Nat} {log : Chronicle}
    (hw : p.writer.Sound) (hp : p.cache.Recalls capacity log) {order : List String}
    {reading : String → Timestamp} {r : Record}
    (hr : r ∈ (p.written (.sweep order reading)).map (·.2)) : r.Covers capacity log := by
  obtain ⟨records, haccepted, hall⟩ := (draws_sweepIn hw order reading).exists_accepted_eq
  have hwritten : (p.written (.sweep order reading)).map (·.2) = records := by
    rw [written, haccepted, List.drop_left, List.map_map]
    exact List.map_id records
  rw [hwritten] at hr
  obtain ⟨s, hs, heq⟩ := hall r hr
  rw [heq]
  exact hp.covers hs

/-! ## Every run -/

/-- **A written minute covers what the cache has left of it.** In every run of acts, each minute
that the writer has accepted was written by one of the sweeps. Its record holds the means of those
samples of its minute that are among the last of its node, as many as there is room for, of all
stored before that sweep; and if none of its samples has been overwritten by then, the means of all
of them. -/
theorem archived_covers (c : CacheSettings) (s : WriterSettings) (store : Store σ) (state : σ)
    (acts : List (Act σ)) :
    let start := ofSettings c s store state
    ∀ r ∈ (start.afterActs acts).archived, ∃ before order reading later,
      acts = before ++ .sweep order reading :: later ∧
        r ∈ ((start.afterActs before).written (.sweep order reading)).map (·.2) ∧
        r.Covers (max c.capacity 1) (start.chronicle before) := by
  intro start
  have hordered : ∀ before : List (Act σ), (start.afterActs before).Ordered := by
    intro before
    rw [afterActs_eq]
    exact (archived_after_ordered (ordered_ofSettings c s store state) _).1
  induction acts using List.reverseRecOn with
  | nil => exact fun r hr => absurd hr List.not_mem_nil
  | append_singleton acts a ih =>
    intro r hr
    have harchived := (archived_perform (hordered acts) (a.deed (start.afterActs acts))).2.1
    rw [afterActs_concat, act, harchived] at hr
    rcases List.mem_append.mp hr with hr | hr
    · obtain ⟨before, order, reading, later, hacts, hcovers⟩ := ih r hr
      refine ⟨before, order, reading, later ++ [a], ?_, hcovers⟩
      rw [hacts, List.append_assoc]
      rfl
    · cases a with
      | sweep order reading =>
        exact ⟨acts, order, reading, [], rfl, hr, covers_of_written (hordered acts).sound
          (recalls_afterActs c s store state acts) hr⟩
      | ingest | store | tend | move => exact absurd hr List.not_mem_nil

/-- Two samples of one minute. -/
def twice : List (Act Unit) :=
  let sample (latency : Float) : Sample := ⟨(Record.smooth "a").time, latency, 0, 0⟩
  [.ingest "a" "p" (sample 1), .ingest "a" "p" (sample 3)]

/-- A sweep when that minute is over. -/
def afterwards : Act Unit :=
  .sweep ["a"] fun _ => .ofSecond 120 (by decide) (by decide)

/-- A cache for two samples keeps both, and the record of the minute covers them. -/
theorem archived_covers_twice :
    let start := ofSettings { capacity := 2, persistAggregates := true } {} Store.prompt ()
    ∃ r ∈ (start.afterActs (twice ++ [afterwards])).archived, r.latency = 2 ∧
      ∃ before order reading later,
        twice ++ [afterwards] = before ++ .sweep order reading :: later ∧
        r ∈ ((start.afterActs before).written (.sweep order reading)).map (·.2) ∧
        r.Covers 2 (start.chronicle before) := by
  intro start
  obtain ⟨r, hr, hmean⟩ :
      ∃ r ∈ (start.afterActs (twice ++ [afterwards])).archived, r.latency = 2 := by
    decide +kernel
  exact ⟨r, hr, hmean, archived_covers { capacity := 2, persistAggregates := true } {} Store.prompt
    () (twice ++ [afterwards]) r hr⟩

/-- **A cache for one sample has overwritten the first of them** by then, and the record of the
minute does not hold the mean of both. -/
theorem not_whole_after_overwriting :
    let start := ofSettings { capacity := 1, persistAggregates := true } {} Store.prompt ()
    let records := (start.afterActs (twice ++ [afterwards])).archived
    records.map (fun r => (r.node, r.latency)) = [("a", 3)] ∧
      ¬ ∀ r ∈ records,
        r.latency = mean Sample.latency (inMinute r.time ((start.chronicle twice).of r.node)) := by
  decide +kernel

end Pipeline

end LinkQuality
