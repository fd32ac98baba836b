import LinkQuality.Proofs.Metric.BoundedQueue
import LinkQuality.Proofs.Pipeline.Workers
import Mathlib.Algebra.BigOperators.Group.List.Basic

/-!
# The counts of a cache

A cache counts the nodes it knows, the samples that gave way to newer ones, and the sweeps. None of
these is computed from what the cache holds. The number of nodes is set when a node comes in and
only then, an eviction is counted because the history says that it had to overwrite a sample, and a
sweep counts itself when it is over. That the counts are right all the same is a law of conservation
(`balanced_after`): every sample stored is in the history of its node or has been counted out of it,
in every run and with any number of nodes.

The law is carried by one that is stronger. A history with room for `n` samples has lost all but the
last `n`, so what has been counted out is known node by node, and a store changes it at one node
only (`Chronicle.sum_concat`). Sums are taken over any names that cover those of the chronicle, so
that it makes no difference whether a node is there already: while it has no samples it adds
nothing.

What the counts are compared with is kept beside the cache by whoever does something with it
(`Tallied`): the samples that stores have said they took, and the number of sweeps. Hooks may store
samples while a sweep is under way, and these count like all others.
-/

namespace LinkQuality

/-! ## Sums over nodes -/

/-- **A sum over nodes changes with an entry at its node only.** -/
theorem Chronicle.sum_concat (f : List Sample → Nat) (log : Chronicle) {node : String} (s : Sample)
    {names : List String} (hnames : names.Nodup) (hnode : node ∈ names) :
    (names.map fun name => f (Chronicle.of (log ++ [(node, s)]) name)).sum + f (log.of node) =
      (names.map fun name => f (log.of name)).sum + f (log.of node ++ [s]) := by
  have hother : ∀ name ≠ node, Chronicle.of (log ++ [(node, s)]) name = log.of name := by
    intro name hne
    rw [Chronicle.of_append, Chronicle.of_singleton_of_ne hne, List.append_nil]
  induction names with
  | nil => exact absurd hnode List.not_mem_nil
  | cons first rest ih =>
    obtain ⟨hfirst, hrest⟩ := List.nodup_cons.mp hnames
    rw [List.map_cons, List.map_cons, List.sum_cons, List.sum_cons]
    rcases eq_or_ne first node with rfl | hne
    · have hsame : rest.map (fun name => f (Chronicle.of (log ++ [(first, s)]) name)) =
          rest.map fun name => f (log.of name) := by
        refine List.map_congr_left fun name hname => ?_
        rw [hother name fun heq => hfirst (heq ▸ hname)]
      rw [hsame, Chronicle.of_append, Chronicle.of_singleton_self]
      omega
    · have := ih hrest ((List.mem_cons.mp hnode).resolve_left hne.symm)
      rw [hother first hne]
      omega

/-- **Every entry of a chronicle is one of its node.** -/
theorem Chronicle.sum_length (log : Chronicle) {names : List String} (hnames : names.Nodup)
    (hlog : ∀ e ∈ log, e.1 ∈ names) :
    (names.map fun name => (log.of name).length).sum = log.length := by
  induction log using List.reverseRecOn with
  | nil => simp [Chronicle.of]
  | append_singleton log e ih =>
    obtain ⟨hlog, hlast⟩ := List.forall_mem_append.mp hlog
    have hsum : (names.map fun name => (Chronicle.of (log ++ [e]) name).length).sum +
        (Chronicle.of log e.1).length =
          (names.map fun name => (Chronicle.of log name).length).sum +
            (Chronicle.of log e.1 ++ [e.2]).length :=
      Chronicle.sum_concat List.length log e.2 hnames (hlast e (List.mem_singleton_self e))
    rw [List.length_append, List.length_singleton, ih hlog] at hsum
    rw [List.length_append, List.length_singleton]
    omega

namespace Cache

/-! ## What a store changes -/

/-- **A cache in which a sample of a node has been stored**, from `c` to `c'`. -/
structure Stored (node : String) (sample : Sample) (c c' : Cache) : Prop where
  /-- The sample goes to the end, and where there is no place left the oldest one gives way. -/
  get_eq : c'.get node = (BoundedQueue.push (max c.capacity 1) (c.get node) sample).1
  get_of_ne : ∀ other ≠ node, c'.get other = c.get other
  mem_nodeNames_iff : ∀ other, other ∈ c'.nodeNames ↔ other = node ∨ other ∈ c.nodeNames
  /-- A node that comes in is counted with all that are there. -/
  nodes_eq : c'.metrics.nodes = if node ∈ c.nodeNames then c.metrics.nodes else c'.size
  size_eq : c'.size = if node ∈ c.nodeNames then c.size else c.size + 1
  /-- A sample that gives way is counted. -/
  evictions_eq : c'.metrics.evictions = c.metrics.evictions +
    (BoundedQueue.push (max c.capacity 1) (c.get node) sample).2.toNat
  /-- Nothing else is changed. -/
  rest_eq : c' = { c with
    nodes := c'.nodes
    metrics := { c.metrics with
      nodes := c'.metrics.nodes
      evictions := c'.metrics.evictions } }

/-- What a store leaves as it is, and what it counts. -/
theorem metrics_store {node : String} (h : node ≠ "") (c : Cache) (s : Sample) :
    let c' := (c.store node (some s)).2
    let history := (c.nodes.get? node).getD (.empty c.capacity)
    c'.metrics.nodes = (if node ∈ c.nodeNames then c.metrics.nodes
        else (c.nodes.insert node (.empty c.capacity)).length) ∧
      c'.metrics.evictions = c.metrics.evictions + (history.write s).2.toNat ∧
      c' = { c with
        nodes := c'.nodes
        metrics := { c.metrics with
          nodes := c'.metrics.nodes
          evictions := c'.metrics.evictions } } := by
  unfold store register
  rw [if_neg h]
  dsimp only
  cases hget : c.nodes.get? node with
  | some old =>
    have hknown : node ∈ c.nodeNames := NameTable.mem_names_iff.mpr ⟨old, hget⟩
    rw [if_pos hknown, Option.getD_some]
    cases hevicted : (old.write s).2 <;> exact ⟨rfl, rfl, rfl⟩
  | none =>
    have hunknown : node ∉ c.nodeNames := by
      intro hmem
      obtain ⟨old, hold⟩ := NameTable.mem_names_iff.mp hmem
      exact absurd (hget.symm.trans hold) nofun
    rw [if_neg hunknown, Option.getD_none]
    cases hevicted : ((History.empty c.capacity).write s).2 <;> exact ⟨rfl, rfl, rfl⟩

/-- **Where a cache remembers what was stored, a store is a push** to the history of its node. -/
theorem Remembers.stored {c : Cache} {log : Chronicle} (hc : c.Remembers log) {node : String}
    (hnode : node ≠ "") (s : Sample) : Stored node s c (c.store node (some s)).2 := by
  obtain ⟨hgauge, hevictions, hrest⟩ := metrics_store hnode c s
  have hbefore := hc.recalls
  have hafter := (hc.store node (some s)).recalls
  rw [entries_some hnode, capacity_store] at hafter
  have hpush := BoundedQueue.push_lastOf (Nat.le_max_right c.capacity 1) (log.of node) s
  have hsize : (c.store node (some s)).2.size =
      if node ∈ c.nodeNames then c.size else c.size + 1 := by
    obtain ⟨-, t, ht, hnodes⟩ := nodes_store hnode c s
    rw [size, hnodes]
    rcases ht with rfl | ⟨first, rfl⟩
    · exact NameTable.length_insert hc.ascending ..
    · -- the second entry takes the place of the first
      have hascending : (c.nodes.insert node first).names.Pairwise (· < ·) :=
        NameTable.pairwise_names_update _ _ _ hc.ascending
      rw [NameTable.length_insert hascending, if_pos (NameTable.mem_names_insert.mpr (.inl rfl))]
      exact NameTable.length_insert hc.ascending ..
  exact
    { get_eq := by
        rw [hafter.get_eq, hbefore.get_eq, hpush, Chronicle.of_append, Chronicle.of_singleton_self]
      get_of_ne := fun other hne => (read_store_of_ne hne c (some s)).1
      mem_nodeNames_iff := fun other => by
        rcases eq_or_ne other node with rfl | hne
        · rw [hafter.mem_nodeNames_iff, Chronicle.of_append, Chronicle.of_singleton_self]
          simp
        · rw [(read_store_of_ne hne c (some s)).2.2, or_iff_right hne]
      nodes_eq := by
        rw [hgauge, hsize, NameTable.length_insert hc.ascending]
        split
        next => rfl
        next hunknown => exact if_neg hunknown
      size_eq := hsize
      evictions_eq := by
        rw [hevictions, hc.getD_eq, (History.holds_ofSamples ..).write_snd,
          History.capacity_ofSamples, hbefore.get_eq, hpush]
      rest_eq := hrest }

/-! ## Runs that are tallied -/

open Sweep.Audience (Reaction)

/-- **A cache, and beside it what has been done with it**: the samples that stores have said they
took, with their nodes and in order, and the number of sweeps. -/
structure Tallied where
  cache : Cache
  log : Chronicle := []
  sweeps : Nat := 0

namespace Tallied

/-- A sample is stored, or refused. -/
def store (node : String) (sample : Option Sample) (r : Tallied) : Tallied :=
  { r with
    cache := (r.cache.store node sample).2
    log := r.log ++ r.cache.entries node sample }

/-- A hook does something. -/
def heed (r : Tallied) : Reaction → Tallied
  | .store node sample => r.store node sample
  | .register role => { r with cache := r.cache.onSweep role }

/-- A hook is told of a node, and does something about it. -/
def respond (react : Conduct) (hook : Hook) (node : String) (summaries : List Summary)
    (r : Tallied) : Tallied :=
  (react hook node summaries r.cache).foldl heed
    { r with cache := r.cache.witness hook node summaries }

/-- A sweep, over nodes in a given order. -/
def sweep (react : Conduct) (order : List String) (r : Tallied) : Tallied :=
  let swept := Sweep.visits cache (respond react) order r
  { swept with cache := swept.cache.countSweep, sweeps := swept.sweeps + 1 }

/-- What is done with the cache, and tallied. -/
def enact (r : Tallied) : Deed → Tallied
  | .store node sample => r.store node sample
  | .onSweep role => { r with cache := r.cache.onSweep role }
  | .sweep react order => r.sweep react order
  | .start => { r with cache := r.cache.start }
  | .stop => { r with cache := r.cache.stop }
  | .turn react order now =>
    if r.cache.sweepDue now then
      let turned := if r.cache.ticks then r.sweep react order else r
      { turned with cache := turned.cache.rearm now }
    else r

/-- **A run that is tallied.** -/
def after (r : Tallied) (deeds : List Deed) : Tallied := deeds.foldl enact r

/-! ### The cache of a tally

Nothing is done to the cache for the sake of the tally. -/

/-- The cache is what a hook makes of it. -/
theorem cache_heed (r : Tallied) (reaction : Reaction) :
    (r.heed reaction).cache = reaction.perform r.cache := by
  cases reaction <;> rfl

/-- However much the hook does. -/
theorem cache_heeds (r : Tallied) (reactions : List Reaction) :
    reactions.foldl Reaction.perform r.cache = (reactions.foldl heed r).cache :=
  List.foldl_hom cache fun r reaction => (r.cache_heed reaction).symm

/-- So it is after a sweep. -/
theorem cache_sweep (react : Conduct) (order : List String) (r : Tallied) :
    (r.sweep react order).cache = r.cache.sweepAmong react order := by
  have hvisits : Sweep.visits id (Cache.respond react) order r.cache =
      (Sweep.visits cache (respond react) order r).cache := by
    refine Sweep.visits_hom (fun _ => rfl) (fun hook node summaries r => ?_) order r
    exact cache_heeds { r with cache := r.cache.witness hook node summaries } _
  show Cache.countSweep _ = Cache.countSweep _
  rw [hvisits]

/-- **The cache of a tally is that of the run.** -/
theorem cache_after (r : Tallied) (deeds : List Deed) :
    (r.after deeds).cache = r.cache.afterDeeds deeds := by
  refine List.foldl_hom (f := cache) (fun r d => ?_) |>.symm
  cases d with
  | store | onSweep | start | stop => rfl
  | sweep react order => exact (r.cache_sweep react order).symm
  | turn react order now =>
    show r.cache.turnAmong react order now = (r.enact (.turn react order now)).cache
    unfold turnAmong enact
    dsimp only
    split
    · split
      · rw [cache_sweep]
      · rfl
    · rfl

end Tallied

/-! ## Tallies that balance -/

/-- **A cache of which nothing has been counted**, from `c` to `c'`. -/
structure Uncounted (c c' : Cache) : Prop where
  nodes_eq : c'.nodes = c.nodes
  capacity_eq : c'.capacity = c.capacity
  metrics_eq : c'.metrics = c.metrics

/-- A hook that takes note is not counted. -/
theorem uncounted_witness (c : Cache) (hook : Hook) (node : String) (summaries : List Summary) :
    Uncounted c (c.witness hook node summaries) := by
  unfold witness
  dsimp only
  split
  · split <;> exact ⟨rfl, rfl, rfl⟩
  · exact ⟨rfl, rfl, rfl⟩

/-- Nor is the start of the background sweep. -/
theorem uncounted_start (c : Cache) : Uncounted c c.start := by
  unfold start
  split
  · exact ⟨rfl, rfl, rfl⟩
  · split <;> exact ⟨rfl, rfl, rfl⟩

/-- Nor is the setting of its timer. -/
theorem uncounted_rearm (now : Nat) (c : Cache) : Uncounted c (c.rearm now) := by
  unfold rearm
  split <;> exact ⟨rfl, rfl, rfl⟩

namespace Tallied

/-- **A tally that balances**: the counts of the cache are those of the tally. -/
structure Balanced (capacity : Nat) (r : Tallied) : Prop where
  remembers : r.cache.Remembers r.log
  capacity_eq : r.cache.capacity = capacity
  nodes_eq : r.cache.metrics.nodes = r.cache.size
  /-- Of each node all samples have been counted out but those for which there is room. -/
  evictions_eq : ∀ names : List String, names.Nodup → (∀ e ∈ r.log, e.1 ∈ names) →
    r.cache.metrics.evictions =
      (names.map fun name => (r.log.of name).length - max capacity 1).sum
  sweeps_eq : r.cache.metrics.sweeps = r.sweeps

variable {capacity : Nat} {r : Tallied}

/-- Before anything is done, there is nothing to count. -/
theorem balanced_ofSettings (s : CacheSettings) : Balanced s.capacity ⟨ofSettings s, [], 0⟩ where
  remembers := remembers_ofSettings s
  capacity_eq := rfl
  nodes_eq := rfl
  evictions_eq names _ _ := by
    refine (List.sum_eq_zero_iff_forall_eq_nat.mpr fun n hn => ?_).symm
    obtain ⟨name, -, rfl⟩ := List.mem_map.mp hn
    exact Nat.zero_sub _
  sweeps_eq := rfl

/-- What is not counted leaves a tally balanced. -/
theorem Balanced.of_uncounted (h : r.Balanced capacity) {c : Cache} (hc : Uncounted r.cache c) :
    Balanced capacity { r with cache := c } where
  remembers := h.remembers.of_nodes_eq ⟨hc.nodes_eq, hc.capacity_eq⟩
  capacity_eq := hc.capacity_eq.trans h.capacity_eq
  nodes_eq := by
    rw [hc.metrics_eq, h.nodes_eq, size, size, hc.nodes_eq]
  evictions_eq := by
    rw [hc.metrics_eq]
    exact h.evictions_eq
  sweeps_eq := by
    rw [hc.metrics_eq]
    exact h.sweeps_eq

/-- **A store balances**, also one that is refused. -/
theorem Balanced.store (h : r.Balanced capacity) (node : String) (sample : Option Sample) :
    (r.store node sample).Balanced capacity := by
  by_cases hrefused : node = "" ∨ sample = none
  · obtain ⟨hentries, hsame⟩ := entries_of_refused (c := r.cache) hrefused
    rw [Tallied.store, hentries, hsame, List.append_nil]
    exact h
  obtain ⟨hnode, hsample⟩ := not_or.mp hrefused
  obtain ⟨s, rfl⟩ := Option.ne_none_iff_exists'.mp hsample
  have hstored := h.remembers.stored hnode s
  have hlog : (r.store node (some s)).log = r.log ++ [(node, s)] :=
    congrArg (r.log ++ ·) (entries_some hnode r.cache s)
  exact
    { remembers := h.remembers.store node (some s)
      capacity_eq := (r.cache.capacity_store node (some s)).trans h.capacity_eq
      nodes_eq := by
        -- the gauge is set where the node is new, and where it is not the size stays
        refine hstored.nodes_eq.trans ?_
        split
        next hknown => exact h.nodes_eq.trans (hstored.size_eq.trans (if_pos hknown)).symm
        next => rfl
      evictions_eq := fun names hnames hcovers => by
        rw [hlog] at hcovers ⊢
        obtain ⟨hbefore, hlast⟩ := List.forall_mem_append.mp hcovers
        have hnode' : node ∈ names := hlast (node, s) (List.mem_singleton_self _)
        have hsum := Chronicle.sum_concat (fun l => l.length - max capacity 1) r.log s hnames hnode'
        have hcount := h.evictions_eq names hnames hbefore
        have hevictions := hstored.evictions_eq
        have hpush := BoundedQueue.push_lastOf (Nat.le_max_right r.cache.capacity 1)
          (r.log.of node) s
        rw [h.remembers.recalls.get_eq, hpush, h.capacity_eq] at hevictions
        refine hevictions.trans ?_
        -- the node of the sample has lost one more where it had as many as there is room for
        dsimp only at hsum ⊢
        rw [List.length_append, List.length_singleton] at hsum
        by_cases hfull : max capacity 1 ≤ (r.log.of node).length
        · rw [decide_eq_true hfull, Bool.toNat_true]
          omega
        · rw [decide_eq_false hfull, Bool.toNat_false]
          omega
      sweeps_eq := by
        refine (congrArg (·.metrics.sweeps) hstored.rest_eq).trans h.sweeps_eq }

/-- Whatever a hook does balances. -/
theorem Balanced.respond (h : r.Balanced capacity) (react : Conduct) (hook : Hook) (node : String)
    (summaries : List Summary) : (r.respond react hook node summaries).Balanced capacity := by
  refine List.foldlRecOn _ heed (h.of_uncounted (r.cache.uncounted_witness hook node summaries)) ?_
  intro r' h' reaction _
  cases reaction with
  | store node sample => exact h'.store node sample
  | register role => exact h'.of_uncounted ⟨rfl, rfl, rfl⟩

/-- **So does a sweep**, and it is counted once. -/
theorem Balanced.sweep (h : r.Balanced capacity) (react : Conduct) (order : List String) :
    (r.sweep react order).Balanced capacity := by
  have hswept : (Sweep.visits cache (Tallied.respond react) order r).Balanced capacity :=
    Sweep.visits_keeps (P := Balanced capacity)
      (fun hook node _ _ _ hs => hs.respond react hook node _) order h
  exact
    { remembers := hswept.remembers.of_nodes_eq ⟨rfl, rfl⟩
      capacity_eq := hswept.capacity_eq
      nodes_eq := hswept.nodes_eq
      evictions_eq := hswept.evictions_eq
      sweeps_eq := congrArg (· + 1) hswept.sweeps_eq }

/-- **So does everything that can be done.** -/
theorem Balanced.enact (h : r.Balanced capacity) (d : Deed) : (r.enact d).Balanced capacity := by
  cases d with
  | store node sample => exact h.store node sample
  | onSweep role => exact h.of_uncounted ⟨rfl, rfl, rfl⟩
  | sweep react order => exact h.sweep react order
  | start => exact h.of_uncounted r.cache.uncounted_start
  | stop => exact h.of_uncounted ⟨rfl, rfl, rfl⟩
  | turn react order now =>
    unfold Tallied.enact
    dsimp only
    split
    · split
      · exact (h.sweep react order).of_uncounted (uncounted_rearm now _)
      · exact h.of_uncounted (uncounted_rearm now _)
    · exact h

/-- A run balances, since every deed of it does. -/
theorem Balanced.after (h : r.Balanced capacity) (deeds : List Deed) :
    (r.after deeds).Balanced capacity :=
  List.foldlRecOn deeds Tallied.enact h fun _ h' d _ => h'.enact d

end Tallied

/-! ## The background sweep on a clock -/

/-- Letting the clock jump takes turns. -/
theorem exists_turns_drive (limit fuel now : Nat) (c : Cache) :
    ∃ times : List Nat, drive limit fuel now c =
      c.afterDeeds (times.map fun t => .turn (fun _ _ _ _ => []) c.nodeNames t) := by
  induction fuel generalizing now c with
  | zero => exact ⟨[], rfl⟩
  | succ fuel ih =>
    rw [drive]
    split
    next c' hturn =>
      obtain ⟨times, htimes⟩ := ih now c'
      have hnames : c'.nodeNames = c.nodeNames := congrArg NameTable.names (nodes_turn? hturn).1
      have hfirst : c.enact (.turn (fun _ _ _ _ => []) c.nodeNames now) = c' := by
        rw [enact, turnAmong_eq, hturn, Option.getD_some]
      refine ⟨now :: times, ?_⟩
      rw [htimes, List.map_cons, afterDeeds, afterDeeds, List.foldl_cons, hfirst, hnames]
    · split
      · split
        · exact ih _ c
        · exact ⟨[], rfl⟩
      · exact ⟨[], rfl⟩

/-- **The background sweep on a clock takes turns**, so that its runs are among those that are
tallied. -/
theorem exists_turns_run (now span : Nat) (c : Cache) : ∃ times : List Nat,
    c.run now span =
      c.afterDeeds (times.map fun t => .turn (fun _ _ _ _ => []) c.nodeNames t) :=
  exists_turns_drive (now + span) (2 * span + 3) now c

/-! ## The counts -/

/-- **The counts of a cache are right**, whatever has been done with it. The gauge is the number of
the nodes that are known, which are those of the samples that were stored. The samples stored are
those that the histories hold and those that gave way, and of each node as many gave way as there
was no room for. The sweeps are those by hand and those of the background sweep together. What is
refused changes nothing, and reading does not either.

The sweep by hand of a cache that stands alone, and its background sweep on a clock, are deeds and
runs of deeds, so that all this holds of them as well. -/
theorem balanced_after (s : CacheSettings) (deeds : List Deed) :
    let c := (ofSettings s).afterDeeds deeds
    let r := (⟨ofSettings s, [], 0⟩ : Tallied).after deeds
    let room := max s.capacity 1
    r.cache = c ∧
      c.metrics.nodes = c.nodeNames.length ∧
      (c.nodeNames.Nodup ∧ ∀ node, node ∈ c.nodeNames ↔ r.log.of node ≠ []) ∧
      r.log.length = (c.nodeNames.map fun node => (c.get node).length).sum + c.metrics.evictions ∧
      c.metrics.evictions = (c.nodeNames.map fun node => (r.log.of node).length - room).sum ∧
      c.metrics.sweeps = r.sweeps ∧
      (∀ node sample why, (c.store node sample).1 = .error why → (c.store node sample).2 = c) ∧
      (∀ query, c.perform (.ask query) = c) ∧
      c.sweep.2 =
        (ofSettings s).afterDeeds (deeds ++ [.sweep (fun _ _ _ _ => []) c.nodeNames]) ∧
      ∀ now span, ∃ times : List Nat, c.run now span = (ofSettings s).afterDeeds
        (deeds ++ times.map fun t => .turn (fun _ _ _ _ => []) c.nodeNames t) := by
  intro c r room
  have hbalanced : r.Balanced s.capacity := (Tallied.balanced_ofSettings s).after deeds
  have hcache : r.cache = c := Tallied.cache_after _ deeds
  have hrecalls : c.Recalls room r.log := by
    have := hbalanced.remembers.recalls
    rwa [hbalanced.capacity_eq, hcache] at this
  have hcovers : ∀ e ∈ r.log, e.1 ∈ c.nodeNames := fun e he =>
    (hrecalls.mem_nodeNames_iff e.1).mpr (Chronicle.of_ne_nil_iff.mpr (List.mem_map_of_mem he))
  have hnodes : c.metrics.nodes = c.nodeNames.length := by
    rw [← hcache]
    exact hbalanced.nodes_eq.trans (List.length_map ..).symm
  have hevictions := hbalanced.evictions_eq c.nodeNames hrecalls.nodup_nodeNames hcovers
  rw [hcache] at hevictions
  refine ⟨hcache, hnodes, ⟨hrecalls.nodup_nodeNames, hrecalls.mem_nodeNames_iff⟩, ?_, hevictions,
    hcache ▸ hbalanced.sweeps_eq, fun node sample why => store_of_error, fun query => rfl, ?_,
    fun now span => ?_⟩
  · -- at each node, what is held and what gave way
    calc r.log.length
        = (c.nodeNames.map fun node => (r.log.of node).length).sum :=
          (Chronicle.sum_length r.log hrecalls.nodup_nodeNames hcovers).symm
      _ = (c.nodeNames.map fun node => (c.get node).length +
            ((r.log.of node).length - room)).sum := by
          refine congrArg List.sum (List.map_congr_left fun node _ => ?_)
          have hlength : (c.get node).length =
              (r.log.of node).length - ((r.log.of node).length - room) := by
            rw [hrecalls.get_eq, lastOf, List.length_drop]
          omega
      _ = (c.nodeNames.map fun node => (c.get node).length).sum + c.metrics.evictions := by
          rw [List.sum_map_add, hevictions]
  · rw [afterDeeds_append]
    rfl
  · obtain ⟨times, hrun⟩ := c.exists_turns_run now span
    exact ⟨times, by rw [afterDeeds_append, hrun]⟩

/-- A cache for one sample of each node: two have given way, to one that a hook stored in a sweep
among them. -/
example :
    let sample : Sample := ⟨⟨0, 0, by decide, by decide, by decide⟩, 1, 0, 0⟩
    let c := (ofSettings { capacity := 1 }).afterDeeds
      [.store "b" sample, .store "a" sample, .onSweep (.observer 0), .store "b" sample,
        .store "" sample, .sweep (fun _ _ _ _ => [.store "a" sample]) ["b"]]
    (c.metrics.nodes, c.metrics.evictions, c.metrics.sweeps) = (2, 2, 1) := by
  decide +kernel

end Cache

end LinkQuality
