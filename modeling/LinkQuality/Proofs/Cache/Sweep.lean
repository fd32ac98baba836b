import LinkQuality.Proofs.Cache.Memory

/-!
# Who is told of what in a sweep

A sweep settles at its beginning whom it tells and which nodes it visits, and while it goes on,
those who are told may change both: they bring in others, and store samples, also of nodes that
were not known. The main statement, `Sweep.Audience.faithful`, is that this makes no difference to
the sweep that is under way. Everyone who was there at its beginning is told once of each node that
was known then, and of what the node had when its visit began. The next sweep does the same with
whoever and whatever has come in.

What whoever is told does is left open: an audience is a state with a cache in it and any way to
change that state, as long as the cache is changed by stores and registrations only
(`Cache.Grows`). Beside the cache the state can hold whatever they remember
(`Sweep.Audience.reactive`). The sweep of a cache that stands alone is the case of hooks that take
note (`Sweep.Audience.sweep_eq_search`).

To say what is told, an audience is made to take notes (`Sweep.Audience.noting`); so the record of a
sweep is itself the outcome of a sweep, and an induction over the nodes reads it.
-/

namespace LinkQuality

namespace Cache

/-! ## What those who are told may do -/

/-- **A cache that has grown** from `c`: samples were stored in it and hooks registered, and what is
neither node nor hook may be any. -/
inductive Grows (c : Cache) : Cache → Prop
  | refl : Grows c c
  | store {c'} (node : String) (sample : Option Sample) (h : Grows c c') :
    Grows c (c'.store node sample).2
  | register {c'} (role : Role) (h : Grows c c') : Grows c (c'.onSweep role)
  | aside {c' c''} (hn : c''.nodes = c'.nodes) (hh : c''.hooks = c'.hooks) (h : Grows c c') :
    Grows c c''

theorem Grows.trans {c c' c'' : Cache} (h₁ : Grows c c') (h₂ : Grows c' c'') : Grows c c'' := by
  induction h₂ with
  | refl => exact h₁
  | store node sample _ ih => exact .store node sample ih
  | register role _ ih => exact .register role ih
  | aside hn hh _ ih => exact .aside hn hh ih

/-- Hooks are registered after those that are there, and none is lost. -/
theorem Grows.hooks_isPrefix {c c' : Cache} (h : Grows c c') : c.hooks <+: c'.hooks := by
  induction h with
  | refl => exact List.prefix_refl _
  | store node sample _ ih => rwa [hooks_store]
  | register role _ ih => exact ih.trans (List.prefix_append ..)
  | aside _ hh _ ih => rwa [hh]

/-- No node is forgotten. -/
theorem Grows.mem_nodeNames {c c' : Cache} (h : Grows c c') {node : String}
    (hnode : node ∈ c.nodeNames) : node ∈ c'.nodeNames := by
  induction h with
  | refl => exact hnode
  | store stored sample _ ih => exact mem_nodeNames_store ih stored sample
  | register role _ ih => exact ih
  | aside hn _ _ ih => rwa [nodeNames, hn]

/-- The names of the nodes stay in order. -/
theorem Grows.ascending {c c' : Cache} (h : Grows c c') (hc : c.nodeNames.Pairwise (· < ·)) :
    c'.nodeNames.Pairwise (· < ·) := by
  induction h with
  | refl => exact hc
  | store node sample _ ih => exact ascending_store ih node sample
  | register role _ ih => exact ih
  | aside hn _ _ ih => rwa [nodeNames, hn]

/-- A hook that takes note of a visit lets the cache grow. -/
theorem grows_witness (c : Cache) (hook : Hook) (node : String) (summaries : List Summary) :
    Grows c (c.witness hook node summaries) := by
  have hnoted : Grows c { c with history := .visited hook node summaries :: c.history } :=
    .aside (rfl : _ = c.nodes) (rfl : _ = c.hooks) .refl
  unfold witness
  dsimp only
  split
  · split
    · exact .register _ hnoted
    · exact hnoted
  · exact hnoted

end Cache

namespace Sweep

/-- **Those who are told of a sweep**: a state with a cache in it, and what being told does to
it. -/
structure Audience (ω : Type) where
  cache : ω → Cache
  tell : Hook → String → List Summary → ω → ω
  grows_tell : ∀ hook node summaries s, (cache s).Grows (cache (tell hook node summaries s))

/-- **What one hook is told of one node.** -/
structure Telling where
  hook : Hook
  node : String
  summaries : List Summary

namespace Audience

variable {ω : Type}

/-! ## Audiences -/

/-- The hooks of a cache that stands alone. -/
def standing : Audience Cache where
  cache := id
  tell hook node summaries c := c.witness hook node summaries
  grows_tell hook node summaries c := c.grows_witness hook node summaries

/-- What a hook can do to a cache. -/
inductive Reaction where
  | store (node : String) (sample : Option Sample)
  | register (role : Role)

/-- The cache after that. -/
def Reaction.perform (c : Cache) : Reaction → Cache
  | .store node sample => (c.store node sample).2
  | .register role => c.onSweep role

/-- **Hooks that do what they like**: with what they remember, and with the whole cache before them,
they store samples and bring in others, in any order and as many as they like. -/
def reactive {μ : Type} (react : Hook → String → List Summary → μ × Cache → μ × List Reaction) :
    Audience (μ × Cache) where
  cache := Prod.snd
  tell hook node summaries s :=
    let (memory, reactions) := react hook node summaries s
    (memory, reactions.foldl Reaction.perform s.2)
  grows_tell hook node summaries s := by
    refine List.foldlRecOn _ Reaction.perform .refl fun c hc reaction _ => ?_
    cases reaction with
    | store node sample => exact .store node sample hc
    | register role => exact .register role hc

/-- **An audience that takes notes** of what it is told. -/
def noting (a : Audience ω) : Audience (List Telling × ω) where
  cache r := a.cache r.2
  tell hook node summaries r := (r.1 ++ [⟨hook, node, summaries⟩], a.tell hook node summaries r.2)
  grows_tell hook node summaries r := a.grows_tell hook node summaries r.2

/-! ## What is told -/

/-- What being told does. -/
def hear (a : Audience ω) (s : ω) (t : Telling) : ω := a.tell t.hook t.node t.summaries s

/-- The visit of one node, telling given hooks. -/
def visit (a : Audience ω) (hooks : List Hook) (s : ω) (node : String) : ω :=
  Sweep.visit a.cache a.tell hooks s node

/-- The visits of a sweep. -/
def visits (a : Audience ω) (order : List String) (s : ω) : ω :=
  Sweep.visits a.cache a.tell order s

/-- **What is told in a sweep**, in order. -/
def tellings (a : Audience ω) (order : List String) (s : ω) : List Telling :=
  (a.noting.visits order ([], s)).1

/-- What is told at the visit of one node. -/
def told (a : Audience ω) (hooks : List Hook) (node : String) (s : ω) : List Telling :=
  hooks.map (⟨·, node, (a.cache s).summaries node⟩)

variable (a : Audience ω)

/-- A visit is just its tellings. -/
theorem visit_eq_foldl (hooks : List Hook) (s : ω) (node : String) :
    a.visit hooks s node = (a.told hooks node s).foldl a.hear s := by
  rw [told, List.foldl_map]
  rfl

/-- What is told at a visit is noted, and nothing else is changed by that. -/
theorem visit_noting (hooks : List Hook) (log : List Telling) (s : ω) (node : String) :
    a.noting.visit hooks (log, s) node = (log ++ a.told hooks node s, a.visit hooks s node) := by
  have hsame : a.noting.told hooks node (log, s) = a.told hooks node s := rfl
  have hhear : ∀ (tellings log : List Telling) (s : ω),
      tellings.foldl a.noting.hear (log, s) = (log ++ tellings, tellings.foldl a.hear s) := by
    intro tellings
    induction tellings with
    | nil => exact fun log s => Prod.ext (List.append_nil log).symm rfl
    | cons t tellings ih =>
      intro log s
      refine (ih (log ++ [t]) (a.hear s t)).trans ?_
      rw [List.append_assoc]
      rfl
  rw [visit_eq_foldl, visit_eq_foldl, hsame, hhear]

/-- What is told at visits of nodes one after the other. -/
def toldOf (hooks : List Hook) : List String → ω → List Telling
  | [], _ => []
  | node :: rest, s => a.told hooks node s ++ toldOf hooks rest (a.visit hooks s node)

/-- This is what is noted. -/
theorem foldl_visit_noting (hooks : List Hook) (order : List String) (log : List Telling) (s : ω) :
    order.foldl (a.noting.visit hooks) (log, s) =
      (log ++ a.toldOf hooks order s, order.foldl (a.visit hooks) s) := by
  induction order generalizing log s with
  | nil => exact Prod.ext (List.append_nil log).symm rfl
  | cons node rest ih =>
    rw [List.foldl_cons, visit_noting, ih, toldOf, List.append_assoc]
    rfl

/-- So it is what is told in a sweep. -/
theorem tellings_eq_toldOf (order : List String) (s : ω) :
    a.tellings order s = a.toldOf (a.cache s).hooks order s :=
  congrArg Prod.fst (a.foldl_visit_noting (a.cache s).hooks order [] s)

/-- **Each node is told of as it is when all nodes before it have been visited.** -/
theorem toldOf_eq_flatMap (hooks : List Hook) {order : List String} (horder : order.Nodup) (s : ω) :
    a.toldOf hooks order s = order.flatMap fun node =>
      a.told hooks node ((order.takeWhile (· ≠ node)).foldl (a.visit hooks) s) := by
  induction order generalizing s with
  | nil => rfl
  | cons first rest ih =>
    obtain ⟨hfirst, hrest⟩ := List.nodup_cons.mp horder
    rw [toldOf, ih hrest, List.flatMap_cons, List.takeWhile_cons_of_neg (by simp), List.foldl_nil]
    refine congrArg (a.told hooks first s ++ ·) (List.flatMap_congr fun node hnode => ?_)
    have hne : first ≠ node := fun heq => hfirst (heq ▸ hnode)
    rw [List.takeWhile_cons_of_pos (by simpa using hne), List.foldl_cons]

/-- A sweep is just its tellings. -/
theorem foldl_visit_eq_foldl (hooks : List Hook) (order : List String) (s : ω) :
    order.foldl (a.visit hooks) s = (a.toldOf hooks order s).foldl a.hear s := by
  induction order generalizing s with
  | nil => rfl
  | cons node rest ih =>
    rw [List.foldl_cons, ih, toldOf, List.foldl_append, visit_eq_foldl]

/-! ## How the cache grows -/

/-- A visit lets the cache grow. -/
theorem grows_visit (hooks : List Hook) (s : ω) (node : String) :
    (a.cache s).Grows (a.cache (a.visit hooks s node)) := by
  refine List.foldlRecOn (motive := fun t => (a.cache s).Grows (a.cache t)) hooks _ .refl ?_
  exact fun t ht hook _ => ht.trans (a.grows_tell hook node _ t)

/-- **So does a sweep.** -/
theorem grows_visits (order : List String) (s : ω) :
    (a.cache s).Grows (a.cache (a.visits order s)) := by
  refine List.foldlRecOn (motive := fun t => (a.cache s).Grows (a.cache t)) order _ .refl ?_
  exact fun t ht node _ => ht.trans (a.grows_visit (a.cache s).hooks t node)

/-! ## Looking nodes up -/

/-- **Visits nodes, looking each of them up first.** One that is not known any more is passed over,
the others are counted. -/
def search (hooks : List Hook) : List String → ω → Nat × ω
  | [], s => (0, s)
  | node :: rest, s =>
    match (a.cache s).nodes.get? node with
    | none => search hooks rest s
    | some history =>
      let s := hooks.foldl (fun s hook => a.tell hook node history.summaries s) s
      let (n, s) := search hooks rest s
      (n + 1, s)

/-- None is passed over, as no node is forgotten. -/
theorem search_eq (hooks : List Hook) {order : List String} {s : ω}
    (hknown : ∀ node ∈ order, node ∈ (a.cache s).nodeNames) :
    a.search hooks order s = (order.length, order.foldl (a.visit hooks) s) := by
  induction order generalizing s with
  | nil => rfl
  | cons node rest ih =>
    obtain ⟨hnode, hrest⟩ := List.forall_mem_cons.mp hknown
    obtain ⟨history, hget⟩ := NameTable.mem_names_iff.mp hnode
    have hsummaries : (a.cache s).summaries node = history.summaries := by
      rw [Cache.summaries, hget]
      rfl
    have hvisit : a.visit hooks s node =
        hooks.foldl (fun s hook => a.tell hook node history.summaries s) s := by
      rw [visit, Sweep.visit, hsummaries]
    have hstill : ∀ other ∈ rest, other ∈ (a.cache (a.visit hooks s node)).nodeNames :=
      fun other hother => (a.grows_visit hooks s node).mem_nodeNames (hrest other hother)
    rw [search, hget]
    dsimp only
    rw [← hvisit, ih hstill]
    rfl

/-! ## One sweep and the next -/

/-- **A sweep that what it sets off does not affect.** -/
structure Faithful (order : List String) (s : ω) : Prop where
  /-- Everyone there at the beginning is told of each node, in the order of registration, of what
  the node has when its visit begins, and nobody is told of anything else. -/
  tellings_eq : a.tellings order s = order.flatMap fun node => (a.cache s).hooks.map fun hook =>
    ⟨hook, node, (a.cache (a.visits (order.takeWhile (· ≠ node)) s)).summaries node⟩
  /-- Being told is all that happens. -/
  visits_eq : a.visits order s = (a.tellings order s).foldl a.hear s
  /-- All nodes known at the beginning are found and counted. -/
  search_eq : a.search (a.cache s).hooks order s = ((a.cache s).size, a.visits order s)

/-- A sweep over the nodes known is such a sweep. -/
theorem faithful_of_perm {order : List String} {s : ω}
    (hs : (a.cache s).nodeNames.Pairwise (· < ·)) (horder : order.Perm (a.cache s).nodeNames) :
    a.Faithful order s := by
  have hnodup : order.Nodup := horder.nodup_iff.mpr (NameTable.nodup_names hs)
  have hsize : order.length = (a.cache s).size := by
    rw [horder.length_eq]
    exact List.length_map ..
  refine ⟨?_, ?_, ?_⟩
  · rw [tellings_eq_toldOf, a.toldOf_eq_flatMap (a.cache s).hooks hnodup]
    rfl
  · rw [tellings_eq_toldOf]
    exact a.foldl_visit_eq_foldl (a.cache s).hooks order s
  · rw [a.search_eq (a.cache s).hooks fun node hnode => horder.mem_iff.mp hnode, hsize]
    rfl

/-- **A sweep of a cache that stands alone** finds all nodes known, and counts itself. -/
theorem sweep_eq_search {c : Cache} (h : c.nodeNames.Pairwise (· < ·)) :
    c.sweep = (standing.search c.hooks c.nodeNames c).map id Cache.countSweep := by
  have hsearch : standing.search c.hooks c.nodeNames c =
      (c.size, standing.visits c.nodeNames c) :=
    (standing.faithful_of_perm (s := c) h (.refl _)).search_eq
  rw [hsearch]
  exact Prod.ext (List.length_map ..) rfl

/-- Such a sweep tells everyone there of every node it visits. -/
theorem Faithful.exists_telling {order : List String} {s : ω} (h : a.Faithful order s)
    {hook : Hook} (hhook : hook ∈ (a.cache s).hooks) {node : String} (hnode : node ∈ order) :
    ∃ t ∈ a.tellings order s, t.hook = hook ∧ t.node = node := by
  rw [h.tellings_eq]
  exact ⟨_, List.mem_flatMap.mpr ⟨node, hnode, List.mem_map_of_mem hhook⟩, rfl, rfl⟩

/-- **A sweep tells every hook once of each node, and is not affected by what hooks do**, in
whatever order it visits the nodes known. Those who were there at its beginning are told, in the
order of their registration, of the nodes that were known then, and of what each of them has when
its visit begins. Nothing else happens to the cache or around it, and as many nodes are counted.

Whoever and whatever has come in by its end is seen by the next sweep, even if more has come in
since: that sweep is like the one before, and tells all of them.

The sweep of a cache that stands alone is such a sweep, with its own hooks to be told, and after it
nothing is left but to count it.

That the cache lists its nodes by name is so in an empty one, and stays so as it grows
(`Cache.Grows.ascending`). -/
theorem faithful {order : List String} {s : ω} (hs : (a.cache s).nodeNames.Pairwise (· < ·))
    (horder : order.Perm (a.cache s).nodeNames) :
    a.Faithful order s ∧
      (∀ {t : ω} {later : List String}, (a.cache (a.visits order s)).Grows (a.cache t) →
        later.Perm (a.cache t).nodeNames →
        a.Faithful later t ∧
          ∀ hook ∈ (a.cache (a.visits order s)).hooks,
            ∀ node ∈ (a.cache (a.visits order s)).nodeNames,
              ∃ x ∈ a.tellings later t, x.hook = hook ∧ x.node = node) ∧
      ∀ {c : Cache}, c.nodeNames.Pairwise (· < ·) →
        standing.Faithful c.nodeNames c ∧
          c.sweep = (standing.search c.hooks c.nodeNames c).map id Cache.countSweep := by
  refine ⟨a.faithful_of_perm hs horder, fun {t later} hgrows hlater => ?_,
    fun {c} hc => ⟨standing.faithful_of_perm (s := c) hc (.refl _), sweep_eq_search hc⟩⟩
  have hascending := hgrows.ascending ((a.grows_visits order s).ascending hs)
  have hnext := a.faithful_of_perm hascending hlater
  refine ⟨hnext, fun hook hhook node hnode => ?_⟩
  exact hnext.exists_telling a (hgrows.hooks_isPrefix.subset hhook)
    (hlater.mem_iff.mpr (hgrows.mem_nodeNames hnode))

/-- Whoever is told stores a sample of another node and brings in an observer. -/
def busy (sample : Sample) : Audience (Unit × Cache) :=
  reactive fun _ _ _ _ => ((), [.store "b" (some sample), .register (.observer 0)])

/-- The node and the observer that come in are left out of the sweep that is under way, and taken
into the next one. -/
theorem faithful_busy :
    let sample : Sample := ⟨⟨0, 0, by decide, by decide, by decide⟩, 1, 0, 0⟩
    let c := ((Cache.ofSettings {}).store "a" (some sample)).2.onSweep (.observer 0)
    let s := (busy sample).visits ["a"] ((), c)
    let keys (tellings : List Telling) := tellings.map fun t => (t.hook.key, t.node)
    (busy sample).Faithful ["a"] ((), c) ∧ (busy sample).Faithful ["b", "a"] s ∧
      keys ((busy sample).tellings ["a"] ((), c)) = [(0, "a")] ∧
      keys ((busy sample).tellings ["b", "a"] s) = [(0, "b"), (1, "b"), (0, "a"), (1, "a")] := by
  intro sample c s keys
  have horder : List.Perm ["a"] c.nodeNames := by decide +kernel
  obtain ⟨hsweep, hnext, -⟩ := (busy sample).faithful (s := ((), c)) (by decide +kernel) horder
  exact ⟨hsweep, (hnext .refl (by decide +kernel)).1, by decide +kernel, by decide +kernel⟩

end Audience

end Sweep

end LinkQuality
