import LinkQuality.Cache.Sweep
import LinkQuality.Proofs.Metric.History
import LinkQuality.Proofs.NameTable
import Mathlib.Data.List.Dedup
import Mathlib.Data.List.Perm.Basic

/-!
# What a cache remembers

Whatever else is done with a cache, what can be read from it is settled by the samples that were
stored, node by node (`recalls_after`). A chronicle lists these samples, each with its node, in the
order in which they came. The cache knows the nodes of the chronicle, and of each node the last
samples in it, as many as there is room for.

A store adds one entry to the chronicle or, if it is refused, changes nothing. Everything else
leaves the histories as they are: readings, hooks that store nothing, sweeps by hand and by the
clock, start and stop. So what holds of one call holds of every run of calls, and stopping the
cache is no exception.
-/

namespace LinkQuality

/-! ## Chronicles -/

/-- **The samples stored in a cache**, each with its node, in order. -/
abbrev Chronicle : Type := List (String × Sample)

/-- The samples of one node in a chronicle. -/
def Chronicle.of (log : Chronicle) (node : String) : List Sample :=
  (log.filter (·.1 = node)).map (·.2)

/-- The samples of a node in two chronicles, one after the other. -/
@[simp] theorem Chronicle.of_append (log more : Chronicle) (node : String) :
    Chronicle.of (log ++ more) node = log.of node ++ more.of node := by
  rw [Chronicle.of, List.filter_append, List.map_append]
  rfl

/-- An entry is among the samples of its node. -/
theorem Chronicle.of_singleton_self (node : String) (s : Sample) :
    Chronicle.of [(node, s)] node = [s] := by
  rw [Chronicle.of, List.filter_cons_of_pos (by simp)]
  rfl

/-- An entry is among the samples of no other node. -/
theorem Chronicle.of_singleton_of_ne {node other : String} (h : other ≠ node) (s : Sample) :
    Chronicle.of [(node, s)] other = [] := by
  rw [Chronicle.of, List.filter_cons_of_neg (by simpa using h.symm)]
  rfl

/-- A node has samples in a chronicle if the chronicle mentions it. -/
theorem Chronicle.of_ne_nil_iff {log : Chronicle} {node : String} :
    log.of node ≠ [] ↔ node ∈ log.map (·.1) := by
  rw [Chronicle.of, Ne, List.map_eq_nil_iff, List.filter_eq_nil_iff, List.mem_map]
  simp only [decide_eq_true_eq, not_forall, not_not, exists_prop]

/-! ## Sweeping -/

/-- **What whoever is told keeps, a sweep keeps.** The summaries that are told are those at the
beginning of the visit of their node. -/
theorem Sweep.visits_keeps {ω : Type} {P : ω → Prop} {cache : ω → Cache}
    {tell : Hook → String → List Summary → ω → ω}
    (h : ∀ hook node {s₀ s}, P s₀ → P s → P (tell hook node ((cache s₀).summaries node) s))
    (order : List String) {s : ω} (hs : P s) : P (visits cache tell order s) := by
  unfold visits
  refine List.foldlRecOn order _ hs fun s₀ h₀ node _ => ?_
  unfold visit
  exact List.foldlRecOn (cache s).hooks _ h₀ fun s hs hook _ => h hook node h₀ hs

/-- **States that correspond are swept alike**, if every visit leaves them corresponding. -/
theorem Sweep.visits_hom {ω ω' : Type} {cache : ω → Cache} {cache' : ω' → Cache}
    {tell : Hook → String → List Summary → ω → ω} {tell' : Hook → String → List Summary → ω' → ω'}
    {f : ω → ω'} (hcache : ∀ s, cache' (f s) = cache s)
    (htell : ∀ hook node summaries s,
      tell' hook node summaries (f s) = f (tell hook node summaries s))
    (order : List String) (s : ω) :
    visits cache' tell' order (f s) = f (visits cache tell order s) := by
  rw [visits, visits, hcache]
  refine List.foldl_hom f fun s' node => ?_
  rw [visit, visit, hcache]
  exact List.foldl_hom f fun s'' hook => htell hook node _ s''

namespace Cache

/-! ## Using a cache -/

/-- **A cache that has been used**, from `c` to `c'`: nothing has been stored, and nobody has been
brought in who writes minutes. -/
structure Tended (c c' : Cache) : Prop where
  nodes_eq : c'.nodes = c.nodes
  capacity_eq : c'.capacity = c.capacity
  exists_hooks_eq : ∃ more, c'.hooks = c.hooks ++ more ∧ ∀ hook ∈ more, hook.role ≠ .archivist

/-- Nobody need be brought in. -/
theorem Tended.of_hooks_eq {c c' : Cache} (hn : c'.nodes = c.nodes)
    (hc : c'.capacity = c.capacity) (hh : c'.hooks = c.hooks) : Tended c c' :=
  ⟨hn, hc, [], by rw [hh, List.append_nil], fun _ h => absurd h List.not_mem_nil⟩

theorem Tended.refl (c : Cache) : Tended c c := .of_hooks_eq rfl rfl rfl

theorem Tended.trans {c c' c'' : Cache} (h₁ : Tended c c') (h₂ : Tended c' c'') :
    Tended c c'' := by
  obtain ⟨first, hfirst, hall⟩ := h₁.exists_hooks_eq
  obtain ⟨second, hsecond, hall'⟩ := h₂.exists_hooks_eq
  refine ⟨h₂.nodes_eq.trans h₁.nodes_eq, h₂.capacity_eq.trans h₁.capacity_eq, first ++ second, ?_,
    List.forall_mem_append.mpr ⟨hall, hall'⟩⟩
  rw [hsecond, hfirst, List.append_assoc]

/-- A hook that takes note of a visit brings in an observer at most. -/
theorem tended_witness (c : Cache) (hook : Hook) (node : String) (summaries : List Summary) :
    Tended c (c.witness hook node summaries) := by
  unfold witness
  dsimp only
  split
  · split
    · exact ⟨rfl, rfl, [_], rfl, List.forall_mem_singleton.mpr nofun⟩
    · exact .of_hooks_eq rfl rfl rfl
  · exact .of_hooks_eq rfl rfl rfl

/-- Starting the background sweep is a use. -/
theorem tended_start (c : Cache) : Tended c c.start := by
  unfold start
  split
  · exact .of_hooks_eq rfl rfl rfl
  · split <;> exact .of_hooks_eq rfl rfl rfl

/-- So is ending it. -/
theorem tended_stop (c : Cache) : Tended c c.stop := .of_hooks_eq rfl rfl rfl

/-- So is setting its timer. -/
theorem tended_rearm (now : Nat) (c : Cache) : Tended c (c.rearm now) := by
  unfold rearm
  split <;> exact .of_hooks_eq rfl rfl rfl

/-- **A use of a cache that stores nothing.** -/
structure Errand where
  run : Cache → Cache
  nodes_run : ∀ c, (run c).nodes = c.nodes
  capacity_run : ∀ c, (run c).capacity = c.capacity

/-- A hook takes note of a visit. -/
def Errand.witness (hook : Hook) (node : String) (summaries : List Summary) : Errand where
  run c := c.witness hook node summaries
  nodes_run c := (c.tended_witness hook node summaries).nodes_eq
  capacity_run c := (c.tended_witness hook node summaries).capacity_eq

/-- **A sweep by hand**, the hooks doing what they like short of storing. Gives the number of
nodes visited. -/
def sweepTelling (tell : Hook → String → List Summary → Errand) (c : Cache) : Nat × Cache :=
  let order := c.nodeNames
  let swept := Sweep.visits id (fun hook node ss c => (tell hook node ss).run c) order c
  (order.length, swept.countSweep)

/-- A sweep of hooks that take note is such a sweep. -/
theorem sweep_eq_sweepTelling (c : Cache) : c.sweep = c.sweepTelling Errand.witness := rfl

/-- A sweep stores nothing, if the hooks do not. -/
theorem nodes_sweepTelling (tell : Hook → String → List Summary → Errand) (c : Cache) :
    (c.sweepTelling tell).2.nodes = c.nodes ∧ (c.sweepTelling tell).2.capacity = c.capacity := by
  let P : Cache → Prop := fun c' => c'.nodes = c.nodes ∧ c'.capacity = c.capacity
  have hkeeps : P (Sweep.visits id (fun hook node ss => (tell hook node ss).run) c.nodeNames c) :=
    Sweep.visits_keeps (fun hook node {_ c'} _ h =>
      ⟨((tell hook node _).nodes_run c').trans h.1, ((tell hook node _).capacity_run c').trans h.2⟩)
      c.nodeNames ⟨rfl, rfl⟩
  exact hkeeps

/-- The background sweep stores nothing. -/
theorem nodes_turn? {now : Nat} {c c' : Cache} (h : c.turn? now = some c') :
    c'.nodes = c.nodes ∧ c'.capacity = c.capacity := by
  unfold turn? at h
  split at h
  · obtain rfl := Option.some.inj h
    have hrearm := tended_rearm now (if c.ticks then c.sweep.2 else c)
    rw [hrearm.nodes_eq, hrearm.capacity_eq]
    split
    · exact c.nodes_sweepTelling Errand.witness
    · exact ⟨rfl, rfl⟩
  · exact absurd h nofun

/-- Time that passes stores nothing. -/
theorem nodes_drive (limit fuel now : Nat) (c : Cache) :
    (drive limit fuel now c).nodes = c.nodes ∧ (drive limit fuel now c).capacity = c.capacity := by
  induction fuel generalizing now c with
  | zero => exact ⟨rfl, rfl⟩
  | succ fuel ih =>
    rw [drive]
    split
    next c' h =>
      obtain ⟨hnodes, hcapacity⟩ := nodes_turn? h
      exact ⟨(ih now c').1.trans hnodes, (ih now c').2.trans hcapacity⟩
    next =>
      split
      next t _ =>
        split
        · exact ih t c
        · exact ⟨rfl, rfl⟩
      · exact ⟨rfl, rfl⟩

/-! ## Calls -/

/-- **What a cache can be asked.** -/
inductive Query where
  | get (node : String)
  | summaries (node : String)
  | nodeNames
  | size

/-- **One call of a cache.** -/
inductive Call where
  | store (node : String) (sample : Option Sample)
  | ask (query : Query)
  | sweep (tell : Hook → String → List Summary → Errand)
  | onSweep (role : Role)
  | start
  | stop
  /-- From time `now` on, `span` milliseconds pass. -/
  | elapse (now span : Nat)

/-- The cache after a call. -/
def perform (c : Cache) : Call → Cache
  | .store node sample => (c.store node sample).2
  | .ask _ => c
  | .sweep tell => (c.sweepTelling tell).2
  | .onSweep role => c.onSweep role
  | .start => c.start
  | .stop => c.stop
  | .elapse now span => c.run now span

/-- **The cache after a run of calls.** -/
def after (c : Cache) (calls : List Call) : Cache := calls.foldl perform c

/-- What a store adds to the chronicle: its sample, if it says so. -/
def entries (c : Cache) (node : String) (sample : Option Sample) : Chronicle :=
  match (c.store node sample).1 with
  | .ok () => sample.toList.map (node, ·)
  | .error _ => []

/-- What a call adds to the chronicle. -/
def stored (c : Cache) : Call → Chronicle
  | .store node sample => c.entries node sample
  | _ => []

/-- **The chronicle of a run**: the samples of which a store has said that it took them, in
order. -/
def chronicle : Cache → List Call → Chronicle
  | _, [] => []
  | c, call :: calls => c.stored call ++ (c.perform call).chronicle calls

/-! ### Storing -/

/-- **When a store is refused**: if the sample is about no node, and else if there is none. -/
theorem store_fst (c : Cache) (node : String) (sample : Option Sample) :
    (c.store node sample).1 =
      if node = "" then .error .emptyNode
      else if sample = none then .error .missing
      else .ok () := by
  unfold store
  split
  · rfl
  · cases sample <;> rfl

/-- **A store that is refused changes nothing.** -/
theorem store_of_error {c : Cache} {node : String} {sample : Option Sample} {why : SampleRefusal}
    (h : (c.store node sample).1 = .error why) : (c.store node sample).2 = c := by
  unfold store at h ⊢
  split
  · rfl
  next hnode =>
    rw [if_neg hnode] at h
    cases sample with
    | none => rfl
    | some s => exact absurd h nofun

/-- A store of a sample of a node adds just that to the chronicle. -/
theorem entries_some {node : String} (h : node ≠ "") (c : Cache) (s : Sample) :
    c.entries node (some s) = [(node, s)] := by
  rw [entries, store_fst, if_neg h, if_neg nofun]
  rfl

/-- A store that is refused adds nothing to the chronicle. -/
theorem entries_of_refused {c : Cache} {node : String} {sample : Option Sample}
    (h : node = "" ∨ sample = none) :
    c.entries node sample = [] ∧ (c.store node sample).2 = c := by
  have hrefused : ∃ why, (c.store node sample).1 = .error why := by
    rw [store_fst]
    split
    next => exact ⟨.emptyNode, rfl⟩
    next hnode => exact ⟨.missing, if_pos (h.resolve_left hnode)⟩
  obtain ⟨why, hwhy⟩ := hrefused
  exact ⟨by rw [entries, hwhy], store_of_error hwhy⟩

/-- What a store does to the histories: the one of its node has one more sample. -/
theorem nodes_store {node : String} (h : node ≠ "") (c : Cache) (s : Sample) :
    (c.store node (some s)).2.capacity = c.capacity ∧
      ∃ t : NameTable History, (t = c.nodes ∨ ∃ first, t = c.nodes.insert node first) ∧
        (c.store node (some s)).2.nodes =
          t.insert node (((c.nodes.get? node).getD (.empty c.capacity)).write s).1 := by
  unfold store register
  rw [if_neg h]
  dsimp only
  cases hget : c.nodes.get? node with
  | some old =>
    dsimp only
    split <;> exact ⟨rfl, c.nodes, .inl rfl, rfl⟩
  | none =>
    dsimp only
    split <;> exact ⟨rfl, c.nodes.insert node _, .inr ⟨_, rfl⟩, rfl⟩

/-- After a store, its node has the history it had, or an empty one, with one more sample. -/
theorem get?_store_self {node : String} (h : node ≠ "") (c : Cache) (s : Sample) :
    (c.store node (some s)).2.nodes.get? node =
      some (((c.nodes.get? node).getD (.empty c.capacity)).write s).1 := by
  obtain ⟨-, t, -, heq⟩ := nodes_store h c s
  rw [heq, NameTable.get?_insert_self]

/-- A store leaves the histories of all other nodes. -/
theorem get?_store_of_ne {node other : String} (hne : other ≠ node) (c : Cache)
    (sample : Option Sample) :
    (c.store node sample).2.nodes.get? other = c.nodes.get? other := by
  by_cases hrefused : node = "" ∨ sample = none
  · rw [(entries_of_refused hrefused).2]
  · obtain ⟨hnode, hsample⟩ := not_or.mp hrefused
    obtain ⟨s, rfl⟩ := Option.ne_none_iff_exists'.mp hsample
    obtain ⟨-, t, ht, heq⟩ := nodes_store hnode c s
    rw [heq, NameTable.get?_insert_of_ne hne]
    rcases ht with rfl | ⟨first, rfl⟩
    · rfl
    · exact NameTable.get?_insert_of_ne hne first c.nodes

/-- A store brings in nobody. -/
theorem hooks_store (c : Cache) (node : String) (sample : Option Sample) :
    (c.store node sample).2.hooks = c.hooks := by
  unfold store register
  split
  · rfl
  · cases sample with
    | none => rfl
    | some s => cases c.nodes.get? node <;> (dsimp only; split <;> rfl)

/-- A store keeps the names of the nodes ascending. -/
theorem ascending_store {c : Cache} (h : c.nodeNames.Pairwise (· < ·)) (node : String)
    (sample : Option Sample) : (c.store node sample).2.nodeNames.Pairwise (· < ·) := by
  by_cases hrefused : node = "" ∨ sample = none
  · rw [(entries_of_refused hrefused).2]
    exact h
  · obtain ⟨hnode, hsample⟩ := not_or.mp hrefused
    obtain ⟨s, rfl⟩ := Option.ne_none_iff_exists'.mp hsample
    obtain ⟨-, t, ht, hnodes⟩ := nodes_store hnode c s
    rw [nodeNames, hnodes]
    refine NameTable.pairwise_names_update _ _ _ ?_
    rcases ht with rfl | ⟨first, rfl⟩
    · exact h
    · exact NameTable.pairwise_names_update _ _ _ h

/-- A store forgets no node. -/
theorem mem_nodeNames_store {c : Cache} {known : String} (h : known ∈ c.nodeNames) (node : String)
    (sample : Option Sample) : known ∈ (c.store node sample).2.nodeNames := by
  by_cases hrefused : node = "" ∨ sample = none
  · rwa [(entries_of_refused hrefused).2]
  · obtain ⟨hnode, hsample⟩ := not_or.mp hrefused
    obtain ⟨s, rfl⟩ := Option.ne_none_iff_exists'.mp hsample
    rw [nodeNames, NameTable.mem_names_iff] at h ⊢
    rcases eq_or_ne known node with rfl | hne
    · exact ⟨_, get?_store_self hnode c s⟩
    · rwa [get?_store_of_ne hne]

/-! ## The memory of a cache -/

/-- **A cache remembers a chronicle**: the history of each node is that of its samples. -/
structure Remembers (c : Cache) (log : Chronicle) : Prop where
  get?_eq : ∀ node, c.nodes.get? node =
    if log.of node = [] then none else some (.ofSamples c.capacity (log.of node))
  ascending : c.nodes.names.Pairwise (· < ·)

/-- An empty cache has nothing to remember. -/
theorem remembers_ofSettings (s : CacheSettings) : (ofSettings s).Remembers [] where
  get?_eq _ := rfl
  ascending := List.Pairwise.nil

/-- Where nothing is stored, the same is remembered. -/
theorem Remembers.of_nodes_eq {c c' : Cache} {log : Chronicle} (hc : c.Remembers log)
    (h : c'.nodes = c.nodes ∧ c'.capacity = c.capacity) : c'.Remembers log where
  get?_eq := by
    rw [h.1, h.2]
    exact hc.get?_eq
  ascending := by
    rw [h.1]
    exact hc.ascending

/-- A sample of a node is written to the history of its samples, whether or not the node is
known. -/
theorem Remembers.getD_eq {c : Cache} {log : Chronicle} (hc : c.Remembers log) (node : String) :
    (c.nodes.get? node).getD (.empty c.capacity) = .ofSamples c.capacity (log.of node) := by
  rw [hc.get?_eq]
  split
  next hnil => rw [hnil]; rfl
  next => rfl

/-- **A store is remembered**, unless it is refused. -/
theorem Remembers.store {c : Cache} {log : Chronicle} (hc : c.Remembers log) (node : String)
    (sample : Option Sample) :
    (c.store node sample).2.Remembers (log ++ c.entries node sample) := by
  by_cases hrefused : node = "" ∨ sample = none
  · obtain ⟨hentries, hsame⟩ := entries_of_refused (c := c) hrefused
    rw [hentries, hsame, List.append_nil]
    exact hc
  · obtain ⟨hnode, hsample⟩ := not_or.mp hrefused
    obtain ⟨s, rfl⟩ := Option.ne_none_iff_exists'.mp hsample
    have hcapacity := (nodes_store hnode c s).1
    rw [entries_some hnode]
    refine ⟨fun other => ?_, ascending_store hc.ascending node (some s)⟩
    rw [hcapacity, Chronicle.of_append]
    by_cases hother : other = node
    · rw [hother, get?_store_self hnode, hc.getD_eq, Chronicle.of_singleton_self, if_neg (by simp),
        History.ofSamples_concat]
    · rw [get?_store_of_ne hother, Chronicle.of_singleton_of_ne hother, List.append_nil]
      exact hc.get?_eq other

/-- A store does not change how much there is room for. -/
theorem capacity_store (c : Cache) (node : String) (sample : Option Sample) :
    (c.store node sample).2.capacity = c.capacity := by
  by_cases hrefused : node = "" ∨ sample = none
  · rw [(entries_of_refused hrefused).2]
  · obtain ⟨hnode, hsample⟩ := not_or.mp hrefused
    obtain ⟨s, rfl⟩ := Option.ne_none_iff_exists'.mp hsample
    exact (nodes_store hnode c s).1

/-- **A call is remembered for what it stores**, and does not change how much there is room
for. -/
theorem Remembers.perform {c : Cache} {log : Chronicle} (hc : c.Remembers log) (call : Call) :
    (c.perform call).Remembers (log ++ c.stored call) ∧
      (c.perform call).capacity = c.capacity := by
  cases call with
  | store node sample => exact ⟨hc.store node sample, c.capacity_store node sample⟩
  | ask query => exact ⟨(List.append_nil log).symm ▸ hc, rfl⟩
  | sweep tell =>
    have h := c.nodes_sweepTelling tell
    exact ⟨(List.append_nil log).symm ▸ hc.of_nodes_eq h, h.2⟩
  | onSweep role =>
    have h : (c.onSweep role).nodes = c.nodes ∧ (c.onSweep role).capacity = c.capacity := ⟨rfl, rfl⟩
    exact ⟨(List.append_nil log).symm ▸ hc.of_nodes_eq h, rfl⟩
  | start =>
    have h := c.tended_start
    exact ⟨(List.append_nil log).symm ▸ hc.of_nodes_eq ⟨h.nodes_eq, h.capacity_eq⟩, h.capacity_eq⟩
  | stop =>
    have h : c.stop.nodes = c.nodes ∧ c.stop.capacity = c.capacity := ⟨rfl, rfl⟩
    exact ⟨(List.append_nil log).symm ▸ hc.of_nodes_eq h, rfl⟩
  | elapse now span =>
    have h := nodes_drive (now + span) (2 * span + 3) now c
    exact ⟨(List.append_nil log).symm ▸ hc.of_nodes_eq h, h.2⟩

/-- A run of calls is remembered for what it stores. -/
theorem Remembers.after {c : Cache} {log : Chronicle} (hc : c.Remembers log) (calls : List Call) :
    (c.after calls).Remembers (log ++ c.chronicle calls) ∧
      (c.after calls).capacity = c.capacity := by
  induction calls generalizing c log with
  | nil => exact ⟨(List.append_nil log).symm ▸ hc, rfl⟩
  | cons call calls ih =>
    obtain ⟨hcall, hcapacity⟩ := hc.perform call
    obtain ⟨hcalls, hcapacity'⟩ := ih hcall
    refine ⟨?_, hcapacity'.trans hcapacity⟩
    rw [chronicle, ← List.append_assoc]
    exact hcalls

/-! ## What can be read -/

/-- **A cache recalls a chronicle**, at most `capacity` samples of each node: this is all that can
be read from it. -/
structure Recalls (c : Cache) (capacity : Nat) (log : Chronicle) : Prop where
  get_eq : ∀ node, c.get node = lastOf capacity (log.of node)
  summaries_eq : ∀ node, c.summaries node = summarise (c.get node)
  mem_nodeNames_iff : ∀ node, node ∈ c.nodeNames ↔ log.of node ≠ []
  nodup_nodeNames : c.nodeNames.Nodup
  size_eq : c.size = (log.map (·.1)).dedup.length

/-- The summaries of a node are those of its samples, whether or not the node is known. -/
theorem summaries_eq_summarise_get (c : Cache) (node : String) :
    c.summaries node = summarise (c.get node) := by
  unfold summaries get
  cases c.nodes.get? node <;> rfl

/-- The summaries of a node are those of its history. -/
theorem summaries_of_nodes_eq {c c' : Cache} (h : c'.nodes = c.nodes) (node : String) :
    c'.summaries node = c.summaries node := by
  rw [summaries, summaries, h]

/-- A node that is not known has no summaries. -/
theorem summaries_of_unknown {c : Cache} {node : String} (h : node ∉ c.nodeNames) :
    c.summaries node = [] := by
  have hnone : c.nodes.get? node = none :=
    Option.eq_none_iff_forall_ne_some.mpr fun history hget =>
      h (NameTable.mem_names_iff.mpr ⟨history, hget⟩)
  rw [summaries, hnone]
  rfl

/-- What is remembered can be read. -/
theorem Remembers.recalls {c : Cache} {log : Chronicle} (hc : c.Remembers log) :
    c.Recalls (max c.capacity 1) log := by
  have hknown : ∀ node, node ∈ c.nodeNames ↔ log.of node ≠ [] := by
    intro node
    rw [nodeNames, NameTable.mem_names_iff, hc.get?_eq]
    split
    next hnil => exact ⟨fun ⟨_, h⟩ => absurd h nofun, fun h => absurd hnil h⟩
    next hne => exact ⟨fun _ => hne, fun _ => ⟨_, rfl⟩⟩
  have hnodup : c.nodeNames.Nodup := NameTable.nodup_names hc.ascending
  refine ⟨fun node => ?_, c.summaries_eq_summarise_get, hknown, hnodup, ?_⟩
  · rw [get, hc.get?_eq]
    split
    next hnil =>
      rw [hnil]
      exact (lastOf_of_length_le (Nat.zero_le _)).symm
    next =>
      rw [Option.map_some, Option.getD_some]
      exact History.toList_ofSamples c.capacity (log.of node)
  · have hperm : c.nodeNames.Perm (log.map (·.1)).dedup := by
      rw [List.perm_ext_iff_of_nodup hnodup (List.nodup_dedup _)]
      intro node
      rw [hknown, List.mem_dedup, Chronicle.of_ne_nil_iff]
    rw [← hperm.length_eq]
    exact (List.length_map ..).symm

/-- What is read of a node is not changed by a store of another one. -/
theorem read_store_of_ne {node other : String} (hne : other ≠ node) (c : Cache)
    (sample : Option Sample) :
    let c' := (c.store node sample).2
    c'.get other = c.get other ∧ c'.summaries other = c.summaries other ∧
      (other ∈ c'.nodeNames ↔ other ∈ c.nodeNames) := by
  have hget := get?_store_of_ne hne c sample
  dsimp only
  refine ⟨?_, ?_, ?_⟩
  · rw [get, get, hget]
  · rw [summaries, summaries, hget]
  · rw [nodeNames, nodeNames, NameTable.mem_names_iff, NameTable.mem_names_iff, hget]

/-- The chronicle of a run goes on where it is continued. -/
theorem chronicle_append (c : Cache) (calls later : List Call) :
    c.chronicle (calls ++ later) = c.chronicle calls ++ (c.after calls).chronicle later := by
  induction calls generalizing c with
  | nil => rfl
  | cons call calls ih =>
    rw [List.cons_append, chronicle, ih (c.perform call), chronicle, List.append_assoc]
    rfl

/-- **A cache is a map from nodes to histories.** After every run of calls, stops included, all
that can be read are the last samples of each node, of those stored so far. A store is refused if
the sample is about no node, and else if there is none, and then changes nothing, as do readings.
It is seen at its own node only. Whatever comes later, nothing is taken from the chronicle and no
node is forgotten. The sweep of a cache that stands alone is a call like the others. -/
theorem recalls_after (s : CacheSettings) (calls : List Call) :
    let c := (ofSettings s).after calls
    let log := (ofSettings s).chronicle calls
    c.Recalls (max s.capacity 1) log ∧
      (∀ node sample, (c.store node sample).1 =
        if node = "" then .error .emptyNode
        else if sample = none then .error .missing
        else .ok ()) ∧
      (∀ node sample why, (c.store node sample).1 = .error why →
        (c.store node sample).2 = c) ∧
      (∀ query, c.perform (.ask query) = c) ∧
      (∀ node sample other, other ≠ node →
        let c' := (c.store node sample).2
        c'.get other = c.get other ∧ c'.summaries other = c.summaries other ∧
          (other ∈ c'.nodeNames ↔ other ∈ c.nodeNames)) ∧
      c.sweep.2 = (ofSettings s).after (calls ++ [.sweep Errand.witness]) ∧
      ∀ later, log <+: (ofSettings s).chronicle (calls ++ later) ∧
        ∀ node ∈ c.nodeNames, node ∈ (c.after later).nodeNames := by
  intro c log
  obtain ⟨hremembers, hcapacity⟩ := (remembers_ofSettings s).after calls
  have hremembers : c.Remembers log := hremembers
  have hrecalls : c.Recalls (max s.capacity 1) log := by
    have hroom : c.capacity = s.capacity := hcapacity
    rw [← hroom]
    exact hremembers.recalls
  refine ⟨hrecalls, c.store_fst, fun node sample why => store_of_error, fun query => rfl,
    fun node sample other hne => read_store_of_ne hne c sample, ?_, fun later => ⟨?_, ?_⟩⟩
  · rw [sweep_eq_sweepTelling, after, List.foldl_append]
    rfl
  · rw [chronicle_append]
    exact List.prefix_append ..
  · intro node hnode
    have hlater := (hremembers.after later).1.recalls
    rw [hlater.mem_nodeNames_iff, Chronicle.of_append]
    exact List.append_ne_nil_of_left_ne_nil ((hrecalls.mem_nodeNames_iff node).mp hnode) _

/-- Of three samples of a node a cache for two recalls the last two, also once it is stopped. -/
example :
    let at? (latency : Float) : Option Sample :=
      some ⟨⟨0, 0, by decide, by decide, by decide⟩, latency, 0, 0⟩
    let c := (ofSettings { capacity := 2 }).after
      [.store "b" (at? 1), .store "a" (at? 2), .store "b" (at? 3), .store "" (at? 4), .start,
        .store "b" (at? 5), .stop, .store "c" none]
    (c.get "b").map Sample.latency = [3, 5] ∧ c.nodeNames = ["a", "b"] := by
  decide +kernel

end Cache

end LinkQuality
