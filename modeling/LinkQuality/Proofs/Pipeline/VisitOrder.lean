import LinkQuality.Proofs.Pipeline.Shutdown
import LinkQuality.Proofs.Pipeline.Use

/-!
# The order of the visits

In which order a sweep comes to the nodes is not settled anywhere. Where the queue has room for all
minutes that are due this makes no difference but to the order of the records: the same minutes are
written, and the marks are moved alike. Where there is not room enough, it does matter which node is
visited first. But the queue is filled to the last place all the same, so as many minutes are
written in any order, and of each node the first ones (`sweepIn_order`).

A sweep is therefore looked at twice. The records that come in are those of all minutes due, one
node after the other, cut off where the queue is full (`takes_sweepIn`). A cut may go through the
minutes of one node only, but that does not say how far the mark of each node has moved. That is
read off the visits, each of which writes the first minutes of its own node and moves its own mark
(`Writes`). What the two have in common is the records, and each node finds its own among them again
(`filter_flatMap_node`).
-/

namespace LinkQuality.Pipeline

variable {σ : Type}

/-! ## Visit by visit -/

/-- **What visits have done**, from `p` to `q`: of each node the minutes `written` are in, which are
the first of those that were due, and the mark is at the last of them. -/
structure Writes (order : List String) (reading : String → Timestamp)
    (written : String → List Summary) (p q : Pipeline σ) : Prop where
  written_isPrefix : ∀ node ∈ order, written node <+: p.due (reading node) node
  accepted_eq : q.writer.accepted = p.writer.accepted ++
    order.flatMap fun node => (written node).map (Record.ofSummary node "")
  mark_eq : ∀ node ∈ order, q.marks.get? node =
    ((written node).getLast?.map Summary.time).or (p.marks.get? node)
  mark_of_not_mem : ∀ node ∉ order, q.marks.get? node = p.marks.get? node

/-- **A visit writes the first minutes of its node**, and moves its mark. -/
theorem advances_visit {archivist : Hook} {others : List Hook}
    (harchivist : archivist.role = .archivist) (hothers : ∀ hook ∈ others, hook.role ≠ .archivist)
    (reading : String → Timestamp) (node : String) {p : Pipeline σ} (hw : p.writer.Sound) :
    let q := Sweep.visit Pipeline.cache (react reading) (archivist :: others) p node
    q.writer.Sound ∧ q.cache.nodes = p.cache.nodes ∧
      ∃ written, Advances (reading node) node p q written ∧
        q.writer.accepted = p.writer.accepted ++ written.map (Record.ofSummary node "") := by
  obtain ⟨hwriter, hmarks, hnodes⟩ := visit_parts harchivist hothers reading node p
  obtain ⟨hadvances, hsound, hcache, records, haccepted, -, halone⟩ :=
    advances_persistAmid hw quiet (reading node) node
  dsimp only
  rw [hwriter]
  refine ⟨hsound, hnodes.trans (congrArg Cache.nodes hcache), _,
    ⟨hadvances.written_isPrefix, ?_, ?_⟩, ?_⟩
  · rw [hmarks, hadvances.mark_eq]
  · rw [hmarks]
    exact hadvances.mark_of_ne
  · rw [haccepted, halone fun _ => ⟨[], rfl⟩]

/-- **So do all visits**, one after the other. -/
theorem exists_writes_visits {archivist : Hook} {others : List Hook}
    (harchivist : archivist.role = .archivist) (hothers : ∀ hook ∈ others, hook.role ≠ .archivist)
    {order : List String} (horder : order.Nodup) (reading : String → Timestamp) {p : Pipeline σ}
    (hw : p.writer.Sound) :
    let visit := Sweep.visit Pipeline.cache (react reading) (archivist :: others)
    ∃ written, Writes order reading written p (order.foldl visit p) := by
  induction order generalizing p with
  | nil =>
    exact ⟨fun _ => [], nofun, (List.append_nil _).symm, nofun, fun _ _ => rfl⟩
  | cons node order ih =>
    obtain ⟨hnode, horder⟩ := List.nodup_cons.mp horder
    obtain ⟨hsound, hnodes, first, hfirst, haccepted⟩ :=
      advances_visit harchivist hothers reading node hw
    obtain ⟨later, hlater⟩ := ih horder hsound
    have hne : ∀ other ∈ order, other ≠ node := fun other hother heq => hnode (heq ▸ hother)
    refine ⟨fun other => if other = node then first else later other, ?_, ?_, ?_, ?_⟩
    · refine List.forall_mem_cons.mpr ⟨?_, fun other hother => ?_⟩
      · rw [if_pos rfl]
        exact hfirst.written_isPrefix
      · -- what is due at a node still to be visited has not changed
        rw [if_neg (hne other hother),
          ← due_congr hnodes (hfirst.mark_of_ne other (hne other hother))]
        exact hlater.written_isPrefix other hother
    · have hrest : order.flatMap (fun other => (later other).map (Record.ofSummary other "")) =
          order.flatMap fun other =>
            (if other = node then first else later other).map (Record.ofSummary other "") :=
        List.flatMap_congr fun other hother => by rw [if_neg (hne other hother)]
      rw [List.foldl_cons, hlater.accepted_eq, haccepted, hrest, List.flatMap_cons, if_pos rfl,
        List.append_assoc]
    · refine List.forall_mem_cons.mpr ⟨?_, fun other hother => ?_⟩
      · rw [List.foldl_cons, hlater.mark_of_not_mem node hnode, if_pos rfl, hfirst.mark_eq]
      · rw [List.foldl_cons, hlater.mark_eq other hother, if_neg (hne other hother),
          hfirst.mark_of_ne other (hne other hother)]
    · intro other hother
      obtain ⟨hother, hothers⟩ := not_or.mp (mt List.mem_cons.mpr hother)
      rw [List.foldl_cons, hlater.mark_of_not_mem other hothers, hfirst.mark_of_ne other hother]

/-- So does a sweep. -/
theorem exists_writes_sweepIn {p : Pipeline σ} (hstaffed : p.cache.Staffed) {order : List String}
    (horder : order.Nodup) (reading : String → Timestamp) (hw : p.writer.Sound) :
    ∃ written, Writes order reading written p (p.sweepIn order reading) := by
  obtain ⟨archivist, others, hhooks, harchivist, hothers⟩ := hstaffed
  obtain ⟨written, hvisits⟩ := exists_writes_visits harchivist hothers horder reading hw
  rw [← hhooks] at hvisits
  exact ⟨written, { hvisits with }⟩

/-! ## Node by node -/

/-- **Records of nodes, one after the other, are found again by their node.** -/
theorem filter_flatMap_node {order : List String} (horder : order.Nodup)
    (written : String → List Summary) {node : String} (hnode : node ∈ order) :
    (order.flatMap fun other => (written other).map (Record.ofSummary other "")).filter
        (·.node = node) =
      (written node).map (Record.ofSummary node "") := by
  have hself : ((written node).map (Record.ofSummary node "")).filter (·.node = node) =
      (written node).map (Record.ofSummary node "") := by
    refine List.filter_eq_self.mpr fun r hr => ?_
    obtain ⟨s, -, rfl⟩ := List.mem_map.mp hr
    exact decide_eq_true rfl
  have hother : ∀ other ≠ node,
      ((written other).map (Record.ofSummary other "")).filter (·.node = node) = [] := by
    intro other hne
    refine List.filter_eq_nil_iff.mpr fun r hr => ?_
    obtain ⟨s, -, rfl⟩ := List.mem_map.mp hr
    exact fun heq => hne (of_decide_eq_true heq)
  induction order with
  | nil => exact absurd hnode List.not_mem_nil
  | cons first order ih =>
    obtain ⟨hfirst, horder⟩ := List.nodup_cons.mp horder
    rw [List.flatMap_cons, List.filter_append]
    rcases eq_or_ne first node with rfl | hne
    · have hrest : (order.flatMap fun other =>
          (written other).map (Record.ofSummary other "")).filter (·.node = first) = [] := by
        rw [List.filter_flatMap, List.flatMap_eq_nil_iff]
        exact fun other hmem => hother other fun heq => hfirst (heq ▸ hmem)
      rw [hself, hrest, List.append_nil]
    · rw [hother first hne, List.nil_append]
      exact ih horder ((List.mem_cons.mp hnode).resolve_left hne.symm)

/-! ## In any order -/

/-- Number of the minutes that are due, of all nodes together. -/
def dueCount (p : Pipeline σ) (reading : String → Timestamp) : Nat :=
  (p.cache.nodeNames.map fun node => (p.due (reading node) node).length).sum

/-- In whatever order the nodes are visited, their minutes are as many. -/
theorem length_dueRecords {p : Pipeline σ} {order : List String}
    (horder : order.Perm p.cache.nodeNames) (reading : String → Timestamp) :
    (p.dueRecords order reading).length = p.dueCount reading := by
  rw [dueRecords, List.length_flatMap]
  simp only [List.length_map]
  exact (horder.map _).sum_nat

/-- Of the clock a sweep reads the minute only. -/
theorem sweepIn_congr {reading reading' : String → Timestamp}
    (h : ∀ node, (reading node).minute = (reading' node).minute) (order : List String)
    (p : Pipeline σ) : p.sweepIn order reading = p.sweepIn order reading' := by
  have hreact : (react reading : Hook → String → List Summary → Pipeline σ → Pipeline σ) =
      react reading' := by
    funext hook node summaries q
    unfold react persist
    rw [h node]
  rw [sweepIn, sweepIn, hreact]

/-- **What a sweep has come to**, from `p` to `q`, with the `records` it has brought in. -/
structure Fills (reading : String → Timestamp) (p q : Pipeline σ) (records : List Record) :
    Prop where
  queue_eq : q.writer.queue = p.writer.queue ++ records
  accepted_eq : q.writer.accepted = p.writer.accepted ++ records
  /-- All minutes that are due are in, or the queue is full. -/
  length_eq : records.length = min p.writer.room (p.dueCount reading)
  aggregated : ∀ r ∈ records, r.aggregated = true
  /-- Of each node the first minutes that are due are in, in order, and the mark is at the last of
  them. -/
  exists_written : ∀ node, ∃ written,
    written <+: p.due (reading node) node ∧ written.Pairwise (·.time < ·.time) ∧
      records.filter (·.node = node) = written.map (Record.ofSummary node "") ∧
      q.marks.get? node = (written.getLast?.map Summary.time).or (p.marks.get? node)

/-- **A sweep of an open writer fills its queue**, with the records of the minutes that are due as
far as there is room. -/
theorem fills_sweepIn {p : Pipeline σ} (hw : p.writer.Sound) (hopen : p.writer.closed = false)
    (hstaffed : p.cache.Staffed) (hnodup : p.cache.nodeNames.Nodup) {order : List String}
    (horder : order.Perm p.cache.nodeNames) (reading : String → Timestamp) :
    Fills reading p (p.sweepIn order reading)
      ((p.dueRecords order reading).take p.writer.room) := by
  have horder' : order.Nodup := horder.nodup_iff.mpr hnodup
  have htakes := takes_sweepIn hstaffed horder' reading hw hopen
  obtain ⟨written, hwrites⟩ := exists_writes_sweepIn hstaffed horder' reading hw
  -- the records that come in are those that the visits have written
  have hrecords : (p.dueRecords order reading).take p.writer.room =
      order.flatMap fun node => (written node).map (Record.ofSummary node "") :=
    List.append_cancel_left (htakes.accepted_eq.symm.trans hwrites.accepted_eq)
  refine
    { queue_eq := htakes.queue_eq
      accepted_eq := htakes.accepted_eq
      length_eq := by rw [List.length_take, length_dueRecords horder]
      aggregated := fun r hr => ?_
      exists_written := fun node => ?_ }
  · obtain ⟨node, -, s, -, rfl⟩ := mem_dueRecords.mp (List.mem_of_mem_take hr)
    rfl
  · rw [hrecords]
    by_cases hnode : node ∈ order
    · have hprefix := hwrites.written_isPrefix node hnode
      exact ⟨written node, hprefix, (p.pairwise_due _ node).sublist hprefix.sublist,
        filter_flatMap_node horder' written hnode, hwrites.mark_eq node hnode⟩
    · refine ⟨[], List.nil_prefix, .nil, ?_, hwrites.mark_of_not_mem node hnode⟩
      refine List.filter_eq_nil_iff.mpr fun r hr => ?_
      obtain ⟨other, hother, hr⟩ := List.mem_flatMap.mp hr
      obtain ⟨s, -, rfl⟩ := List.mem_map.mp hr
      exact fun heq => hnode (of_decide_eq_true heq ▸ hother)

/-- **Where there is room for all minutes, each mark moves to the last one that was due.** -/
theorem Fills.mark_eq_of_le_room {reading : String → Timestamp} {p q : Pipeline σ}
    {order : List String} (hnodup : p.cache.nodeNames.Nodup)
    (horder : order.Perm p.cache.nodeNames)
    (h : Fills reading p q ((p.dueRecords order reading).take p.writer.room))
    (hroom : p.dueCount reading ≤ p.writer.room) (node : String) :
    q.marks.get? node =
      ((p.due (reading node) node).getLast?.map Summary.time).or (p.marks.get? node) := by
  obtain ⟨written, hprefix, -, hfilter, hmark⟩ := h.exists_written node
  suffices hall : written = p.due (reading node) node by rw [hmark, hall]
  by_cases hnode : node ∈ order
  · rw [List.take_of_length_le ((length_dueRecords horder reading).trans_le hroom), dueRecords,
      filter_flatMap_node (horder.nodup_iff.mpr hnodup)
        (fun node => p.due (reading node) node) hnode] at hfilter
    have hlength := congrArg List.length hfilter
    rw [List.length_map, List.length_map] at hlength
    exact hprefix.eq_of_length hlength.symm
  · -- of a node that is not known no minute is due
    have hnone : p.due (reading node) node = [] :=
      List.eq_nil_iff_forall_not_mem.mpr fun _ hs =>
        hnode (horder.mem_iff.mpr (mem_nodeNames_of_mem_due hs))
    rw [hnone] at hprefix ⊢
    exact List.prefix_nil.mp hprefix

/-- **What a sweep writes does not depend on the order of the visits**, as far as there is room. In
every state of a pipeline that keeps minutes, as long as its writer is open, and in any two orders
in which a sweep may visit the nodes within a minute:

* As many minutes are written as there is room for in the queue, or all that are due.
* Of each node the first ones are written, in order, and its mark moves to the last of them.
* If there is room for all that are due, the queue comes to hold the same records, and the marks are
  the same. -/
theorem sweepIn_order (c : CacheSettings) (s : WriterSettings) (store : Store σ) (state : σ)
    (uses : List (Use σ)) (order order' : List String) (reading reading' : String → Timestamp) :
    let p := (ofSettings { c with persistAggregates := true } s store state).afterUses uses
    let q := p.sweepIn order reading
    let q' := p.sweepIn order' reading'
    p.writer.closed = false → order.Perm p.cache.nodeNames → order'.Perm p.cache.nodeNames →
      (∀ node, (reading node).minute = (reading' node).minute) →
      ∃ records records', Fills reading p q records ∧ Fills reading p q' records' ∧
        records.length = records'.length ∧
        (p.dueCount reading ≤ p.writer.room →
          records.Perm records' ∧ q.writer.queue.Perm q'.writer.queue ∧
            ∀ node, q.marks.get? node = q'.marks.get? node) := by
  intro p q q' hopen horder horder' hminute
  have hp : p.Arisen { c with persistAggregates := true } s store state :=
    arisen_afterUses _ s store state uses
  obtain ⟨log, hlog⟩ := hp.exists_remembers
  have hnodup := hlog.recalls.nodup_nodeNames
  have hstaffed := (hp.archiving rfl).staffed
  have hsound := Writer.Sound.of_reaches hp.reaches
  have hfills : Fills reading p q _ := fills_sweepIn hsound hopen hstaffed hnodup horder reading
  have hfills' : Fills reading p q' ((p.dueRecords order' reading).take p.writer.room) := by
    have hsame : q' = p.sweepIn order' reading := (sweepIn_congr hminute order' p).symm
    rw [hsame]
    exact fills_sweepIn hsound hopen hstaffed hnodup horder' reading
  refine ⟨_, _, hfills, hfills', hfills.length_eq.trans hfills'.length_eq.symm, fun hroom => ?_⟩
  have hall : ∀ {any : List String}, any.Perm p.cache.nodeNames →
      (p.dueRecords any reading).take p.writer.room = p.dueRecords any reading := fun hany =>
    List.take_of_length_le ((length_dueRecords hany reading).trans_le hroom)
  have hrecords : ((p.dueRecords order reading).take p.writer.room).Perm
      ((p.dueRecords order' reading).take p.writer.room) := by
    rw [hall horder, hall horder']
    exact (horder.trans horder'.symm).flatMap_right _
  refine ⟨hrecords, ?_, fun node => ?_⟩
  · rw [hfills.queue_eq, hfills'.queue_eq]
    exact hrecords.append_left _
  · rw [hfills.mark_eq_of_le_room hnodup horder hroom,
      hfills'.mark_eq_of_le_room hnodup horder' hroom]

/-- A sample of each of two nodes. -/
def oneEach (sample : Sample) : List (Use Unit) :=
  [.call (.act (.ingest "a" "p" sample)), .call (.act (.ingest "b" "p" sample))]

/-- A queue for four records has room for both minutes. Which of them comes first depends on the
order of the visits, and nothing else does. -/
theorem sweepIn_order_oneEach :
    let p := (ofSettings { persistAggregates := true } { queueCapacity := 4 } Store.prompt
      ()).afterUses (oneEach (sampleAt 1))
    let q := p.sweepIn ["a", "b"] fun _ => bothOver
    let q' := p.sweepIn ["b", "a"] fun _ => bothOver
    q.writer.queue.map Record.node = ["a", "b", "a", "b"] ∧
      q'.writer.queue.map Record.node = ["a", "b", "b", "a"] ∧
      q.writer.queue.Perm q'.writer.queue ∧ ∀ node, q.marks.get? node = q'.marks.get? node := by
  have hswap : ["b", "a"].Perm ["a", "b"] := .swap "a" "b" []
  obtain ⟨records, records', -, -, -, hall⟩ := sweepIn_order {} { queueCapacity := 4 } Store.prompt
    () (oneEach (sampleAt 1)) ["a", "b"] ["b", "a"] (fun _ => bothOver) (fun _ => bothOver)
    (by decide +kernel) (.of_eq (by decide +kernel)) (hswap.trans (.of_eq (by decide +kernel)))
    (fun _ => rfl)
  obtain ⟨-, hqueue, hmarks⟩ := hall (by decide +kernel)
  exact ⟨by decide +kernel, by decide +kernel, hqueue, hmarks⟩

end LinkQuality.Pipeline
