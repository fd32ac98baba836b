import LinkQuality.Proofs.Pipeline.Act
import LinkQuality.Proofs.Pipeline.Deferral
import LinkQuality.Proofs.Writer.Accounts

/-!
# The last sweep

When a pipeline is stopped it is swept a last time, and then the writer is. The sweep writes the
minutes that are due, node after node, and nobody takes anything out of the queue meanwhile. So the
writer takes as many of them as the queue has room for, in the order of the visits, and turns the
others away (`takes_sweepIn`). What it has taken it hands to a flush before it comes to rest.

A minute that is turned away is put off until the next sweep, but after the last one there is none.
So a stop writes all the minutes that are due exactly if the queue has room for all of them when
the last sweep begins (`stopIn_persists_iff`).
-/

namespace LinkQuality

namespace Writer

variable {σ : Type}

/-! ## Records offered one after the other -/

/-- How many more records the queue has room for. -/
def room (w : Writer σ) : Nat := w.limits.capacity - w.queue.length

/-- **A writer is offered records one after the other**, with nobody taking any out of the queue:
it takes as many as there is room for. -/
structure Takes (records : List Record) (w w' : Writer σ) : Prop where
  sound : w'.Sound
  closed_eq : w'.closed = false
  limits_eq : w'.limits = w.limits
  queue_eq : w'.queue = w.queue ++ records.take w.room
  accepted_eq : w'.accepted = w.accepted ++ records.take w.room

theorem Takes.nil {w : Writer σ} (hw : w.Sound) (hc : w.closed = false) : Takes [] w w where
  sound := hw
  closed_eq := hc
  limits_eq := rfl
  queue_eq := by rw [List.take_nil, List.append_nil]
  accepted_eq := by rw [List.take_nil, List.append_nil]

/-- What has been taken leaves that much less room. -/
theorem Takes.room_eq {records : List Record} {w w' : Writer σ} (h : Takes records w w') :
    w'.room = w.room - records.length := by
  rw [room, h.limits_eq, h.queue_eq, List.length_append, List.length_take, room]
  omega

theorem Takes.append {first second : List Record} {w w' w'' : Writer σ} (h₁ : Takes first w w')
    (h₂ : Takes second w' w'') : Takes (first ++ second) w w'' where
  sound := h₂.sound
  closed_eq := h₂.closed_eq
  limits_eq := h₂.limits_eq.trans h₁.limits_eq
  queue_eq := by
    rw [h₂.queue_eq, h₁.queue_eq, h₁.room_eq, List.take_append, List.append_assoc]
  accepted_eq := by
    rw [h₂.accepted_eq, h₁.accepted_eq, h₁.room_eq, List.take_append, List.append_assoc]

/-- Where there is no room, it makes no difference what is offered. -/
theorem Takes.of_room_eq_zero {records other : List Record} {w w' : Writer σ}
    (h : Takes records w w') (hr : w.room = 0) : Takes other w w' :=
  { h with
    queue_eq := by rw [h.queue_eq, hr, List.take_zero, List.take_zero]
    accepted_eq := by rw [h.accepted_eq, hr, List.take_zero, List.take_zero] }

/-- It makes no difference what the operator is told either. -/
theorem Takes.tell {records : List Record} {w w' : Writer σ} (h : Takes records w w') (n : Notice)
    (hn : ∀ lost, n ≠ .consumerFailed lost) : Takes records w (w'.tell n) where
  sound := h.sound.step (.announce n hn)
  closed_eq := h.closed_eq
  limits_eq := h.limits_eq
  queue_eq := h.queue_eq
  accepted_eq := h.accepted_eq

/-- **An open writer takes a record exactly if there is room.** -/
theorem takes_write {w w' : Writer σ} (hw : w.Sound) (hc : w.closed = false) {record : Record}
    {result : Except RecordRefusal Unit} (h : w.write (some record) = (result, w')) :
    Takes [record] w w' ∧ (result.isOk = false → w.room = 0) := by
  obtain ⟨hsound, haccepted⟩ := accepted_write hw h
  unfold write at h
  dsimp only at h
  rw [if_neg (by simp [hc])] at h
  split at h
  next hroom =>
    obtain ⟨rfl, rfl⟩ := Prod.mk.inj h
    have htake : [record].take w.room = [record] := by
      refine List.take_of_length_le ?_
      rw [room, List.length_singleton]
      omega
    refine ⟨⟨hsound, hc, rfl, ?_, ?_⟩, nofun⟩
    · rw [htake]
      rfl
    · rw [htake]
      exact haccepted
  next hfull =>
    obtain ⟨rfl, rfl⟩ := Prod.mk.inj h
    have hroom : w.room = 0 := Nat.sub_eq_zero_of_le (Nat.le_of_not_lt hfull)
    refine ⟨⟨hsound, hc, rfl, ?_, ?_⟩, fun _ => hroom⟩
    · rw [hroom, List.take_zero, List.append_nil]
      rfl
    · rw [hroom]
      exact haccepted

/-! ## After the stop -/

/-- **A stop that has run to its end has handed over all that was accepted.** -/
theorem Returned.handedOver_eq {s : WriterSettings} {store : Store σ} {state : σ} {w : Writer σ}
    (hr : w.Returned) (h : Reaches (ofSettings s store state) w) : w.handedOver = w.accepted := by
  have hidle := (hr.idle h).1
  rw [backlog, (Sound.of_reaches h).inFlight_eq] at hidle
  have hqueue : w.queue = [] := List.length_eq_zero_iff.mp (by omega)
  have hbatch : w.batch = [] := List.length_eq_zero_iff.mp (by omega)
  rw [← accepted_of_reaches h, hqueue, hbatch, List.append_nil, List.append_nil]

end Writer

namespace Pipeline

variable {σ : Type}

/-! ## What a sweep writes -/

/-- The minutes of a node that are due depend on its history and its mark. -/
theorem due_congr {p q : Pipeline σ} {node : String} (hn : q.cache.nodes = p.cache.nodes)
    (hm : q.marks.get? node = p.marks.get? node) (reading : Timestamp) :
    q.due reading node = p.due reading node := by
  rw [due, due, Cache.summaries_of_nodes_eq hn, hm]

/-- **The records of the minutes that are due**, in the order of the visits. -/
def dueRecords (p : Pipeline σ) (order : List String) (reading : String → Timestamp) :
    List Record :=
  order.flatMap fun node => (p.due (reading node) node).map (Record.ofSummary node "")

/-- They depend on the histories, and on the marks of the nodes that are visited. -/
theorem dueRecords_congr {p q : Pipeline σ} {order : List String}
    (hn : q.cache.nodes = p.cache.nodes)
    (hm : ∀ node ∈ order, q.marks.get? node = p.marks.get? node)
    (reading : String → Timestamp) : q.dueRecords order reading = p.dueRecords order reading := by
  refine List.flatMap_congr fun node hnode => ?_
  rw [due_congr hn (hm node hnode)]

/-- Minutes are offered to the writer one after the other, and after one that is turned away
nothing would be taken anyway. -/
theorem takes_persistMinutes (node : String) (current : Timestamp) (mark : Option Timestamp)
    (summaries : List Summary) (newest : Option Timestamp) {w : Writer σ} (hw : w.Sound)
    (hc : w.closed = false) :
    Writer.Takes ((summaries.filter (isEligible current mark)).map (Record.ofSummary node "")) w
      (persistMinutes node current mark summaries newest w).2 := by
  induction summaries generalizing newest w with
  | nil => exact .nil hw hc
  | cons s rest ih =>
    rw [persistMinutes]
    split
    next heligible =>
      rw [List.filter_cons_of_pos heligible, List.map_cons]
      rcases hwrite : w.write (some (.ofSummary node "" s)) with ⟨_ | _, w'⟩
      · obtain ⟨htakes, hroom⟩ := Writer.takes_write hw hc hwrite
        exact (htakes.tell _ Notice.deferring_ne_consumerFailed).of_room_eq_zero (hroom rfl)
      · obtain ⟨htakes, -⟩ := Writer.takes_write hw hc hwrite
        exact htakes.append (ih (some s.time) htakes.sound htakes.closed_eq)
    next heligible =>
      rw [List.filter_cons_of_neg heligible]
      exact ih newest hw hc

/-- Those who only take note leave writer, marks and histories. -/
theorem foldl_observers (reading : String → Timestamp) (node : String) (summaries : List Summary)
    {hooks : List Hook} (h : ∀ hook ∈ hooks, hook.role ≠ .archivist) (p : Pipeline σ) :
    let q := hooks.foldl (fun q hook => react reading hook node summaries q) p
    q.writer = p.writer ∧ q.marks = p.marks ∧ q.cache.nodes = p.cache.nodes := by
  let P : Pipeline σ → Prop := fun q =>
    q.writer = p.writer ∧ q.marks = p.marks ∧ q.cache.nodes = p.cache.nodes
  refine List.foldlRecOn (motive := P) hooks _ ⟨rfl, rfl, rfl⟩ fun q hq hook hhook => ?_
  unfold react
  split
  next hrole => exact absurd hrole (h hook hhook)
  next => exact ⟨hq.1, hq.2.1, (q.cache.tended_witness hook node summaries).nodes_eq.trans hq.2.2⟩

/-- **What a visit does is done by the hook that writes minutes**: the others leave writer, marks
and histories as that has left them. -/
theorem visit_parts {archivist : Hook} {others : List Hook}
    (harchivist : archivist.role = .archivist) (hothers : ∀ hook ∈ others, hook.role ≠ .archivist)
    (reading : String → Timestamp) (node : String) (p : Pipeline σ) :
    let q := Sweep.visit Pipeline.cache (react reading) (archivist :: others) p node
    let visited := (p.persistAmid quiet (reading node) node).2
    q.writer = visited.writer ∧ q.marks = visited.marks ∧
      q.cache.nodes = visited.cache.nodes := by
  have hfirst : react reading archivist node (p.cache.summaries node) p =
      (p.persistAmid quiet (reading node) node).2 := by
    unfold react
    rw [harchivist]
    exact p.persist_eq_persistAmid (reading node) node
  unfold Sweep.visit
  dsimp only
  rw [List.foldl_cons, hfirst]
  exact foldl_observers reading node (p.cache.summaries node) hothers _

/-- **A visit offers the writer the minutes of its node that are due**, and moves no other mark. -/
theorem takes_visit {archivist : Hook} {others : List Hook}
    (harchivist : archivist.role = .archivist) (hothers : ∀ hook ∈ others, hook.role ≠ .archivist)
    (reading : String → Timestamp) (node : String) {p : Pipeline σ} (hw : p.writer.Sound)
    (hc : p.writer.closed = false) :
    let q := Sweep.visit Pipeline.cache (react reading) (archivist :: others) p node
    Writer.Takes ((p.due (reading node) node).map (Record.ofSummary node "")) p.writer q.writer ∧
      (∀ other ≠ node, q.marks.get? other = p.marks.get? other) ∧
      q.cache.nodes = p.cache.nodes := by
  obtain ⟨hwriter, hmarks, hnodes⟩ := visit_parts harchivist hothers reading node p
  obtain ⟨hadvances, -, hcache, -⟩ := advances_persistAmid hw quiet (reading node) node
  dsimp only
  rw [hwriter, hmarks, hnodes]
  refine ⟨?_, hadvances.mark_of_ne, congrArg Cache.nodes hcache⟩
  rw [← persist_eq_persistAmid, (persist_parts _ _ _ p).2.2, ← filter_isEligible]
  exact takes_persistMinutes _ _ _ _ _ hw hc

/-- Visits offer the writer the minutes that are due, node after node. -/
theorem takes_visits {archivist : Hook} {others : List Hook}
    (harchivist : archivist.role = .archivist) (hothers : ∀ hook ∈ others, hook.role ≠ .archivist)
    {order : List String} (horder : order.Nodup) (reading : String → Timestamp) {p : Pipeline σ}
    (hw : p.writer.Sound) (hc : p.writer.closed = false) :
    let visit := Sweep.visit Pipeline.cache (react reading) (archivist :: others)
    Writer.Takes (p.dueRecords order reading) p.writer (order.foldl visit p).writer := by
  induction order generalizing p with
  | nil => exact .nil hw hc
  | cons node order ih =>
    obtain ⟨hnode, horder⟩ := List.nodup_cons.mp horder
    obtain ⟨htakes, hmarks, hnodes⟩ := takes_visit harchivist hothers reading node hw hc
    have hlater := ih horder htakes.sound htakes.closed_eq
    -- this visit changes nothing about what is due at the nodes still to be visited
    have hothermarks := fun other hother => hmarks other fun heq => hnode (heq ▸ hother)
    rw [dueRecords_congr hnodes hothermarks] at hlater
    exact htakes.append hlater

/-- **A sweep offers the writer all minutes that are due**, node after node. -/
theorem takes_sweepIn {p : Pipeline σ} (hstaffed : p.cache.Staffed) {order : List String}
    (horder : order.Nodup) (reading : String → Timestamp) (hw : p.writer.Sound)
    (hc : p.writer.closed = false) :
    Writer.Takes (p.dueRecords order reading) p.writer (p.sweepIn order reading).writer := by
  obtain ⟨archivist, others, hhooks, harchivist, hothers⟩ := hstaffed
  have hvisits := takes_visits harchivist hothers horder reading hw hc
  rw [← hhooks] at hvisits
  exact hvisits

/-! ## Minutes that are due are new -/

/-- The records of the minutes that are due. -/
theorem mem_dueRecords {p : Pipeline σ} {order : List String} {reading : String → Timestamp}
    {r : Record} :
    r ∈ p.dueRecords order reading ↔
      ∃ node ∈ order, ∃ s ∈ p.due (reading node) node, .ofSummary node "" s = r := by
  simp only [dueRecords, List.mem_flatMap, List.mem_map]

/-- A node of which a minute is due is known. -/
theorem mem_nodeNames_of_mem_due {p : Pipeline σ} {reading : Timestamp} {node : String}
    {s : Summary} (h : s ∈ p.due reading node) : node ∈ p.cache.nodeNames := by
  by_contra hunknown
  have hs := (List.mem_filter.mp h).1
  rw [Cache.summaries_of_unknown hunknown] at hs
  exact absurd hs List.not_mem_nil

/-- **No minute that is due has been written**: the mark of its node has not come to it. -/
theorem Ordered.not_mem_accepted {p : Pipeline σ} (hp : p.Ordered) {reading : Timestamp}
    {node : String} {s : Summary} (h : s ∈ p.due reading node) :
    Record.ofSummary node "" s ∉ p.writer.accepted := by
  intro hmem
  obtain ⟨m, hm, hle⟩ := hp.le_mark _ (List.mem_filter.mpr ⟨hmem, rfl⟩)
  have hlater := (mem_map_time_due.mp (List.mem_map_of_mem h)).2.2 m hm
  exact Timestamp.lt_irrefl _ (Timestamp.lt_of_lt_of_le hlater hle)

/-- No minute is due twice. -/
theorem nodup_dueRecords {order : List String} (h : order.Nodup) (reading : String → Timestamp)
    (p : Pipeline σ) : (p.dueRecords order reading).Nodup := by
  refine List.nodup_flatMap.mpr ⟨fun node _ => ?_, h.imp fun {a b} hne r ha hb => ?_⟩
  · refine List.pairwise_map.mpr ((p.pairwise_due (reading node) node).imp fun {s t} hlt heq => ?_)
    have htime : s.time = t.time := congrArg Record.time heq
    rw [htime] at hlt
    exact Timestamp.lt_irrefl _ hlt
  · obtain ⟨s, -, rfl⟩ := List.mem_map.mp ha
    obtain ⟨t, -, heq⟩ := List.mem_map.mp hb
    exact hne (congrArg Record.node heq).symm

/-- All entries of a list without repetitions are among the first ones exactly if there are no
more. -/
theorem forall_mem_take_iff {α : Type} {l : List α} (h : l.Nodup) {n : Nat} :
    (∀ a ∈ l, a ∈ l.take n) ↔ l.length ≤ n := by
  refine ⟨fun hall => ?_, fun hle a ha => by rwa [List.take_of_length_le hle]⟩
  have hdrop : l.drop n = [] := by
    refine List.eq_nil_iff_forall_not_mem.mpr fun a ha => ?_
    exact List.disjoint_take_drop h (Nat.le_refl n) (hall a (List.mem_of_mem_drop ha)) ha
  exact List.drop_eq_nil_iff.mp hdrop

/-! ## Stopping -/

/-- **A stop whose last sweep visits the nodes in a given order**, with `reading` on the clock. -/
def stopIn (order : List String) (reading : String → Timestamp) (now : Nat) (p : Pipeline σ) :
    Nat × Pipeline σ :=
  let q := (p.beforeLastSweep now).sweepIn order reading
  let (now, writer) := q.writer.stop now
  (now, { q with writer })

/-- What is done before the last sweep leaves the nodes that are known, and the writer open. -/
theorem beforeLastSweep_parts (now : Nat) (p : Pipeline σ) :
    (p.beforeLastSweep now).cache.nodeNames = p.cache.nodeNames ∧
      (p.beforeLastSweep now).persists = p.persists ∧
      (p.beforeLastSweep now).writer.closed = p.writer.closed := by
  unfold beforeLastSweep
  dsimp only
  split
  · exact ⟨rfl, rfl, Writer.closed_run now 0 p.writer⟩
  · exact ⟨rfl, rfl, rfl⟩

/-- A stop of a pipeline that keeps minutes is one of these. -/
theorem stop_eq_stopIn {p : Pipeline σ} (h : p.persists = true) (now : Nat) (reading : Timestamp) :
    p.stop now reading = p.stopIn p.cache.nodeNames (fun _ => reading) now := by
  obtain ⟨hnames, hpersists, -⟩ := p.beforeLastSweep_parts now
  have hstop : p.stop now reading =
      let q := p.beforeLastSweep now
      let r := if q.persists then (q.sweep reading).2 else q
      ((r.writer.stop now).1, { r with writer := (r.writer.stop now).2 }) := rfl
  rw [hstop]
  dsimp only
  rw [hpersists, if_pos h, sweep, hnames]
  rfl

/-- **After the last sweep the writer hands over what it has taken**, and takes nothing more. -/
theorem accepted_stop_sweepIn {s : WriterSettings} {store : Store σ} {state : σ} {q : Pipeline σ}
    (hq : Writer.Reaches (.ofSettings s store state) q.writer) (hstaffed : q.cache.Staffed)
    {order : List String} (horder : order.Nodup) (reading : String → Timestamp) (now : Nat)
    (hopen : q.writer.closed = false) :
    let w := ((q.sweepIn order reading).writer.stop now).2
    (∀ l ∈ w.settled, l.trigger = .drain → l.fate ≠ .lost) →
      w.handedOver = w.accepted ∧
        w.accepted = q.writer.accepted ++ (q.dueRecords order reading).take q.writer.room := by
  have htakes := takes_sweepIn hstaffed horder reading (Writer.Sound.of_reaches hq) hopen
  have hswept := hq.trans (reaches_sweepIn order reading q)
  generalize (q.sweepIn order reading).writer = w at htakes hswept
  intro w' hdrained
  have hreturned : w'.Returned :=
    ⟨(Writer.stop_atRest htakes.sound htakes.closed_eq now).1, hdrained⟩
  refine ⟨hreturned.handedOver_eq (hswept.trans (Writer.reaches_stop now w)), ?_⟩
  obtain ⟨moves, hstop⟩ := Writer.exists_stop_eq now w
  have hstop : w' = w.afterMoves moves := hstop
  rw [hstop, Writer.afterMoves, Writer.accepted_after htakes.sound, Writer.admitted_moves,
    List.append_nil]
  exact htakes.accepted_eq

/-- **All minutes that are due are among the first ones written exactly if there are no more.** -/
theorem Ordered.forall_due_iff {q : Pipeline σ} (hq : q.Ordered) {order : List String}
    (horder : order.Perm q.cache.nodeNames) (hnodup : order.Nodup) (reading : String → Timestamp)
    (n : Nat) :
    (∀ node, ∀ s ∈ q.due (reading node) node, .ofSummary node "" s ∈
        q.writer.accepted ++ (q.dueRecords order reading).take n) ↔
      (q.dueRecords order reading).length ≤ n := by
  constructor
  · intro hall
    refine (forall_mem_take_iff (q.nodup_dueRecords hnodup reading)).mp fun record hrecord => ?_
    obtain ⟨node, -, s, hs, rfl⟩ := mem_dueRecords.mp hrecord
    exact (List.mem_append.mp (hall node s hs)).resolve_left (hq.not_mem_accepted hs)
  · intro hroom node s hs
    have hnode : node ∈ order := horder.mem_iff.mpr (mem_nodeNames_of_mem_due hs)
    rw [List.take_of_length_le hroom]
    exact List.mem_append_right _ (mem_dueRecords.mpr ⟨node, hnode, s, hs, rfl⟩)

/-- **A stop writes all the minutes that are due exactly if the queue has room for all of them**
when the last sweep begins. In any case it writes the first of them, in the order of the visits, as
many as there is room for, and all that was accepted has been handed to a flush when the stop has
run to its end. -/
theorem stopIn_persists_iff (c : CacheSettings) (s : WriterSettings) (store : Store σ) (state : σ)
    (acts : List (Act σ)) (order : List String) (reading : String → Timestamp) (now : Nat) :
    let p := (ofSettings { c with persistAggregates := true } s store state).afterActs acts
    let q := p.beforeLastSweep now
    let r := (p.stopIn order reading now).2
    let records := q.dueRecords order reading
    (∀ shown, p.stop now shown = p.stopIn p.cache.nodeNames (fun _ => shown) now) ∧
      (p.writer.closed = false → order.Perm p.cache.nodeNames →
        (∀ l ∈ r.writer.settled, l.trigger = .drain → l.fate ≠ .lost) →
        r.writer.handedOver = r.writer.accepted ∧
          r.writer.accepted = q.writer.accepted ++ records.take q.writer.room ∧
          ((∀ node, ∀ s ∈ q.due (reading node) node,
              .ofSummary node "" s ∈ r.writer.handedOver) ↔
            records.length ≤ q.writer.room)) := by
  intro p q r records
  have hp : Engages (ofSettings { c with persistAggregates := true } s store state) p :=
    ⟨acts, rfl⟩
  have hq := hp.trans (p.engages_beforeLastSweep now)
  have hkeeps := archiving_ofSettings c s store state
  refine ⟨stop_eq_stopIn (hp.keeps Archiving.act hkeeps).persists_eq now,
    fun hopen hperm hdrained => ?_⟩
  obtain ⟨hnames, -, hclosed⟩ := p.beforeLastSweep_parts now
  have hnodup : order.Nodup :=
    hperm.nodup_iff.mpr (recalls_afterActs _ s store state acts).nodup_nodeNames
  obtain ⟨deeds, hdeeds⟩ := hq.exists_deeds
  have hordered := (archived_after_ordered
    (ordered_ofSettings { c with persistAggregates := true } s store state) deeds).1
  have hreaches := reaches_after deeds
    (ofSettings { c with persistAggregates := true } s store state)
  rw [← hdeeds] at hordered hreaches
  obtain ⟨hhanded, haccepted⟩ := accepted_stop_sweepIn hreaches
    (hq.keeps Archiving.act hkeeps).staffed hnodup reading now (hclosed.trans hopen) hdrained
  have hhanded : r.writer.handedOver = r.writer.accepted := hhanded
  have haccepted : r.writer.accepted = q.writer.accepted ++ records.take q.writer.room := haccepted
  refine ⟨hhanded, haccepted, ?_⟩
  rw [hhanded, haccepted]
  exact hordered.forall_due_iff (hnames.symm ▸ hperm) hnodup reading q.writer.room

/-- A sample at the start of a minute of the first hour. -/
def sampleAt (minute : Fin 60) : Sample where
  time := .ofSecond (60 * minute.val) (by omega) (by have := minute.isLt; omega)
  latency := 1
  loss := 0
  jitter := 0

/-- Two samples of one node in two minutes. The consumer hands over the first one before the second
one comes, and the second one too. -/
def oneByOne : List (Act Unit) :=
  let turns : List (Act Unit) := .replicate 6 (.move (.turn 0))
  .move .start :: .ingest "a" "p" (sampleAt 1) :: turns ++ .ingest "a" "p" (sampleAt 2) :: turns

/-- Both minutes are over. -/
def bothOver : Timestamp := (sampleAt 3).time

/-- A queue for two records has room for both minutes, and a stop writes them. -/
theorem stopIn_persists_both :
    let p := (ofSettings { persistAggregates := true } { queueCapacity := 2, batchSize := 1 }
      Store.prompt ()).afterActs oneByOne
    let q := p.beforeLastSweep 0
    (q.dueRecords ["a"] fun _ => bothOver).length = 2 ∧
      ∀ node, ∀ s ∈ q.due bothOver node, .ofSummary node "" s ∈
        (p.stopIn ["a"] (fun _ => bothOver) 0).2.writer.handedOver := by
  obtain ⟨-, hstop⟩ := stopIn_persists_iff {} { queueCapacity := 2, batchSize := 1 } Store.prompt ()
    oneByOne ["a"] (fun _ => bothOver) 0
  have hall := hstop (by decide +kernel) (.of_eq (by decide +kernel)) (by decide +kernel)
  exact ⟨by decide +kernel, hall.2.2.mpr (by decide +kernel)⟩

/-- **A queue for one record has room for one of them**, although it is empty when the last sweep
begins. The other minute is due too, and no record of it is ever accepted. -/
theorem not_persisted_for_lack_of_room :
    let p := (ofSettings { persistAggregates := true } { queueCapacity := 1, batchSize := 1 }
      Store.prompt ()).afterActs oneByOne
    let q := p.beforeLastSweep 0
    let r := (p.stop 0 bothOver).2
    p.writer.closed = false ∧ q.writer.queue.length = 0 ∧ r.writer.consumer = .stopped ∧
      r.writer.hasCrashed = false ∧
      ∃ s ∈ q.due bothOver "a", ∀ record ∈ r.writer.accepted ++ r.writer.handedOver,
        ¬ (record.node = "a" ∧ record.time = s.time ∧ record.aggregated = true) := by
  decide +kernel

end Pipeline

end LinkQuality
