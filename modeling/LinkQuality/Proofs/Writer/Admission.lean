import LinkQuality.Proofs.Writer.Metrics

/-!
# Who is let in

Whether a writer takes a record in depends on two things, whether it has been stopped and how many
records wait in its queue. What the consumer has gathered does not count, nor does a flush under
way: a record that has left the queue has made room for another one.

So two bounds have to be told apart. The queue is never longer than it may be, because each step
that makes it longer finds room first (`queue_le_of_step`). The backlog that a writer shows is what
it has accepted and not yet handed to a flush, and takes in what the consumer has gathered; that is
less than a full batch whenever the consumer waits, as a full one is handed over at once. Together
they make the bound on the backlog, and the rule of admission becomes an equivalence in every state
of every run (`Writer.admits_after`): an open writer turns a record away exactly if its queue is
full to the last place.

Whoever is turned away leaves no trace but on the count that is kept for it (`Writer.TurnsAway`).
-/

namespace LinkQuality

/-- The label under which the metrics count the records that are refused for a reason. One that is
missing is not counted. -/
def RecordRefusal.label? : RecordRefusal → Option String
  | missing => none
  | queueFull => some "queue_full"
  | closed => some "closed"

namespace Writer

variable {σ : Type}

/-! ## The queue -/

/-- **No step makes the queue longer than it may be.** -/
theorem queue_le_of_step {w w' : Writer σ} {actor : Actor} (h : Step w actor w')
    (hw : w.queue.length ≤ w.limits.capacity) : w'.queue.length ≤ w'.limits.capacity := by
  rw [limits_of_step h]
  cases h with
  | accept record hc hq =>
    show (w.queue ++ [record]).length ≤ w.limits.capacity
    rw [List.length_append]
    exact hq
  -- the consumer takes the first record out, and a stop as many as make a batch
  | gather hf hg hc hq | fill now hf hg hc hq =>
    rw [hq, List.length_cons] at hw
    exact Nat.le_of_succ_le hw
  | drain now hf hc hl hq => exact Nat.le_trans ((List.drop_sublist _ _).length_le) hw
  | commit | giveUp => exact (congrArg List.length (resume_keeps ..).2.1).trans_le hw
  | _ => exact hw

/-- So it never is. -/
theorem queue_le_of_reaches {s : WriterSettings} {store : Store σ} {state : σ} {w : Writer σ}
    (h : Reaches (ofSettings s store state) w) : w.queue.length ≤ w.limits.capacity :=
  h.keeps (P := fun w => w.queue.length ≤ w.limits.capacity) queue_le_of_step (Nat.zero_le _)

/-! ## Turning records away -/

/-- **The labels under which dropped records are counted stay in order**, whichever is added. -/
theorem ascending_dropped_of_step {w w' : Writer σ} {actor : Actor} (h : Step w actor w')
    (hw : (NameTable.names w.metrics.dropped).Pairwise (· < ·)) :
    (NameTable.names w'.metrics.dropped).Pairwise (· < ·) := by
  have hresume : ∀ (now : Nat) (trigger : Trigger) (v : Writer σ),
      (v.resume now trigger).metrics.dropped = v.metrics.dropped := by
    intro now trigger v
    cases trigger <;> rfl
  cases h with
  | overflow | refuse => exact NameTable.pairwise_names_update _ _ _ hw
  | commit =>
    rw [succeed, hresume]
    exact hw
  | giveUp =>
    rw [giveUp, hresume]
    exact NameTable.pairwise_names_update _ _ _ hw
  | _ => exact hw

/-- So they always are. -/
theorem ascending_dropped_of_reaches {s : WriterSettings} {store : Store σ} {state : σ}
    {w : Writer σ} (h : Reaches (ofSettings s store state) w) :
    (NameTable.names w.metrics.dropped).Pairwise (· < ·) :=
  h.keeps (P := fun w => (NameTable.names w.metrics.dropped).Pairwise (· < ·))
    ascending_dropped_of_step .nil

/-- **What a write is answered**, in whatever state: it does not matter what the record is. -/
theorem write_fst (w : Writer σ) (record : Record) :
    (w.write (some record)).1 =
      if w.closed then .error .closed
      else if w.queue.length < w.limits.capacity then .ok ()
      else .error .queueFull := by
  unfold write
  dsimp only
  split
  · rfl
  · split <;> rfl

/-- **A writer that has turned a record away for a reason**, from `w` to `w'`. -/
structure TurnsAway (why : RecordRefusal) (w w' : Writer σ) : Prop where
  /-- Queue, batch, flush, consumer and store are as they were, and so is all else but the counts
  and the history. -/
  rest_eq : w' = { w with stats := w'.stats, metrics := w'.metrics, history := w'.history }
  stats_eq : w'.stats = { w.stats with
    droppedQueueFull := w.stats.droppedQueueFull + if why = .queueFull then 1 else 0 }
  metrics_eq : w'.metrics = { w.metrics with dropped := w'.metrics.dropped }
  /-- The record is counted under its reason, and under no other label. -/
  count_eq : ∀ label, w'.metrics.dropped.count label =
    w.metrics.dropped.count label + if why.label? = some label then 1 else 0
  /-- The operator may be told, and nothing else has happened. -/
  exists_history_eq : ∃ notices : List Notice, w'.history = notices.map .told ++ w.history

/-- **A record that is turned away leaves a count behind and nothing else**, where the labels of the
metrics are in order. -/
theorem turnsAway_write {w : Writer σ} (hw : (NameTable.names w.metrics.dropped).Pairwise (· < ·))
    {record : Option Record} {why : RecordRefusal} (h : (w.write record).1 = .error why) :
    w.TurnsAway why (w.write record).2 := by
  have hcounts : ∀ reason label : String,
      (w.metrics.countDropped reason 1).dropped.count label =
        w.metrics.dropped.count label + if some reason = some label then 1 else 0 := by
    intro reason label
    have hupdate := Family.count_update hw reason label 1
    simp only [Option.some.injEq, eq_comm (a := reason)]
    exact hupdate
  cases record with
  | none =>
    obtain rfl : RecordRefusal.missing = why := Except.error.inj h
    exact ⟨rfl, rfl, rfl, fun _ => rfl, [], rfl⟩
  | some record =>
    unfold write at h ⊢
    dsimp only at h ⊢
    split at h
    next hc =>
      obtain rfl : RecordRefusal.closed = why := Except.error.inj h
      rw [if_pos hc]
      exact ⟨rfl, rfl, rfl, hcounts "closed", [], rfl⟩
    next hc =>
      rw [if_neg hc]
      split at h
      next => exact absurd h nofun
      next hq =>
        obtain rfl : RecordRefusal.queueFull = why := Except.error.inj h
        rw [if_neg hq]
        exact ⟨rfl, rfl, rfl, hcounts "queue_full", [_], rfl⟩

/-! ## Admission -/

/-- **Whom a writer lets in**, and how much it holds back at most, with room for `capacity` records
in its queue and `batchSize` in a batch. -/
structure Admits (w : Writer σ) (capacity batchSize : Nat) : Prop where
  queue_le : w.queue.length ≤ capacity
  /-- A full batch is not kept. -/
  batch_lt : w.batch.length < batchSize
  backlog_eq : w.backlog = w.queue.length + w.batch.length
  backlog_le : w.backlog ≤ capacity + batchSize - 1
  write_eq_ok_iff : ∀ record, (w.write (some record)).1 = .ok () ↔
    w.closed = false ∧ w.queue.length < capacity
  write_eq_queueFull_iff : ∀ record, (w.write (some record)).1 = .error .queueFull ↔
    w.closed = false ∧ w.queue.length = capacity
  write_eq_closed_iff : ∀ record, (w.write (some record)).1 = .error .closed ↔ w.closed = true
  /-- A record that is missing is refused in any state, and counted nowhere. -/
  write_none : w.write none = (.error .missing, w)
  turnsAway : ∀ record why, (w.write record).1 = .error why →
    w.TurnsAway why (w.write record).2

/-- **Each writer that runs can come to lets in whom it has room for.** -/
theorem admits_of_reaches {s : WriterSettings} {store : Store σ} {state : σ} {w : Writer σ}
    (h : Reaches (ofSettings s store state) w) :
    w.Admits (max s.queueCapacity 1) (max s.batchSize 1) := by
  have hsound := Sound.of_reaches h
  have hq := queue_le_of_reaches h
  have hbatch := hsound.batch_lt
  have hlimits := limits_of_reaches h
  have hcapacity : w.limits.capacity = max s.queueCapacity 1 := congrArg Limits.capacity hlimits
  have hsize : w.limits.batchSize = max s.batchSize 1 := congrArg Limits.batchSize hlimits
  have hbacklog : w.backlog = w.queue.length + w.batch.length := by
    rw [backlog, hsound.inFlight_eq]
  rw [hcapacity] at hq
  rw [hsize] at hbatch
  refine
    { queue_le := hq
      batch_lt := hbatch
      backlog_eq := hbacklog
      backlog_le := by omega
      write_eq_ok_iff := fun record => ?_
      write_eq_queueFull_iff := fun record => ?_
      write_eq_closed_iff := fun record => ?_
      write_none := rfl
      turnsAway := fun _ _ => turnsAway_write (ascending_dropped_of_reaches h) }
  all_goals
    rw [write_fst, hcapacity]
    generalize max s.queueCapacity 1 = capacity at hq ⊢
    cases w.closed with
    | true => simp
    | false => by_cases hroom : w.queue.length < capacity <;> simp [hroom] <;> omega

/-- **A writer lets in whoever finds room in its queue, and holds back a bounded number of
records.**
In every state of every run, whatever the store does and whether or not its calls bring anyone down:

* The queue is within its capacity, the consumer holds less than a batch, and the backlog is what
  the two hold: what the run has taken in and not handed to a flush.
* A record is taken in exactly if the writer is open and there is a place in the queue, and turned
  away for want of room exactly if the writer is open and there is none. A stopped writer turns
  every record away.
* Whoever is turned away is counted once under the reason, and nothing else is changed. -/
theorem admits_after (s : WriterSettings) (store : Store σ) (state : σ) (deeds : List (Deed σ)) :
    let w := (ofSettings s store state).after deeds
    w.Admits (max s.queueCapacity 1) (max s.batchSize 1) ∧
      w.handedOver.length + w.backlog = ((ofSettings s store state).admitted deeds).length := by
  intro w
  have hreaches : Reaches (ofSettings s store state) w := reaches_after deeds _
  have hadmits := admits_of_reaches hreaches
  refine ⟨hadmits, ?_⟩
  have haccepted : w.accepted = (ofSettings s store state).admitted deeds :=
    accepted_after (sound_ofSettings s store state) deeds
  rw [← haccepted, ← accepted_of_reaches hreaches, hadmits.backlog_eq, List.length_append,
    List.length_append]
  omega

/-- A queue for two records and a consumer that has gathered one of two: three records are held
back, and the fourth is turned away. Once a flush has taken both that were gathered, there is room
for it. -/
example :
    let store : Store Unit := ⟨"none", fun _ _ => (none, ()), fun _ _ => (.done, ())⟩
    let write (node : String) : Deed Unit := .write (some (.smooth node))
    let w := (ofSettings { queueCapacity := 2, batchSize := 2 } store ()).after
      [.move .start, .move (.turn 0), write "a", .move (.turn 0), write "b", write "c"]
    let flushing := w.move (.turn 0)
    w.backlog = 3 ∧ (w.write (some (.smooth "d"))).2.stats.droppedQueueFull = 1 ∧
      flushing.flight.isSome ∧ flushing.backlog = 1 ∧
      (flushing.write (some (.smooth "d"))).2.stats.accepted = 4 := by
  decide +kernel

end Writer

end LinkQuality
