import LinkQuality.Proofs.Cache.Memory
import LinkQuality.Proofs.Metric.Grouping
import LinkQuality.Proofs.Pipeline.Archive

/-!
# Minutes that are put off

A minute that the writer turns away is not lost: it is due again at the next visit of its node,
and stays so until it is written, as long as the cache has samples of it (`persistAmid_defers`).

While a node is visited, others may use the writer: records come in and the consumer takes
records out. So the writer can turn a minute away and would take the one after it. `persistAmid`
is a visit among others, of which the visit of a sweep that has the pipeline to itself is the
quiet case (`persist_eq_persistAmid`). That the visit ends at the first minute turned away is what
keeps the mark behind that minute. Minutes are due only after the mark, so none would ever be due
again that the mark has passed.
-/

namespace LinkQuality

namespace Pipeline

variable {σ : Type}

/-! ## Minutes that are due -/

/-- **The minutes of a node that are due** with `reading` on the clock, in order: those that are
over, and later than the mark of the node. -/
def due (p : Pipeline σ) (reading : Timestamp) (node : String) : List Summary :=
  (p.cache.summaries node).filter fun s =>
    s.time < reading.minute ∧ ∀ m ∈ p.marks.get? node, m < s.time

/-- The minutes that a visit goes through with are those that are due. -/
theorem filter_isEligible (p : Pipeline σ) (reading : Timestamp) (node : String) :
    (p.cache.summaries node).filter (isEligible reading.minute (p.marks.get? node)) =
      p.due reading node := by
  unfold due
  refine List.filter_congr fun s _ => ?_
  rw [Bool.eq_iff_iff, isEligible_iff, decide_eq_true_iff]

/-- Minutes that are due ascend. -/
theorem pairwise_due (p : Pipeline σ) (reading : Timestamp) (node : String) :
    (p.due reading node).Pairwise (·.time < ·.time) :=
  (ascending_summaries p.cache node).1.filter _

/-- When a minute that the cache has samples of is due. -/
theorem mem_map_time_due {p : Pipeline σ} {reading : Timestamp} {node : String}
    {minute : Timestamp} :
    minute ∈ (p.due reading node).map Summary.time ↔
      minute ∈ (p.cache.summaries node).map Summary.time ∧
        minute < reading.minute ∧ ∀ m ∈ p.marks.get? node, m < minute := by
  simp only [due, List.mem_map, List.mem_filter, decide_eq_true_eq]
  constructor
  · rintro ⟨s, ⟨hmem, hdue⟩, rfl⟩
    exact ⟨⟨s, hmem, rfl⟩, hdue⟩
  · rintro ⟨⟨s, hmem, rfl⟩, hdue⟩
    exact ⟨s, ⟨hmem, hdue⟩, rfl⟩

/-! ## A visit among others -/

/-- **How far a visit gets.** -/
structure Pass (σ : Type) where
  /-- The minutes of which the writer has said that it took them, in order. -/
  written : List Summary
  /-- The last of them, or the mark if there is none. -/
  newest : Option Timestamp
  writer : Writer σ

/-- Writes the minutes of a node like `persistMinutes` while others use the writer; `meanwhile`
is what they do with it just before each minute is written. -/
def passAmid (meanwhile : Timestamp → List (Writer.Deed σ)) (node : String) (current : Timestamp)
    (mark : Option Timestamp) : List Summary → Option Timestamp → Writer σ → Pass σ
  | [], newest, w => ⟨[], newest, w⟩
  | s :: rest, newest, w =>
    if isEligible current mark s then
      match (w.after (meanwhile s.time)).write (some (.ofSummary node "" s)) with
      | (.ok _, w) =>
        let pass := passAmid meanwhile node current mark rest (some s.time) w
        { pass with written := s :: pass.written }
      | (.error why, w) => ⟨[], newest, w.tell (.deferring node s.time why)⟩
    else passAmid meanwhile node current mark rest newest w

/-- Moves the mark of a node, if there is a newer one. -/
def setMark (node : String) (mark newest : Option Timestamp) (p : Pipeline σ) : Pipeline σ :=
  match newest with
  | some m => if newest = mark then p else { p with marks := p.marks.insert node m }
  | none => p

/-- **A visit of a node among others**, with `reading` on the clock. Gives the minutes written. -/
def persistAmid (meanwhile : Timestamp → List (Writer.Deed σ)) (reading : Timestamp)
    (node : String) (p : Pipeline σ) : List Summary × Pipeline σ :=
  let mark := p.marks.get? node
  let pass := passAmid meanwhile node reading.minute mark (p.cache.summaries node) mark p.writer
  (pass.written, setMark node mark pass.newest { p with writer := pass.writer })

/-- Nobody else uses the writer. -/
def quiet (_ : Timestamp) : List (Writer.Deed σ) := []

/-- Writing minutes is a quiet pass. -/
theorem persistMinutes_eq_passAmid (node : String) (current : Timestamp) (mark : Option Timestamp)
    (summaries : List Summary) (newest : Option Timestamp) (w : Writer σ) :
    persistMinutes node current mark summaries newest w =
      ((passAmid quiet node current mark summaries newest w).newest,
        (passAmid quiet node current mark summaries newest w).writer) := by
  induction summaries generalizing newest w with
  | nil => rfl
  | cons s rest ih =>
    have hquiet : w.after (quiet s.time) = w := rfl
    rw [persistMinutes, passAmid, hquiet]
    split
    · rcases w.write (some (.ofSummary node "" s)) with ⟨_ | _, w'⟩
      · rfl
      · exact ih (some s.time) w'
    · exact ih newest w

/-- **A visit that has the pipeline to itself is a quiet one.** -/
theorem persist_eq_persistAmid (reading : Timestamp) (node : String) (p : Pipeline σ) :
    p.persist reading node (p.cache.summaries node) = (p.persistAmid quiet reading node).2 := by
  unfold persist persistAmid
  dsimp only
  rw [persistMinutes_eq_passAmid]
  rfl

/-! ## What a visit does -/

/-- Those others only move the writer on, and bring no record in. -/
def MovesOnly (meanwhile : Timestamp → List (Writer.Deed σ)) : Prop :=
  ∀ minute, ∃ moves : List (Writer.Move σ), meanwhile minute = moves.map .move

/-- **What a pass over eligible minutes does.** It writes the first of them, as many as the writer
takes one after the other, beside what others bring in. -/
structure Pass.Follows (pass : Pass σ) (meanwhile : Timestamp → List (Writer.Deed σ))
    (node : String) (eligible : List Summary) (newest : Option Timestamp) (w : Writer σ) :
    Prop where
  written_isPrefix : pass.written <+: eligible
  newest_eq : pass.newest = (pass.written.getLast?.map Summary.time).or newest
  sound : pass.writer.Sound
  exists_accepted_eq : ∃ records, pass.writer.accepted = w.accepted ++ records ∧
    (pass.written.map (Record.ofSummary node "")).Sublist records ∧
    (MovesOnly meanwhile → records = pass.written.map (Record.ofSummary node ""))

/-- **A pass follows the eligible minutes.** -/
theorem follows_passAmid (meanwhile : Timestamp → List (Writer.Deed σ)) (node : String)
    (current : Timestamp) (mark : Option Timestamp) (summaries : List Summary)
    (newest : Option Timestamp) {w : Writer σ} (hw : w.Sound) :
    (passAmid meanwhile node current mark summaries newest w).Follows meanwhile node
      (summaries.filter (isEligible current mark)) newest w := by
  induction summaries generalizing newest w with
  | nil => exact ⟨List.prefix_refl _, rfl, hw, [], (List.append_nil _).symm, List.Sublist.refl _,
      fun _ => rfl⟩
  | cons s rest ih =>
    rw [passAmid]
    split
    next heligible =>
      rw [List.filter_cons_of_pos heligible]
      -- what the others do first, then the write
      have hothers : (w.after (meanwhile s.time)).Sound := hw.after (meanwhile s.time)
      have hadmitted := Writer.accepted_after hw (meanwhile s.time)
      have hnone : MovesOnly meanwhile → w.admitted (meanwhile s.time) = [] := by
        intro halone
        obtain ⟨moves, hmoves⟩ := halone s.time
        rw [hmoves]
        exact Writer.admitted_moves moves w
      rcases hwrite : (w.after (meanwhile s.time)).write (some (.ofSummary node "" s)) with
        ⟨_ | _, w'⟩
      · obtain ⟨hsound, haccepted⟩ := Writer.accepted_write hothers hwrite
        refine ⟨⟨_, rfl⟩, rfl, hsound.step (.announce _ Notice.deferring_ne_consumerFailed),
          w.admitted (meanwhile s.time), ?_, List.nil_sublist _, hnone⟩
        rw [← hadmitted]
        exact haccepted.trans (List.append_nil _)
      · obtain ⟨hsound, haccepted⟩ := Writer.accepted_write hothers hwrite
        obtain ⟨hfirst, hnewest, hsound', records, haccepted', hsublist, halone⟩ :=
          ih (some s.time) hsound
        refine ⟨(List.prefix_cons_inj s).mpr hfirst, ?_, hsound',
          w.admitted (meanwhile s.time) ++ .ofSummary node "" s :: records, ?_, ?_, ?_⟩
        · show (passAmid meanwhile node current mark rest (some s.time) w').newest = _
          rw [hnewest, List.getLast?_cons]
          cases (passAmid meanwhile node current mark rest (some s.time) w').written.getLast? <;>
            rfl
        · show (passAmid meanwhile node current mark rest (some s.time) w').writer.accepted = _
          rw [haccepted', haccepted, hadmitted]
          simp [Except.isOk, Except.toBool]
        · exact (hsublist.cons_cons _).trans (List.sublist_append_right _ _)
        · intro h
          rw [hnone h, halone h]
          rfl
    next heligible =>
      rw [List.filter_cons_of_neg heligible]
      exact ih newest hw

/-- Setting a mark touches neither writer nor cache. -/
theorem setMark_rest (node : String) (mark newest : Option Timestamp) (p : Pipeline σ) :
    (setMark node mark newest p).writer = p.writer ∧
      (setMark node mark newest p).cache = p.cache := by
  unfold setMark
  split
  · split <;> exact ⟨rfl, rfl⟩
  · exact ⟨rfl, rfl⟩

/-- A mark that is set is read at its node, and no other mark moves. -/
theorem get?_setMark {node : String} {newest : Option Timestamp} {p : Pipeline σ}
    (h : newest = none → p.marks.get? node = none) :
    let q := setMark node (p.marks.get? node) newest p
    q.marks.get? node = newest ∧ ∀ other ≠ node, q.marks.get? other = p.marks.get? other := by
  unfold setMark
  cases newest with
  | none => exact ⟨h rfl, fun _ _ => rfl⟩
  | some m =>
    dsimp only
    split
    next hsame => exact ⟨hsame.symm, fun _ _ => rfl⟩
    next => exact ⟨NameTable.get?_insert_self node m p.marks,
      fun other hne => NameTable.get?_insert_of_ne hne m p.marks⟩

/-- **What a visit of a node does**, with `written` the minutes it writes: they are the first of
those that are due, the mark of the node moves to the last of them, and no other mark moves. -/
structure Advances (reading : Timestamp) (node : String) (p q : Pipeline σ)
    (written : List Summary) : Prop where
  written_isPrefix : written <+: p.due reading node
  mark_eq : q.marks.get? node = (written.getLast?.map Summary.time).or (p.marks.get? node)
  mark_of_ne : ∀ other ≠ node, q.marks.get? other = p.marks.get? other

/-- **A visit advances its node**, whatever others do meanwhile, and leaves the cache. -/
theorem advances_persistAmid {p : Pipeline σ} (hw : p.writer.Sound)
    (meanwhile : Timestamp → List (Writer.Deed σ)) (reading : Timestamp) (node : String) :
    let visit := p.persistAmid meanwhile reading node
    Advances reading node p visit.2 visit.1 ∧ visit.2.writer.Sound ∧ visit.2.cache = p.cache ∧
      ∃ records, visit.2.writer.accepted = p.writer.accepted ++ records ∧
        (visit.1.map (Record.ofSummary node "")).Sublist records ∧
        (MovesOnly meanwhile → records = visit.1.map (Record.ofSummary node "")) := by
  have hfollows := follows_passAmid meanwhile node reading.minute (p.marks.get? node)
    (p.cache.summaries node) (p.marks.get? node) hw
  rw [filter_isEligible] at hfollows
  unfold persistAmid
  dsimp only
  generalize passAmid meanwhile node reading.minute (p.marks.get? node) (p.cache.summaries node)
    (p.marks.get? node) p.writer = pass at hfollows
  have hnone : pass.newest = none → p.marks.get? node = none := by
    intro h
    rw [hfollows.newest_eq, Option.or_eq_none_iff] at h
    exact h.2
  obtain ⟨hself, hothers⟩ := get?_setMark (p := { p with writer := pass.writer }) hnone
  obtain ⟨hwriter, hcache⟩ := setMark_rest node (p.marks.get? node) pass.newest
    { p with writer := pass.writer }
  rw [hwriter, hcache]
  exact ⟨⟨hfollows.written_isPrefix, hself.trans hfollows.newest_eq, hothers⟩, hfollows.sound, rfl,
    hfollows.exists_accepted_eq⟩

/-! ## A minute that is put off -/

/-- The mark of a node has not come to a minute. -/
def Awaits (p : Pipeline σ) (node : String) (minute : Timestamp) : Prop :=
  ∀ m ∈ p.marks.get? node, m < minute

/-- The minutes that are due and are not written come after those that are. -/
theorem Advances.time_lt {reading : Timestamp} {node : String} {p q : Pipeline σ}
    {written : List Summary} (h : Advances reading node p q written) {s t : Summary}
    (hs : s ∈ written) (ht : t ∈ p.due reading node) (hnot : t ∉ written) : s.time < t.time := by
  obtain ⟨rest, hdue⟩ := h.written_isPrefix
  have hascending := pairwise_due p reading node
  rw [← hdue] at ht hascending
  exact (List.pairwise_append.mp hascending).2.2 s hs t ((List.mem_append.mp ht).resolve_left hnot)

/-- **A visit does not pass over a minute** that the cache has samples of: if it is not written,
the mark stays behind it. -/
theorem Advances.awaits {reading : Timestamp} {node : String} {p q : Pipeline σ}
    {written : List Summary} (h : Advances reading node p q written) {minute : Timestamp}
    (hin : minute ∈ (p.cache.summaries node).map Summary.time) (hp : p.Awaits node minute)
    (hnot : minute ∉ written.map Summary.time) : q.Awaits node minute := by
  intro m hm
  rw [h.mark_eq] at hm
  cases hlast : written.getLast? with
  | none =>
    rw [hlast] at hm
    exact hp m hm
  | some s =>
    rw [hlast] at hm
    obtain rfl : s.time = m := Option.some.inj hm
    have hs : s ∈ written := List.mem_of_getLast? hlast
    by_cases hover : minute < reading.minute
    · -- the minute is due, so it comes after all that are written
      obtain ⟨t, ht, rfl⟩ := List.mem_map.mp (mem_map_time_due.mpr ⟨hin, hover, hp⟩)
      exact h.time_lt hs ht fun hmem => hnot (List.mem_map_of_mem hmem)
    · -- the minute is not over, and all that are written are
      have hdue := List.mem_map_of_mem (f := Summary.time) (h.written_isPrefix.subset hs)
      have hle : reading.minute ≤ minute := by
        by_contra hle
        exact hover (Timestamp.not_le.mp hle)
      exact Timestamp.lt_of_lt_of_le (mem_map_time_due.mp hdue).2.1 hle

/-- **Of a minute nothing is lost** since the writer had accepted the records `before`: the mark
of its node has not come to it, or it has been written. -/
structure Tracks (before : List Record) (node : String) (minute : Timestamp) (p : Pipeline σ) :
    Prop where
  sound : p.writer.Sound
  exists_accepted_eq : ∃ since, p.writer.accepted = before ++ since ∧
    (p.Awaits node minute ∨
      ∃ r ∈ since, r.node = node ∧ r.time = minute ∧ r.aggregated = true)

variable {before : List Record} {node : String} {minute : Timestamp}

/-- Records that come in and marks that stay lose nothing. -/
theorem Tracks.grow {p q : Pipeline σ} (h : p.Tracks before node minute) (hw : q.writer.Sound)
    (ha : p.writer.accepted <+: q.writer.accepted) (hm : q.marks = p.marks) :
    q.Tracks before node minute := by
  obtain ⟨more, ha⟩ := ha
  obtain ⟨since, hsince, hopen⟩ := h.exists_accepted_eq
  refine ⟨hw, since ++ more, ?_, ?_⟩
  · rw [← ha, hsince, List.append_assoc]
  · rcases hopen with hawaits | ⟨r, hr, hminute⟩
    · left
      unfold Awaits at hawaits ⊢
      rw [hm]
      exact hawaits
    · exact .inr ⟨r, List.mem_append_left more hr, hminute⟩

/-- A visit of any node loses nothing of a minute that the cache has samples of. -/
theorem Tracks.persist {p : Pipeline σ} (h : p.Tracks before node minute)
    (hin : minute ∈ (p.cache.summaries node).map Summary.time) (reading : Timestamp)
    (visited : String) :
    (p.persist reading visited (p.cache.summaries visited)).Tracks before node minute := by
  rw [persist_eq_persistAmid]
  obtain ⟨hadvances, hsound, -, records, haccepted, hsublist, -⟩ :=
    advances_persistAmid h.sound quiet reading visited
  obtain ⟨since, hsince, hopen⟩ := h.exists_accepted_eq
  refine ⟨hsound, since ++ records, ?_, ?_⟩
  · rw [haccepted, hsince, List.append_assoc]
  · rcases hopen with hawaits | ⟨r, hr, hminute⟩
    · by_cases hnode : node = visited
      · subst hnode
        by_cases hwritten : minute ∈ (p.persistAmid quiet reading node).1.map Summary.time
        · obtain ⟨s, hs, rfl⟩ := List.mem_map.mp hwritten
          have hr := hsublist.subset (List.mem_map_of_mem hs)
          exact .inr ⟨_, List.mem_append_right since hr, rfl, rfl, rfl⟩
        · exact .inl (hadvances.awaits hin hawaits hwritten)
      · left
        unfold Awaits
        rw [hadvances.mark_of_ne node hnode]
        exact hawaits
    · exact .inr ⟨r, List.mem_append_left records hr, hminute⟩

/-- **A sweep loses nothing** of a minute that the cache has samples of. -/
theorem Tracks.sweepIn {p : Pipeline σ} (h : p.Tracks before node minute)
    (hin : minute ∈ (p.cache.summaries node).map Summary.time) (order : List String)
    (reading : String → Timestamp) : (p.sweepIn order reading).Tracks before node minute := by
  refine sweepIn_keeps (fun {q} visited hnodes hq => hq.persist ?_ (reading visited) visited)
    (fun _ hq => { hq with }) order h
  rw [Cache.summaries_of_nodes_eq hnodes]
  exact hin

/-- **A deed loses nothing** of a minute that the cache has samples of. -/
theorem Tracks.perform {p : Pipeline σ} (h : p.Tracks before node minute)
    (hin : minute ∈ (p.cache.summaries node).map Summary.time) (d : Deed σ) :
    (p.perform d).Tracks before node minute := by
  cases d with
  | ingest visited probe sample =>
    obtain ⟨hsound, hmarks, records, haccepted, -⟩ :=
      accepted_ingest h.sound visited probe sample
    exact h.grow hsound ⟨records, haccepted.symm⟩ hmarks
  | sweep order reading => exact h.sweepIn hin order reading
  | tend cache => exact { h with }
  | move m =>
    have haccepted := Writer.accepted_perform h.sound (.move m)
    exact h.grow (h.sound.perform (.move m)) ⟨_, haccepted.symm⟩ rfl

/-- **A run loses nothing** of a minute that the cache has samples of throughout. -/
theorem Tracks.after {p : Pipeline σ} (h : p.Tracks before node minute) (deeds : List (Deed σ))
    (hin : ∀ sofar, sofar <+: deeds →
      minute ∈ ((p.after sofar).cache.summaries node).map Summary.time) :
    (p.after deeds).Tracks before node minute := by
  induction deeds generalizing p with
  | nil => exact h
  | cons d deeds ih =>
    have hnow : minute ∈ (p.cache.summaries node).map Summary.time := hin [] ⟨_, rfl⟩
    refine ih (h.perform hnow d) fun sofar hsofar => ?_
    exact hin (d :: sofar) ((List.prefix_cons_inj d).mpr hsofar)

/-- **A minute that is turned away is due again.** In every state of every run and at every visit
of a node, whatever the clock shows and whatever others do with the writer meanwhile, the minutes
written are the first of those due. The mark of the node moves to the last of them, or stays if
there is none, and no other mark moves. Of a minute that was due and is not written nothing is
lost: through every later run during which the cache has samples of it, it is either written or
due as soon as the clock shows that it is over. -/
theorem persistAmid_defers (c : CacheSettings) (s : WriterSettings) (store : Store σ) (state : σ)
    (deeds : List (Deed σ)) (meanwhile : Timestamp → List (Writer.Deed σ)) (reading : Timestamp)
    (node : String) :
    let p := (ofSettings c s store state).after deeds
    let written := (p.persistAmid meanwhile reading node).1
    let q := (p.persistAmid meanwhile reading node).2
    (p.due reading node).Pairwise (·.time < ·.time) ∧
      written <+: p.due reading node ∧
      (∃ records, q.writer.accepted = p.writer.accepted ++ records ∧
        (written.map (Record.ofSummary node "")).Sublist records ∧
        (MovesOnly meanwhile → records = written.map (Record.ofSummary node ""))) ∧
      q.marks.get? node = (written.getLast?.map Summary.time).or (p.marks.get? node) ∧
      (∀ other ≠ node, q.marks.get? other = p.marks.get? other) ∧
      (∀ minute ∈ p.due reading node, minute ∉ written → ∀ later,
        (∀ sofar, sofar <+: later →
          ∃ x ∈ (q.after sofar).cache.get node, x.time.minute = minute.time) →
        (∃ r ∈ (q.after later).writer.accepted.drop q.writer.accepted.length,
            r.node = node ∧ r.time = minute.time ∧ r.aggregated = true) ∨
          ∀ reading', minute.time ∈ ((q.after later).due reading' node).map Summary.time ↔
            minute.time < reading'.minute) ∧
      p.persist reading node (p.cache.summaries node) = (p.persistAmid quiet reading node).2 := by
  intro p written q
  have hp : p.Ordered := (archived_after_ordered (ordered_ofSettings c s store state) deeds).1
  obtain ⟨hadvances, hsound, -, haccepted⟩ := advances_persistAmid hp.sound meanwhile reading node
  refine ⟨pairwise_due p reading node, hadvances.written_isPrefix, haccepted, hadvances.mark_eq,
    hadvances.mark_of_ne, fun minute hdue hnot later hheld => ?_, persist_eq_persistAmid ..⟩
  have hheld : ∀ sofar, sofar <+: later →
      minute.time ∈ ((q.after sofar).cache.summaries node).map Summary.time := by
    intro sofar hsofar
    rw [Cache.summaries_eq_summarise_get]
    exact mem_map_time_summarise.mpr (hheld sofar hsofar)
  have hopen := mem_map_time_due.mp (List.mem_map_of_mem (f := Summary.time) hdue)
  -- those written are all earlier, so none of them is at this time
  have hunwritten : minute.time ∉ written.map Summary.time := by
    intro hmem
    obtain ⟨other, hother, htime⟩ := List.mem_map.mp hmem
    have hlt := hadvances.time_lt hother hdue hnot
    rw [htime] at hlt
    exact Timestamp.lt_irrefl _ hlt
  have htracks : q.Tracks q.writer.accepted node minute.time :=
    ⟨hsound, [], (List.append_nil _).symm,
      .inl (hadvances.awaits hopen.1 hopen.2.2 hunwritten)⟩
  obtain ⟨-, since, hsince, hafter⟩ := htracks.after later hheld
  rcases hafter with hawaits | ⟨r, hr, hminute⟩
  · right
    intro reading'
    rw [mem_map_time_due]
    exact ⟨fun h => h.2.1, fun h => ⟨hheld later (List.prefix_refl later), h, hawaits⟩⟩
  · left
    refine ⟨r, ?_, hminute⟩
    rw [hsince, List.drop_left]
    exact hr

/-- The queue is full when the first of two minutes is due. That the consumer would take a record
before the second one does not let that pass: both are put off. -/
example :
    let at? (seconds : Int) (h : 0 ≤ seconds ∧ seconds ≤ 180) : Timestamp :=
      ⟨seconds, 0, by omega, by omega, by decide⟩
    let store : Store Unit := ⟨"none", fun _ _ => (none, ()), fun _ _ => (.done, ())⟩
    let p := (ofSettings { persistAggregates := true } { queueCapacity := 1 } store ()).after
      [.ingest "a" "p" ⟨at? 60 (by decide), 1, 0, 0⟩,
        .ingest "a" "p" ⟨at? 120 (by decide), 1, 0, 0⟩, .move .start, .move (.turn 0)]
    let meanwhile : Timestamp → List (Writer.Deed Unit) := fun minute =>
      if minute.seconds = 120 then [.move (.turn 0)] else []
    let visit := p.persistAmid meanwhile (at? 180 (by decide)) "a"
    (visit.1.map (·.time.seconds), (visit.2.due (at? 180 (by decide)) "a").map (·.time.seconds)) =
      ([], [60, 120]) := by
  decide +kernel

end Pipeline

end LinkQuality
