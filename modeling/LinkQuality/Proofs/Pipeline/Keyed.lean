import LinkQuality.Feed.Run
import LinkQuality.Network
import LinkQuality.Proofs.Feed.Fold
import LinkQuality.Proofs.Pipeline.Act
import LinkQuality.Proofs.Pipeline.Deferral
import LinkQuality.Proofs.Writer.Conservation
import LinkQuality.Proofs.Writer.Insertion

/-!
# What enters through a pipeline can be stored

A writer takes any record, and one that no store can key would fail each attempt at its batch, the
sound records in it along with it. A pipeline lets no such record come to its writer
(`Pipeline.Keyed`). The cache refuses a sample of no node before it looks at anything else, so a
sample that the writer is offered is one of a node, and the cache never knows a node without a
name. The minutes that a sweep writes are about nodes that the cache knows.

That holds however the uses of a pipeline come one after the other: samples are taken in, lines of
feeds are read, nodes are visited while others act, and it is stopped, more than once if need be
(`Pipeline.keyed_afterCalls`). The stores that settings can ask for refuse a record only for want of
a node, so in front of them no insertion fails (`Pipeline.unharmed_afterCalls`).
-/

namespace LinkQuality

namespace Pipeline

variable {σ : Type}

/-! ## A visit among others -/

/-- Writes the minutes of a node like `persistMinutes` while others use the pipeline; `meanwhile`
is what they do with it just before each minute is written. -/
def persistMinutesAmid (meanwhile : Timestamp → List (Act σ)) (node : String) (current : Timestamp)
    (mark : Option Timestamp) :
    List Summary → Option Timestamp → Pipeline σ → Option Timestamp × Pipeline σ
  | [], newest, p => (newest, p)
  | s :: rest, newest, p =>
    if isEligible current mark s then
      let p := p.afterActs (meanwhile s.time)
      match p.writer.write (some (.ofSummary node "" s)) with
      | (.ok _, writer) =>
        persistMinutesAmid meanwhile node current mark rest (some s.time) { p with writer }
      | (.error why, writer) =>
        (newest, { p with writer := writer.tell (.deferring node s.time why) })
    else persistMinutesAmid meanwhile node current mark rest newest p

/-- **A sweep visits a node while others use the pipeline**, with `reading` on the clock. The
minutes it goes through are those at its beginning. -/
def visitAmid (meanwhile : Timestamp → List (Act σ)) (reading : Timestamp) (node : String)
    (p : Pipeline σ) : Pipeline σ :=
  let mark := p.marks.get? node
  let (newest, q) :=
    persistMinutesAmid meanwhile node reading.minute mark (p.cache.summaries node) mark p
  setMark node mark newest q

/-- If nobody does anything meanwhile, the minutes are written to the writer and that is all. -/
theorem persistMinutesAmid_quiet (node : String) (current : Timestamp) (mark : Option Timestamp)
    (summaries : List Summary) (newest : Option Timestamp) (p : Pipeline σ) :
    persistMinutesAmid (fun _ => []) node current mark summaries newest p =
      ((persistMinutes node current mark summaries newest p.writer).1,
        { p with writer := (persistMinutes node current mark summaries newest p.writer).2 }) := by
  induction summaries generalizing newest p with
  | nil => rfl
  | cons s rest ih =>
    have hquiet : p.afterActs [] = p := rfl
    rw [persistMinutesAmid, persistMinutes, hquiet]
    split
    · dsimp only
      rcases p.writer.write (some (.ofSummary node "" s)) with ⟨_ | _, writer⟩
      · rfl
      · exact ih (some s.time) { p with writer }
    · exact ih newest p

/-- **A visit that has the pipeline to itself** is one at which nobody does anything. -/
theorem persist_eq_visitAmid (reading : Timestamp) (node : String) (p : Pipeline σ) :
    p.persist reading node (p.cache.summaries node) = p.visitAmid (fun _ => []) reading node := by
  rw [visitAmid, persistMinutesAmid_quiet]
  rfl

/-! ## What visits and feeds keep -/

section Keeping

variable {P : Pipeline σ → Prop}

/-- **Minutes written among others** are records offered to the writer, and a notice where one is
turned away. What others keep and these keep, they keep. -/
theorem persistMinutesAmid_keeps {meanwhile : Timestamp → List (Act σ)} {node : String}
    (hothers : ∀ {q : Pipeline σ} minute, P q → P (q.afterActs (meanwhile minute)))
    (hwrite : ∀ {q : Pipeline σ} s, P q →
      P { q with writer := (q.writer.write (some (.ofSummary node "" s))).2 })
    (htell : ∀ {q : Pipeline σ} {n : Notice}, (∀ lost, n ≠ .consumerFailed lost) → P q →
      P (q.tell n))
    (current : Timestamp) (mark : Option Timestamp) (summaries : List Summary)
    (newest : Option Timestamp) {p : Pipeline σ} (hp : P p) :
    P (persistMinutesAmid meanwhile node current mark summaries newest p).2 := by
  induction summaries generalizing newest p with
  | nil => exact hp
  | cons minute rest ih =>
    rw [persistMinutesAmid]
    split
    · have hwritten := hwrite minute (hothers minute.time hp)
      dsimp only
      generalize (p.afterActs (meanwhile minute.time)).writer.write
        (some (.ofSummary node "" minute)) = result at hwritten ⊢
      rcases result with ⟨_ | _, writer⟩
      · exact htell Notice.deferring_ne_consumerFailed hwritten
      · exact ih (some minute.time) hwritten
    · exact ih newest hp

/-- A mark that is set is a change of the marks, or none. -/
theorem setMark_keeps (hmark : ∀ {q : Pipeline σ} (marks : NameTable Timestamp), P q →
      P { q with marks }) (node : String) (mark newest : Option Timestamp) {p : Pipeline σ}
    (hp : P p) : P (setMark node mark newest p) := by
  unfold setMark
  split
  · split
    · exact hp
    · exact hmark _ hp
  · exact hp

/-- **A line of a feed** is a sample, or a notice, or nothing. -/
theorem feedLine_keeps
    (hingest : ∀ {q : Pipeline σ} (node probe : String) (sample : Sample), P q →
      P (q.ingest node probe sample).2)
    (htell : ∀ {q : Pipeline σ} {n : Notice}, (∀ lost, n ≠ .consumerFailed lost) → P q →
      P (q.tell n))
    (now : Timestamp) (text : List Char) (summary : FeedSummary) {p : Pipeline σ} (hp : P p) :
    P (p.feedLine now text summary).2 := by
  rw [feedLine_eq]
  cases FeedLine.ofText text with
  | blank => exact hp
  | malformed | outOfRange => exact htell nofun hp
  | proper x =>
    have hingested := hingest x.node x.probe (x.toSample now) hp
    dsimp only
    generalize p.ingest x.node x.probe (x.toSample now) = result at hingested ⊢
    rcases result with ⟨_ | _, q⟩
    · exact htell nofun hingested
    · exact hingested

/-- **A feed** is its lines. -/
theorem feedLines_keeps {now : Timestamp}
    (hline : ∀ {q : Pipeline σ} text summary, P q → P (q.feedLine now text summary).2)
    (lines : List (List UInt8)) (summary : FeedSummary) {p : Pipeline σ} (hp : P p) :
    P (p.feedLines now lines summary).2 := by
  induction lines generalizing summary p with
  | nil => exact hp
  | cons line rest ih =>
    rw [feedLines]
    cases FeedInput.text? line with
    | none => exact hp
    | some text => exact ih _ (hline text summary hp)

end Keeping

/-! ## Uses of a pipeline -/

/-- **One use of a pipeline.** -/
inductive Call (σ : Type) where
  | act (a : Act σ)
  /-- A sweep visits a node, while others act. -/
  | visit (meanwhile : Timestamp → List (Act σ)) (reading : Timestamp) (node : String)
  /-- A feed takes in one of its lines, and others may act before the next one. -/
  | line (now : Timestamp) (text : List Char)
  /-- A feed is read without others acting meanwhile. -/
  | feed (now : Timestamp) (input : FeedInput)
  | stop (now : Nat) (reading : Timestamp)

/-- The pipeline after a use. -/
def call (p : Pipeline σ) : Call σ → Pipeline σ
  | .act a => p.act a
  | .visit meanwhile reading node => p.visitAmid meanwhile reading node
  | .line now text => (p.feedLine now text {}).2
  | .feed now input => (p.feed now input).2
  | .stop now reading => (p.stop now reading).2

/-- **The pipeline after a run of uses.** -/
def afterCalls (p : Pipeline σ) (calls : List (Call σ)) : Pipeline σ := calls.foldl call p

/-! ## What can be keyed -/

/-- **A pipeline whose cache knows no node without a name**, and whose writer has accepted no record
without a node since settings asked for it. -/
structure Keyed (s : WriterSettings) (store : Store σ) (state : σ) (p : Pipeline σ) : Prop where
  reaches : Writer.Reaches (.ofSettings s store state) p.writer
  known : "" ∉ p.cache.nodeNames
  accepted : ∀ r ∈ p.writer.accepted, r.node ≠ ""

section

variable {s : WriterSettings} {store : Store σ} {state : σ} {p q : Pipeline σ}

/-- It depends on writer and histories only. -/
theorem Keyed.congr (h : p.Keyed s store state) (hn : q.cache.nodes = p.cache.nodes)
    (hw : q.writer = p.writer) : q.Keyed s store state where
  reaches := hw ▸ h.reaches
  known := by
    rw [Cache.nodeNames, hn]
    exact h.known
  accepted := hw ▸ h.accepted

/-- **A record about a node may be offered to the writer.** -/
theorem Keyed.write (h : p.Keyed s store state) {record : Record} (hr : record.node ≠ "") :
    Keyed s store state { p with writer := (p.writer.write (some record)).2 } where
  reaches := h.reaches.trans (Writer.reaches_perform (.write (some record)) p.writer)
  known := h.known
  accepted := by
    rcases hwrite : p.writer.write (some record) with ⟨result, w⟩
    obtain ⟨-, haccepted⟩ := Writer.accepted_write (Writer.Sound.of_reaches h.reaches) hwrite
    rw [haccepted, List.forall_mem_append]
    refine ⟨h.accepted, fun r hmem => ?_⟩
    split at hmem
    · rwa [List.mem_singleton.mp hmem]
    · exact absurd hmem List.not_mem_nil

/-- The operator may be told anything but that the consumer has failed. -/
theorem Keyed.tell (h : p.Keyed s store state) {n : Notice}
    (hn : ∀ lost, n ≠ .consumerFailed lost) : (p.tell n).Keyed s store state where
  reaches := h.reaches.trans (Writer.Step.announce n hn).reaches
  known := h.known
  accepted := h.accepted

/-- The writer may be moved on. -/
theorem Keyed.move (h : p.Keyed s store state) (m : Writer.Move σ) :
    Keyed s store state { p with writer := p.writer.move m } where
  reaches := h.reaches.trans (Writer.reaches_perform (.move m) p.writer)
  known := h.known
  accepted := by
    have haccepted := Writer.accepted_perform (Writer.Sound.of_reaches h.reaches) (.move m)
    rw [Writer.entrant, Option.toList_none, List.append_nil] at haccepted
    exact haccepted ▸ h.accepted

/-- **A sample may be stored**: it is refused if it is one of no node. -/
theorem Keyed.keep (h : p.Keyed s store state) (node : String) (sample : Option Sample) :
    Keyed s store state { p with cache := (p.cache.store node sample).2 } := by
  rcases eq_or_ne node "" with rfl | hnode
  · rw [(Cache.entries_of_refused (.inl rfl)).2]
    exact h
  · refine ⟨h.reaches, fun hmem => h.known ?_, h.accepted⟩
    exact ((p.cache.read_store_of_ne hnode.symm sample).2.2).mp hmem

/-- A sample of no node goes nowhere. -/
theorem ingest_of_unnamed (probe : String) (sample : Sample) (p : Pipeline σ) :
    (p.ingest "" probe sample).2 = p := by
  simp only [ingest, Cache.store, if_pos]

/-- **So it may be taken in.** -/
theorem Keyed.ingest (h : p.Keyed s store state) (node probe : String) (sample : Sample) :
    (p.ingest node probe sample).2.Keyed s store state := by
  rcases eq_or_ne node "" with rfl | hnode
  · rw [ingest_of_unnamed]
    exact h
  · have hstored := h.keep node (some sample)
    obtain ⟨hcache, -, -, hsame | hoffered⟩ := ingest_parts node probe sample p
    · exact hstored.congr (congrArg Cache.nodes hcache) hsame
    · have hrecord : (Record.ofSample node probe sample).node ≠ "" := hnode
      exact (hstored.write hrecord).congr (congrArg Cache.nodes hcache) hoffered

/-- **A node may be visited**, if what others do meanwhile may be done. If it has no name, it has no
minutes. -/
theorem Keyed.visitAmid {meanwhile : Timestamp → List (Act σ)}
    (hothers : ∀ {q : Pipeline σ} minute, q.Keyed s store state →
      (q.afterActs (meanwhile minute)).Keyed s store state)
    (reading : Timestamp) (node : String) (h : p.Keyed s store state) :
    (p.visitAmid meanwhile reading node).Keyed s store state := by
  refine setMark_keeps (fun _ hq => hq.congr rfl rfl) node _ _ ?_
  rcases eq_or_ne node "" with rfl | hnode
  · rw [Cache.summaries_of_unknown h.known]
    exact h
  · have hrecord : ∀ minute, (Record.ofSummary node "" minute).node ≠ "" := fun _ => hnode
    exact persistMinutesAmid_keeps hothers (fun minute hq => hq.write (hrecord minute))
      (fun hn hq => hq.tell hn) _ _ _ _ h

/-- **Every act may be done.** -/
theorem Keyed.act (h : p.Keyed s store state) (a : Act σ) : (p.act a).Keyed s store state := by
  cases a with
  | ingest node probe sample => exact h.ingest node probe sample
  | store node sample => exact h.keep node sample
  | sweep order reading =>
    have hquiet : ∀ {q : Pipeline σ} (_ : Timestamp), q.Keyed s store state →
      (q.afterActs []).Keyed s store state := fun _ hq => hq
    refine sweepIn_keeps (P := Keyed s store state) (fun {q} node _ hq => ?_)
      (fun htended hq => hq.congr htended.nodes_eq rfl) order h
    rw [persist_eq_visitAmid]
    exact hq.visitAmid hquiet (reading node) node
  | tend chore => exact h.congr (chore.tended_run p.cache).nodes_eq rfl
  | move m => exact h.move m

/-- A line of a feed may be taken in. -/
theorem Keyed.feedLine (h : p.Keyed s store state) (now : Timestamp) (text : List Char)
    (summary : FeedSummary) : (p.feedLine now text summary).2.Keyed s store state :=
  feedLine_keeps (fun node probe sample hq => hq.ingest node probe sample)
    (fun hn hq => hq.tell hn) now text summary h

/-- So may all that are read. -/
theorem Keyed.feed (h : p.Keyed s store state) (now : Timestamp) (input : FeedInput) :
    (p.feed now input).2.Keyed s store state :=
  feedLines_keeps (fun text summary hq => hq.feedLine now text summary) input.lines {} h

/-- **A pipeline stays keyed whatever it is used for.** -/
theorem Keyed.call (h : p.Keyed s store state) (c : Call σ) : (p.call c).Keyed s store state := by
  have hacts : ∀ {q : Pipeline σ} (acts : List (Act σ)), q.Keyed s store state →
      (q.afterActs acts).Keyed s store state := fun acts hq =>
    Engages.keeps ⟨acts, rfl⟩ (fun a hq => hq.act a) hq
  cases c with
  | act a => exact h.act a
  | visit meanwhile reading node => exact h.visitAmid (fun minute hq => hacts _ hq) reading node
  | line now text => exact h.feedLine now text {}
  | feed now input => exact h.feed now input
  | stop now reading => exact (engages_stop now reading p).keeps (fun a hq => hq.act a) h

end

/-- **So a pipeline is keyed in every run.** -/
theorem keyed_afterCalls (c : CacheSettings) (s : WriterSettings) (store : Store σ) (state : σ)
    (calls : List (Call σ)) :
    ((ofSettings c s store state).afterCalls calls).Keyed s store state := by
  have hknown : "" ∉ (ofSettings c s store state).cache.nodeNames := by
    rw [Cache.nodeNames, (nodes_ofSettings c s store state).1]
    exact List.not_mem_nil
  have hrest : (ofSettings c s store state).Keyed s store state :=
    ⟨.refl _, hknown, fun _ h => absurd h List.not_mem_nil⟩
  exact List.foldlRecOn calls call hrest fun _ hq call _ => hq.call call

end Pipeline

/-! ## The stores of the settings -/

/-- A store in front of an HTTP service refuses a record for want of a node only. -/
theorem HttpStore.keys_store {τ : Type} (settings : HttpSettings) (service : Http.Service τ) :
    (store settings service).Keys := by
  intro s record
  simp only [store, reply, StagedLines.insert]
  cases record.check <;> rfl

/-- So does a store in front of a ClickHouse server. -/
theorem ClickHouseStore.keys_store {τ : Type} (settings : ClickHouseSettings)
    (server : ClickHouse.Server τ) : (store settings server).Keys := by
  intro s record
  simp only [store, reply, Statement.insert]
  cases record.check <;> rfl

/-- So does the one that settings choose. -/
theorem Export.keys_store {τ : Type} (settings : SinkSettings) (n : Network τ) :
    (store settings n).Keys := by
  rintro (state | state) record
  · exact HttpStore.keys_store settings.http n.service state record
  · exact ClickHouseStore.keys_store settings.clickHouse n.server state record

namespace Pipeline

/-- **No record that comes through a pipeline fails its batch**, in no run, whatever the pipeline is
used for and whether or not minutes are to be kept.

* Every record that the writer accepts is about a node, whatever store it is in front of.
* In front of a store of the settings, every insertion goes well, so no transaction is rolled back,
  and an attempt at a batch fails only at its beginning, at its commit or for want of time. -/
theorem unharmed_afterCalls (c : CacheSettings) (s : WriterSettings) :
    (∀ {σ : Type} (store : Store σ) (state : σ) (calls : List (Call σ)),
      ∀ r ∈ ((ofSettings c s store state).afterCalls calls).writer.accepted, r.node ≠ "") ∧
    (∀ {τ : Type} (settings : HttpSettings) (service : Http.Service τ) (state : HttpStore τ)
      (calls : List (Call (HttpStore τ))),
      ((ofSettings c s (HttpStore.store settings service) state).afterCalls
        calls).writer.Unharmed) ∧
    (∀ {τ : Type} (settings : ClickHouseSettings) (server : ClickHouse.Server τ)
      (state : ClickHouseStore τ) (calls : List (Call (ClickHouseStore τ))),
      ((ofSettings c s (ClickHouseStore.store settings server) state).afterCalls
        calls).writer.Unharmed) ∧
    ∀ {τ : Type} (settings : SinkSettings) (n : Network τ) (state : Export τ)
      (calls : List (Call (Export τ))),
      ((ofSettings c s (Export.store settings n) state).afterCalls calls).writer.Unharmed := by
  have hall : ∀ {σ : Type} {store : Store σ}, store.Keys → ∀ (state : σ) (calls : List (Call σ)),
      ((ofSettings c s store state).afterCalls calls).writer.Unharmed := by
    intro σ store hstore state calls
    have hkeyed := keyed_afterCalls c s store state calls
    exact (Writer.spares_of_reaches hstore hkeyed.reaches hkeyed.accepted).unharmed
  exact ⟨fun store state calls => (keyed_afterCalls c s store state calls).accepted,
    fun settings service => hall (HttpStore.keys_store settings service),
    fun settings server => hall (ClickHouseStore.keys_store settings server),
    fun settings n => hall (Export.keys_store settings n)⟩

/-- A record of no node that a writer is given past any pipeline takes a sound one down with it. -/
example :
    let service : Http.Service Unit :=
      { client := ⟨fun _ => true, fun _ _ _ => []⟩
        wait := fun _ _ => some 0
        drain := fun _ _ => some 0
        respond := fun _ _ => (.status ⟨200⟩ none, ()) }
    let store := HttpStore.store { address := "http://h" } service
    let w := (Writer.ofSettings { maxAttempts := 1, batchSize := 2 } store
      { exchange := { state := () } }).after (.move .start :: .write (some (.smooth "a")) ::
        .write (some (.smooth "")) :: .replicate 12 (.move (.turn 0)))
    (w.stats.recordsCommitted, w.stats.droppedAfterRetries) = (0, 2) := by
  decide +kernel

end Pipeline

end LinkQuality
