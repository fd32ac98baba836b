import LinkQuality.Agent
import LinkQuality.Proofs.Pipeline.Shutdown
import LinkQuality.Proofs.Pipeline.Workers
import LinkQuality.Proofs.Writer.Counters

/-!
# What an agent owes

An agent begins a new pipeline at each start that succeeds, and stops the one it holds. Over its
time it may have had many, and what it has accepted is spread over all of them. A pipeline that it
has stopped has dealt with everything (`Writer.Cleared`). One that was still running when another
took its place is never stopped: it goes on in the background with nobody to ask it to end, and may
hold records for as long as its timer says.

So a stop of the agent settles what it owes exactly if no such pipeline has anything in hand, and it
always does if no start has succeeded while a pipeline was running (`settles_stop`). What carries
this is what each deed leaves of all the pipelines at once (`Keeps`).

The pipelines go on by themselves meanwhile, in any way and at any time of the clock (`Toil`),
whether or not the agent still holds them.
-/

namespace LinkQuality

/-! ## Lists of which one element is changed -/

/-- Where one element of a list is changed, all elements are old or come of that. -/
theorem mem_modify {α : Type} {f : α → α} {b : α} {l : List α} {i : Nat} (h : b ∈ l.modify i f) :
    b ∈ l ∨ ∃ c ∈ l, b = f c := by
  obtain ⟨j, hj⟩ := List.mem_iff_getElem?.mp h
  rw [List.getElem?_modify] at hj
  obtain ⟨c, hc, rfl⟩ := Option.map_eq_some_iff.mp hj
  have hmem := List.mem_of_getElem? hc
  by_cases hij : i = j
  · exact .inr ⟨c, hmem, if_pos hij⟩
  · rw [if_neg hij]
    exact .inl hmem

/-- What the change keeps of the elements, it keeps of the list. -/
theorem map_modify {α β : Type} {f : α → α} {g : α → β} {l : List α}
    (h : ∀ b ∈ l, g (f b) = g b) (i : Nat) : (l.modify i f).map g = l.map g := by
  refine List.ext_getElem? fun j => ?_
  rw [List.getElem?_map, List.getElem?_modify, List.getElem?_map]
  cases hj : l[j]? with
  | none => rfl
  | some b =>
    by_cases hij : i = j
    · simp [hij, h b (List.mem_of_getElem? hj)]
    · simp [hij]

/-! ## A pipeline that takes in no samples -/

namespace Pipeline

variable {σ : Type}

/-- The records of samples that the writer has accepted, in order. What it has accepted beside
them are minutes. -/
def sampled (p : Pipeline σ) : List Record := p.writer.accepted.filter (!·.aggregated)

/-- **A pipeline that goes on** from `p` to `q`, and takes in no samples. -/
structure Continues (p q : Pipeline σ) : Prop where
  reaches : p.writer.Reaches q.writer
  sampled_eq : p.writer.Sound → q.sampled = p.sampled

theorem Continues.refl (p : Pipeline σ) : Continues p p := ⟨.refl _, fun _ => rfl⟩

theorem Continues.trans {p q r : Pipeline σ} (h₁ : Continues p q) (h₂ : Continues q r) :
    Continues p r where
  reaches := h₁.reaches.trans h₂.reaches
  sampled_eq hp :=
    (h₂.sampled_eq (h₁.reaches.keeps (fun h hw => hw.step h) hp)).trans (h₁.sampled_eq hp)

/-- Whatever is done with the cache alone makes no difference. -/
theorem continues_cache (cache : Cache) (p : Pipeline σ) : Continues p { p with cache } :=
  ⟨.refl _, fun _ => rfl⟩

/-- A writer that is moved on takes nothing in. -/
theorem continues_afterMoves (moves : List (Writer.Move σ)) (p : Pipeline σ) :
    Continues p { p with writer := p.writer.afterMoves moves } where
  reaches := Writer.reaches_after _ p.writer
  sampled_eq hp := by
    rw [sampled, Writer.afterMoves, Writer.accepted_after hp, Writer.admitted_moves,
      List.append_nil]
    rfl

/-- Minutes are no samples. -/
theorem sampled_persistMinutes (node : String) (current : Timestamp) (mark : Option Timestamp)
    (summaries : List Summary) (newest : Option Timestamp) {w : Writer σ} (hw : w.Sound) :
    (persistMinutes node current mark summaries newest w).2.accepted.filter (!·.aggregated) =
      w.accepted.filter (!·.aggregated) := by
  induction summaries generalizing newest w with
  | nil => rfl
  | cons s rest ih =>
    rw [persistMinutes]
    split
    · rcases hwrite : w.write (some (.ofSummary node "" s)) with ⟨_ | _, w'⟩ <;>
        obtain ⟨hsound, haccepted⟩ := Writer.accepted_write hw hwrite
      · exact congrArg (List.filter (!·.aggregated)) (haccepted.trans (List.append_nil _))
      · dsimp only
        rw [ih (some s.time) hsound, haccepted, List.filter_append]
        exact List.append_nil _
    · exact ih newest hw

/-- So a sweep takes in no samples. -/
theorem continues_sweepIn (order : List String) (reading : String → Timestamp) (p : Pipeline σ) :
    Continues p (p.sweepIn order reading) := by
  let P : Pipeline σ → Prop := fun q => Continues p q
  refine sweepIn_keeps (P := P) (fun {q} node _ hq => hq.trans ?_)
    (fun _ hq => hq.trans (continues_cache _ _)) order (.refl p)
  have hwriter := (persist_parts (reading node) node (q.cache.summaries node) q).2.2
  refine ⟨?_, fun hw => ?_⟩
  · rw [hwriter]
    exact reaches_persistMinutes ..
  · rw [sampled, hwriter]
    exact sampled_persistMinutes _ _ _ _ _ hw

/-- Nor does a start. -/
theorem continues_start (p : Pipeline σ) : Continues p p.start :=
  (continues_cache p.cache.start p).trans (continues_afterMoves [.start] _)

/-- **A sample is taken in exactly if that is said.** -/
theorem sampled_ingest {p : Pipeline σ} (hw : p.writer.Sound) (node probe : String)
    (sample : Sample) :
    (p.ingest node probe sample).2.sampled =
      p.sampled ++
        if (p.ingest node probe sample).1.isOk then [.ofSample node probe sample] else [] := by
  unfold ingest
  rcases p.cache.store node (some sample) with ⟨_ | _, cache⟩
  · exact (List.append_nil _).symm
  · rcases hwrite : p.writer.write (some (.ofSample node probe sample)) with ⟨_ | _, w'⟩ <;>
      obtain ⟨hsound, haccepted⟩ := Writer.accepted_write hw hwrite
    · exact (congrArg (List.filter (!·.aggregated)) haccepted).trans (List.filter_append ..)
    · exact (congrArg (List.filter (!·.aggregated)) haccepted).trans (List.filter_append ..)

/-- Taking a sample in is a run of the writer, and does not close it. -/
theorem writer_ingest (node probe : String) (sample : Sample) (p : Pipeline σ) :
    p.writer.Reaches (p.ingest node probe sample).2.writer ∧
      (p.ingest node probe sample).2.writer.closed = p.writer.closed := by
  obtain ⟨-, -, -, hsame | hwrite⟩ := ingest_parts node probe sample p
  · rw [hsame]
    exact ⟨.refl _, rfl⟩
  · rw [hwrite]
    exact ⟨Writer.reaches_perform (.write _) p.writer,
      Writer.closed_perform (d := .write _) nofun p.writer⟩

/-- What a stop does before its last sweep takes in no samples. -/
theorem continues_beforeLastSweep (now : Nat) (p : Pipeline σ) :
    Continues p (p.beforeLastSweep now) := by
  refine (continues_cache p.cache.stop p).trans ?_
  unfold beforeLastSweep
  dsimp only
  split
  · obtain ⟨moves, hrun⟩ := p.writer.exists_run_eq now 0
    rw [hrun]
    exact continues_afterMoves moves _
  · exact .refl _

/-- **A stop brings an open writer to rest**, and takes in no samples. -/
theorem stop_parts {p : Pipeline σ} (hw : p.writer.Sound) (hopen : p.writer.closed = false)
    (now : Nat) (reading : Timestamp) :
    Continues p (p.stop now reading).2 ∧ (p.stop now reading).2.writer.AtRest ∧
      (p.stop now reading).2.writer.closed = true := by
  -- what there is when it is the turn of the writer
  let q := p.beforeLastSweep now
  let r := if q.persists then (q.sweep reading).2 else q
  have hr : Continues p r ∧ r.writer.closed = false := by
    have hq : Continues p q := p.continues_beforeLastSweep now
    have hstill : q.writer.closed = false := (p.beforeLastSweep_parts now).2.2.trans hopen
    by_cases hpersists : q.persists = true
    · have hsweep : r = q.sweepIn q.cache.nodeNames fun _ => reading := if_pos hpersists
      rw [hsweep]
      exact ⟨hq.trans (continues_sweepIn ..), (closed_sweepIn ..).trans hstill⟩
    · have hsame : r = q := if_neg hpersists
      rw [hsame]
      exact ⟨hq, hstill⟩
  have hstop : (p.stop now reading).2 = { r with writer := (r.writer.stop now).2 } := rfl
  obtain ⟨moves, hmoves⟩ := r.writer.exists_stop_eq now
  have hsound : r.writer.Sound := hr.1.reaches.keeps (fun h hw => hw.step h) hw
  have hrest : (r.writer.stop now).2.AtRest := Writer.stop_atRest hsound hr.2 now
  have hend : (r.writer.stop now).2.Sound :=
    (Writer.reaches_stop now r.writer).keeps (fun h hw => hw.step h) hsound
  rw [hstop]
  refine ⟨hr.1.trans ?_, hrest, (hend.atRest hrest.1).2⟩
  rw [hmoves]
  exact continues_afterMoves moves r

end Pipeline

/-! ## Deeds -/

namespace Agent

variable {σ : Type}

/-- **What goes on in a pipeline by itself.** -/
inductive Toil (σ : Type) where
  /-- The consumer takes its next step, if there is one at time `now`. -/
  | turn (now : Nat)
  /-- The store changes by itself. -/
  | drift (state : σ)
  | sweep (order : List String) (reading : String → Timestamp)
  /-- The cache is used past the pipeline. -/
  | tend (cache : Cache)

/-- The deed that it is. -/
def Toil.deed : Toil σ → Pipeline.Deed σ
  | turn now => .move (.turn now)
  | drift state => .move (.drift state)
  | sweep order reading => .sweep order reading
  | tend cache => .tend cache

/-- **One thing that can be done with an agent**, or that its pipelines do. -/
inductive Deed (σ : Type) where
  /-- A start, given how it goes to listen and to build the store. -/
  | start (listening : Except Failure Unit) (built : Except Failure (Store σ × σ))
  | ingest (node probe : String) (sample : Sample)
  | stop (reading : Timestamp)
  /-- The pipeline that is running goes on, and the clock shows `now`. -/
  | work (now : Nat) (toil : Toil σ)
  /-- One of the pipelines of earlier starts goes on. -/
  | linger (which : Nat) (toil : Toil σ)

/-- The agent after a deed. -/
def perform (a : Agent σ) : Deed σ → Agent σ
  | .start listening built => (a.start listening built).2
  | .ingest node probe sample => (a.ingest node probe sample).2
  | .stop reading => a.stop reading
  | .work now toil =>
    { a with run := a.run.map fun r => { r with now, pipeline := r.pipeline.perform toil.deed } }
  | .linger which toil => { a with former := a.former.modify which (·.perform toil.deed) }

/-- **The agent after a run.** -/
def after (a : Agent σ) (deeds : List (Deed σ)) : Agent σ := deeds.foldl perform a

/-- The record of a sample that the agent says it has taken in. -/
def admits (a : Agent σ) : Deed σ → List Record
  | .ingest node probe sample =>
    if (a.ingest node probe sample).1.isOk then [.ofSample node probe sample] else []
  | _ => []

/-- **The records of the samples that the agent has taken in** in a run, in order. -/
def admitted : Agent σ → List (Deed σ) → List Record
  | _, [] => []
  | a, d :: deeds => a.admits d ++ (a.perform d).admitted deeds

/-- Does a start succeed? -/
def Deed.begins : Deed σ → Bool
  | start (.ok _) (.ok _) => true
  | _ => false

/-- **How often a start has succeeded while a pipeline was running** in a run. -/
def overruns : Agent σ → List (Deed σ) → Nat
  | _, [] => 0
  | a, d :: deeds =>
    (if d.begins ∧ a.isRunning then 1 else 0) + (a.perform d).overruns deeds

/-! ## What is kept -/

/-- The records of samples that given pipelines have accepted, the oldest pipeline being the last
of them. -/
def sampledIn (pipelines : List (Pipeline σ)) : List Record :=
  pipelines.reverse.flatMap Pipeline.sampled

/-- The pipelines that have not been stopped and are not running either. -/
def abandoned (a : Agent σ) : List (Pipeline σ) := a.former.filter (!·.writer.closed)

/-- **What is kept of all pipelines** of an agent that has taken in `records`, with `n` starts
having succeeded while a pipeline was running. -/
structure Keeps (a : Agent σ) (records : List Record) (n : Nat) : Prop where
  arises : ∀ p ∈ a.pipelines, p.writer.Arises
  open_of_run : ∀ r, a.run = some r → r.pipeline.writer.closed = false
  atRest_of_closed : ∀ p ∈ a.former, p.writer.closed = true → p.writer.AtRest
  sampled_eq : sampledIn a.pipelines = records
  abandoned_eq : a.abandoned.length = n

/-- The pipeline begun last comes last. -/
theorem sampledIn_cons (p : Pipeline σ) (pipelines : List (Pipeline σ)) :
    sampledIn (p :: pipelines) = sampledIn pipelines ++ p.sampled := by
  rw [sampledIn, List.reverse_cons, List.flatMap_append, List.flatMap_singleton]
  rfl

/-- The pipelines while one is running. -/
theorem pipelines_of_run {a : Agent σ} {r : PipelineRun σ} (h : a.run = some r) :
    a.pipelines = r.pipeline :: a.former := by
  rw [pipelines, h]
  rfl

/-- The pipelines while none is running. -/
theorem pipelines_of_none {a : Agent σ} (h : a.run = none) : a.pipelines = a.former := by
  rw [pipelines, h]
  rfl

variable {a : Agent σ} {records : List Record} {n : Nat}

/-- An agent that has not been started has nothing to keep. -/
theorem keeps_ofSettings (s : Settings) : ({ settings := s } : Agent σ).Keeps [] 0 where
  arises _ h := absurd h List.not_mem_nil
  open_of_run _ h := absurd h nofun
  atRest_of_closed _ h := absurd h List.not_mem_nil
  sampled_eq := rfl
  abandoned_eq := rfl

/-- What is kept, for the pipeline that is running and for the others. -/
theorem Keeps.of_run (h : a.Keeps records n) {r : PipelineRun σ} (hr : a.run = some r) :
    r.pipeline.writer.Arises ∧ (∀ p ∈ a.former, p.writer.Arises) ∧
      sampledIn a.former ++ r.pipeline.sampled = records := by
  have harises := h.arises
  have hrecords := h.sampled_eq
  rw [pipelines_of_run hr, List.forall_mem_cons] at harises
  rw [pipelines_of_run hr, sampledIn_cons] at hrecords
  exact ⟨harises.1, harises.2, hrecords⟩

/-- The pipeline that is running goes on. -/
theorem Keeps.replace (h : a.Keeps records n) {r r' : PipelineRun σ} (hr : a.run = some r)
    (hreaches : r.pipeline.writer.Reaches r'.pipeline.writer)
    (hclosed : r'.pipeline.writer.closed = r.pipeline.writer.closed) {more : List Record}
    (hsampled : r'.pipeline.sampled = r.pipeline.sampled ++ more) :
    ({ a with run := some r' } : Agent σ).Keeps (records ++ more) n := by
  obtain ⟨hrunning, hothers, hrecords⟩ := h.of_run hr
  refine { h with arises := ?_, open_of_run := ?_, sampled_eq := ?_ }
  · exact List.forall_mem_cons.mpr ⟨hrunning.reaches hreaches, hothers⟩
  · rintro _ ⟨rfl⟩
    exact hclosed.trans (h.open_of_run r hr)
  · refine (sampledIn_cons r'.pipeline a.former).trans ?_
    rw [hsampled, ← List.append_assoc, hrecords]

/-- **A start that succeeds leaves what was running to itself.** -/
theorem Keeps.begin (h : a.Keeps records n) (store : Store σ) (state : σ) :
    (a.begin store state).Keeps records (n + if a.isRunning then 1 else 0) := by
  have hreaches : (a.newPipeline store state).writer.Reaches
      (a.newPipeline store state).start.writer := (Pipeline.continues_start _).reaches
  refine ⟨?_, ?_, ?_, ?_, ?_⟩
  · refine List.forall_mem_cons.mpr ⟨.reaches hreaches ?_, h.arises⟩
    exact Writer.arises_withMetrics a.settings.writer store state a.metrics.writer
  · rintro _ ⟨rfl⟩
    rfl
  · intro p hp hc
    cases hr : a.run with
    | none =>
      refine h.atRest_of_closed p ?_ hc
      rw [← pipelines_of_none hr]
      exact hp
    | some r =>
      have hmem : p ∈ r.pipeline :: a.former := pipelines_of_run hr ▸ hp
      rcases List.mem_cons.mp hmem with rfl | hp
      · exact absurd (hc.symm.trans (h.open_of_run r hr)) nofun
      · exact h.atRest_of_closed p hp hc
  · refine (sampledIn_cons _ a.pipelines).trans ?_
    rw [h.sampled_eq]
    exact List.append_nil records
  · have habandoned : (a.begin store state).abandoned = a.pipelines.filter (!·.writer.closed) := rfl
    rw [habandoned]
    cases hr : a.run with
    | none => rw [pipelines_of_none hr, isRunning, hr]; exact h.abandoned_eq
    | some r =>
      have hopen := h.open_of_run r hr
      rw [pipelines_of_run hr, List.filter_cons_of_pos (by simp [hopen]), isRunning, hr,
        ← h.abandoned_eq]
      rfl

/-- **A stop brings what is running to rest**, and puts it with the others. -/
theorem Keeps.stop (h : a.Keeps records n) (reading : Timestamp) :
    (a.stop reading).Keeps records n ∧ (a.stop reading).run = none := by
  cases hr : a.run with
  | none =>
    have hstop : a.stop reading = { a with serving := false } := by rw [Agent.stop, hr]
    rw [hstop]
    exact ⟨⟨h.arises, h.open_of_run, h.atRest_of_closed, h.sampled_eq, h.abandoned_eq⟩, hr⟩
  | some r =>
    have hstop : a.stop reading =
        { a with
          serving := false
          clock := (r.stop reading).now
          run := none
          former := (r.stop reading).pipeline :: a.former } := by rw [Agent.stop, hr]
    obtain ⟨hrunning, hothers, hrecords⟩ := h.of_run hr
    obtain ⟨hcontinues, hrest, hclosed⟩ :=
      Pipeline.stop_parts hrunning.sound (h.open_of_run r hr) r.now reading
    rw [hstop]
    refine ⟨⟨?_, fun _ h => absurd h.symm (Option.some_ne_none _), ?_, ?_, ?_⟩, rfl⟩
    · exact List.forall_mem_cons.mpr ⟨hrunning.reaches hcontinues.reaches, hothers⟩
    · exact List.forall_mem_cons.mpr ⟨fun _ => hrest, h.atRest_of_closed⟩
    · have hsame : (r.stop reading).pipeline.sampled = r.pipeline.sampled :=
        hcontinues.sampled_eq hrunning.sound
      refine (sampledIn_cons _ a.former).trans ?_
      rw [hsame, hrecords]
    · have hstopped : (r.stop reading).pipeline.writer.closed = true := hclosed
      rw [abandoned, List.filter_cons_of_neg (by simp [hstopped])]
      exact h.abandoned_eq

/-- What goes on in a pipeline by itself takes in no samples, and does not close its writer. -/
theorem Toil.parts (toil : Toil σ) (p : Pipeline σ) :
    p.Continues (p.perform toil.deed) ∧
      (p.perform toil.deed).writer.closed = p.writer.closed := by
  cases toil with
  | turn now =>
    exact ⟨p.continues_afterMoves [.turn now],
      Writer.closed_perform (d := .move (.turn now)) nofun p.writer⟩
  | drift state => exact ⟨p.continues_afterMoves [.drift state], rfl⟩
  | sweep order reading => exact ⟨p.continues_sweepIn order reading, p.closed_sweepIn order reading⟩
  | tend cache => exact ⟨p.continues_cache cache, rfl⟩

/-- **A pipeline of an earlier start goes on.** One that was stopped stays at rest. -/
theorem Keeps.linger (h : a.Keeps records n) (which : Nat) (toil : Toil σ) :
    ({ a with former := a.former.modify which (·.perform toil.deed) } : Agent σ).Keeps
      records n := by
  have hsound : ∀ p ∈ a.former, p.writer.Sound := fun p hp =>
    (h.arises p (List.mem_append_right _ hp)).sound
  refine { h with arises := ?_, atRest_of_closed := ?_, sampled_eq := ?_, abandoned_eq := ?_ }
  · intro q hq
    rcases List.mem_append.mp hq with hq | hq
    · exact h.arises q (List.mem_append_left _ hq)
    · rcases mem_modify hq with hq | ⟨p, hp, rfl⟩
      · exact h.arises q (List.mem_append_right _ hq)
      · exact (h.arises p (List.mem_append_right _ hp)).reaches (toil.parts p).1.reaches
  · intro q hq hc
    rcases mem_modify hq with hq | ⟨p, hp, rfl⟩
    · exact h.atRest_of_closed q hq hc
    · have hclosed : p.writer.closed = true := (toil.parts p).2.symm.trans hc
      have hrest := h.atRest_of_closed p hp hclosed
      exact (Writer.AtRest.reaches (toil.parts p).1.reaches hrest hclosed).1
  · have hsame : (a.former.modify which (·.perform toil.deed)).map Pipeline.sampled =
        a.former.map Pipeline.sampled :=
      map_modify (fun p hp => (toil.parts p).1.sampled_eq (hsound p hp)) which
    rw [← h.sampled_eq, sampledIn, sampledIn, pipelines, pipelines]
    simp only [List.flatMap_def, List.reverse_append, List.map_append, List.map_reverse, hsame]
  · have hsame : (a.former.modify which (·.perform toil.deed)).map (·.writer.closed) =
        a.former.map (·.writer.closed) := map_modify (fun p _ => (toil.parts p).2) which
    rw [← h.abandoned_eq, abandoned, abandoned, ← List.countP_eq_length_filter,
      ← List.countP_eq_length_filter]
    have hcount := congrArg (List.countP (!·)) hsame
    rw [List.countP_map, List.countP_map] at hcount
    exact hcount

/-- What takes no sample in and begins nothing leaves both as they are. -/
theorem Keeps.quiet {d : Deed σ} (h : (a.perform d).Keeps records n) (hadmits : a.admits d = [])
    (hbegins : d.begins = false) :
    (a.perform d).Keeps (records ++ a.admits d)
      (n + if d.begins ∧ a.isRunning then 1 else 0) := by
  rw [hadmits, hbegins, List.append_nil, if_neg (by simp)]
  exact h

/-- **Every deed keeps it.** -/
theorem Keeps.perform (h : a.Keeps records n) (d : Deed σ) :
    (a.perform d).Keeps (records ++ a.admits d)
      (n + if d.begins ∧ a.isRunning then 1 else 0) := by
  cases d with
  | start listening built =>
    cases listening with
    | error why => exact .quiet h rfl rfl
    | ok _ =>
      have hserving : ({ a with serving := true } : Agent σ).Keeps records n :=
        ⟨h.arises, h.open_of_run, h.atRest_of_closed, h.sampled_eq, h.abandoned_eq⟩
      cases built with
      | error why => exact .quiet hserving rfl rfl
      | ok built =>
        have hbegin := hserving.begin built.1 built.2
        rw [show a.admits (.start (.ok ()) (.ok built)) = [] from rfl, List.append_nil]
        simp only [Deed.begins, true_and]
        exact hbegin
  | ingest node probe sample =>
    rw [if_neg (by simp [Deed.begins])]
    cases hr : a.run with
    | none =>
      have hsame : a.ingest node probe sample = (.error .notRunning, a) := by rw [Agent.ingest, hr]
      rw [Agent.perform, admits, hsame, if_neg nofun, List.append_nil]
      exact h
    | some r =>
      have hsame : a.ingest node probe sample =
          ((r.pipeline.ingest node probe sample).1,
            { a with
              run := some { r with pipeline := (r.pipeline.ingest node probe sample).2 } }) := by
        rw [Agent.ingest, hr]
      obtain ⟨hreaches, hclosed⟩ := r.pipeline.writer_ingest node probe sample
      have hsampled := Pipeline.sampled_ingest (h.of_run hr).1.sound node probe sample
      rw [Agent.perform, admits, hsame]
      exact h.replace hr hreaches hclosed hsampled
  | stop reading => exact .quiet (h.stop reading).1 rfl rfl
  | work now toil =>
    refine .quiet ?_ rfl rfl
    rw [Agent.perform]
    cases hr : a.run with
    | none =>
      have hsame : ({ a with run := none } : Agent σ) = a := by rw [← hr]
      rw [Option.map_none, hsame]
      exact h
    | some r =>
      obtain ⟨hcontinues, hclosed⟩ := toil.parts r.pipeline
      have hsampled := hcontinues.sampled_eq (h.of_run hr).1.sound
      rw [← List.append_nil r.pipeline.sampled] at hsampled
      rw [← List.append_nil records]
      exact h.replace hr hcontinues.reaches hclosed hsampled
  | linger which toil => exact .quiet (h.linger which toil) rfl rfl

/-- **So does every run.** -/
theorem Keeps.after (h : a.Keeps records n) (deeds : List (Deed σ)) :
    (a.after deeds).Keeps (records ++ a.admitted deeds) (n + a.overruns deeds) := by
  induction deeds generalizing a records n with
  | nil =>
    rw [admitted, overruns, List.append_nil]
    exact h
  | cons d deeds ih =>
    rw [admitted, overruns, ← List.append_assoc, ← Nat.add_assoc]
    exact ih (h.perform d)

/-! ## What a stop settles -/

/-- Where no start succeeds, nothing begins to run. -/
theorem run_after_of_none (hr : a.run = none) {deeds : List (Deed σ)}
    (h : ∀ d ∈ deeds, d.begins = false) : (a.after deeds).run = none := by
  refine List.foldlRecOn (motive := (Agent.run · = none)) deeds _ hr fun a hr d hd => ?_
  cases d with
  | start listening built =>
    rcases listening with _ | _
    · exact hr
    · rcases built with _ | _
      · exact hr
      · exact absurd (h _ hd) nofun
  | ingest node probe sample =>
    rw [Agent.perform, Agent.ingest, hr]
    exact hr
  | stop reading =>
    rw [Agent.perform, Agent.stop, hr]
  | work now toil =>
    rw [Agent.perform, hr]
    rfl
  | linger which toil => exact hr

/-- **How things stand after a stop** of an agent that has taken in `records`, with `n` starts
having succeeded while a pipeline was running. -/
structure Settles (b : Agent σ) (records : List Record) (n : Nat) : Prop where
  /-- What was taken in is spread over the pipelines there have been. -/
  sampled_eq : sampledIn b.pipelines = records
  /-- Those that have been stopped have dealt with everything. -/
  cleared_of_closed : ∀ p ∈ b.pipelines, p.writer.closed = true → p.writer.Cleared
  /-- Each start that succeeded while a pipeline was running has left one that never is. -/
  abandoned_eq : b.abandoned.length = n
  /-- All has been dealt with exactly if those have nothing in hand. -/
  cleared_iff : (∀ p ∈ b.pipelines, p.writer.Cleared) ↔ ∀ p ∈ b.abandoned, p.writer.Vacant
  /-- It has if there are none. -/
  cleared_of_zero : n = 0 → ∀ p ∈ b.pipelines, p.writer.Cleared
  /-- No sample is taken in until a start succeeds. -/
  refuses : ∀ later : List (Deed σ), (∀ d ∈ later, d.begins = false) → ∀ node probe sample,
    ((b.after later).ingest node probe sample).1 = .error .notRunning

/-- A stopped agent has settled what the pipelines it has stopped have taken in. -/
theorem Keeps.settles {b : Agent σ} (h : b.Keeps records n) (hr : b.run = none)
    (hcrash : ∀ p ∈ b.pipelines, p.writer.hasCrashed = false) : b.Settles records n := by
  have hformer := pipelines_of_none hr
  have hclosed : ∀ p ∈ b.pipelines, p.writer.closed = true → p.writer.Cleared := by
    intro p hp hc
    have hrest := h.atRest_of_closed p (hformer ▸ hp) hc
    exact (h.arises p hp).cleared_of_stopped hrest.1 (hcrash p hp)
  have hiff : (∀ p ∈ b.pipelines, p.writer.Cleared) ↔ ∀ p ∈ b.abandoned, p.writer.Vacant := by
    constructor
    · intro hall p hp
      have hmem : p ∈ b.pipelines := hformer.symm ▸ (List.mem_filter.mp hp).1
      exact ((h.arises p hmem).cleared_iff (hcrash p hmem)).mp (hall p hmem)
    · intro hvacant p hp
      cases hc : p.writer.closed with
      | true => exact hclosed p hp hc
      | false =>
        have hmem : p ∈ b.abandoned := List.mem_filter.mpr ⟨hformer ▸ hp, by simp [hc]⟩
        exact ((h.arises p hp).cleared_iff (hcrash p hp)).mpr (hvacant p hmem)
  refine ⟨h.sampled_eq, hclosed, h.abandoned_eq, hiff, fun hzero => ?_, fun later hlater => ?_⟩
  · have hnone : b.abandoned = [] := List.length_eq_zero_iff.mp (h.abandoned_eq.trans hzero)
    refine hiff.mpr ?_
    rw [hnone]
    exact fun _ hp => absurd hp List.not_mem_nil
  · intro node probe sample
    rw [Agent.ingest, run_after_of_none hr hlater]

/-- **What a stop of an agent settles.** In every run of an agent, with starts that succeed and
starts that fail, samples coming in, stops, and all pipelines going on by themselves, and without a
call of a store that brings anyone down: when a stop returns, every pipeline that the agent has ever
stopped has handed over each sample it had taken in, and each of its flushes has been committed or
counted as dropped. That is all the agent has taken in if no start has succeeded while a pipeline
was running. Each start that has leaves a pipeline behind that is never stopped, and then what the
agent has taken in has been dealt with exactly if those pipelines happen to have nothing in hand.
From the stop on samples are refused until a start succeeds. -/
theorem settles_stop (s : Settings) (deeds : List (Deed σ)) (reading : Timestamp) :
    let a : Agent σ := { settings := s }
    let b := (a.after deeds).stop reading
    (∀ p ∈ b.pipelines, p.writer.hasCrashed = false) →
      b.Settles (a.admitted deeds) (a.overruns deeds) := by
  intro a b hcrash
  have hfresh : a.Keeps [] 0 := keeps_ofSettings s
  have hkeeps := hfresh.after deeds
  rw [List.nil_append, Nat.zero_add] at hkeeps
  obtain ⟨hstop, hr⟩ := hkeeps.stop reading
  exact hstop.settles hr hcrash

/-- A start that succeeds, in front of a store that answers at once. -/
def Deed.starting : Deed Unit := .start (.ok ()) (.ok (.prompt, ()))

/-- A sample that comes in. -/
def Deed.ingesting : Deed Unit := .ingest "a" "p" (Pipeline.sampleAt ⟨0, Nat.succ_pos 59⟩)

/-- A start, a sample and a stop settle it. -/
theorem settles_stop_once :
    let a : Agent Unit := { settings := {} }
    let b := (a.after [.starting, .ingesting]).stop Pipeline.bothOver
    (a.admitted [.starting, .ingesting]).length = 1 ∧ b.pipelines.length = 1 ∧
      ∀ p ∈ b.pipelines, p.writer.Cleared := by
  intro a b
  have hsettles := settles_stop {} [.starting, .ingesting] Pipeline.bothOver (by decide +kernel)
  exact ⟨by decide +kernel, by decide +kernel, hsettles.cleared_of_zero (by decide +kernel)⟩

/-- **A second start leaves a sample behind.** The agent is started, takes a sample in, is started
again and stopped. No call of the store has brought anyone down, and yet the sample has not been
handed to a flush. -/
theorem not_cleared_after_overrun :
    let a : Agent Unit := { settings := {} }
    let b := (a.after [.starting, .ingesting, .starting]).stop Pipeline.bothOver
    (a.admitted [.starting, .ingesting, .starting]).length = 1 ∧
      (∀ p ∈ b.pipelines, p.writer.hasCrashed = false) ∧
      ¬ ∀ p ∈ b.pipelines, p.writer.Cleared := by
  intro a b
  refine ⟨by decide +kernel, by decide +kernel, fun hall => ?_⟩
  have hlengths : ∀ p ∈ b.pipelines, p.writer.handedOver.length = p.writer.accepted.length :=
    fun p hp => congrArg List.length (hall p hp).handedOver_eq
  exact absurd hlengths (by decide +kernel)

end Agent

end LinkQuality
