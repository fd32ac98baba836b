import LinkQuality.Proofs.Writer.Conservation
import LinkQuality.Proofs.Writer.Transcript
import LinkQuality.Store.Scripted

/-!
# A batch is stored in full or not at all

Within one attempt at a batch a store is led through a transaction: it is begun, the records are
inserted one after the other, and it is committed, or rolled back where an insertion fails. The
attempt can break off at any call – an answer may say no, come too late or not come at all – and
then the next attempt begins anew with the same batch.

Where an attempt can stand is therefore told by the calls it has made (`Leads`): what has been
answered went well, but for the insertion that a rollback follows, and the last call is the one
whose answer is awaited. Whatever becomes of that one, the attempt is orderly (`Leads.orderly`)
and, unless it was a commit that went well, has come to nothing (`Leads.futile`). A commit that
went well ends the flush, so nothing follows it. Each step of a writer keeps this
(`Writer.Conducts.step`), and the main statement reads it off the transcripts of a run
(`Writer.allOrNothing_transcripts`).
-/

namespace LinkQuality

/-- An element that occurs nowhere but at the end splits a list only there. -/
theorem eq_of_concat_eq_append_cons {α : Type} {before earlier later : List α} {a b : α}
    (hnot : b ∉ before) (h : before ++ [a] = earlier ++ b :: later) :
    earlier = before ∧ b = a ∧ later = [] := by
  rcases List.append_eq_append_iff.mp h with ⟨as, hearlier, has⟩ | ⟨bs, hbefore, hbs⟩
  · cases as with
    | nil =>
      obtain ⟨rfl, hlater⟩ := List.cons.inj has
      exact ⟨by rw [hearlier, List.append_nil], rfl, hlater.symm⟩
    | cons a' as => simp at has
  · cases bs with
    | nil =>
      obtain ⟨rfl, hlater⟩ := List.cons.inj hbs
      exact ⟨by rw [hbefore, List.append_nil], rfl, hlater⟩
    | cons b' bs =>
      obtain ⟨rfl, -⟩ := List.cons.inj hbs
      exact absurd (by rw [hbefore]; simp) hnot

/-! ## Attempts -/

/-- The beginning of a transaction in which all went well: it was begun, and records were
inserted. -/
def opening (records : List Record) : List Call :=
  ⟨.begin, some .done⟩ :: records.map fun r => ⟨.insert r, some .done⟩

/-- One more record that was inserted. -/
theorem opening_concat (records : List Record) (record : Record) :
    opening (records ++ [record]) = opening records ++ [⟨.insert record, some .done⟩] := by
  rw [opening, List.map_append]
  rfl

/-- Nothing in it is an end. -/
theorem isEnd_of_mem_opening {records : List Record} {c : Call} (h : c ∈ opening records) :
    c.isEnd = false := by
  rcases List.mem_cons.mp h with rfl | h
  · rfl
  · obtain ⟨r, -, rfl⟩ := List.mem_map.mp h
    rfl

/-- All in it went well. -/
theorem isDone_of_mem_opening {records : List Record} {c : Call} (h : c ∈ opening records) :
    c.isDone = true := by
  rcases List.mem_cons.mp h with rfl | h
  · rfl
  · obtain ⟨r, -, rfl⟩ := List.mem_map.mp h
    rfl

/-- The records inserted in it. -/
theorem filterMap_opening (records : List Record) :
    (opening records).filterMap Call.record? = records := by
  show (records.map fun r => (⟨.insert r, some .done⟩ : Call)).filterMap Call.record? = records
  rw [List.filterMap_map]
  exact List.filterMap_some

/-- The call that a request makes. -/
def Pending.call (batch : List Record) (pending : Pending) (reply : Option Reply) : Call :=
  ⟨pending.request batch, reply⟩

/-- **How an attempt at a batch comes to a request.** -/
inductive Leads (batch : List Record) : Pending → List Call → Prop
  | begin : Leads batch .begin []
  | insert {inserted record rest} (hb : batch = inserted ++ record :: rest) :
    Leads batch (.insert record rest) (opening inserted)
  | commit : Leads batch .commit (opening batch)
  | rollback {inserted record rest} (why cause : Failure)
      (hb : batch = inserted ++ record :: rest) :
    Leads batch (.rollback cause) (opening inserted ++ [⟨.insert record, some (.failed why)⟩])

variable {batch : List Record} {pending : Pending} {before : List Call}

/-- After what went well comes the next record, or the commit where there is none. -/
theorem Leads.next {inserted rest : List Record} (hb : batch = inserted ++ rest) :
    Leads batch (.next rest) (opening inserted) := by
  cases rest with
  | nil =>
    rw [List.append_nil] at hb
    rw [← hb]
    exact .commit
  | cons record rest => exact .insert hb

/-- No request comes after an end. -/
theorem Leads.isEnd_of_mem (h : Leads batch pending before) {c : Call} (hc : c ∈ before) :
    c.isEnd = false := by
  cases h with
  | begin => exact absurd hc List.not_mem_nil
  | insert | commit => exact isEnd_of_mem_opening hc
  | rollback =>
    rcases List.mem_append.mp hc with hc | hc
    · exact isEnd_of_mem_opening hc
    · rw [List.mem_singleton.mp hc]
      rfl

/-- **An orderly attempt at a batch.** -/
structure Orderly (batch : List Record) (calls : List Call) : Prop where
  /-- It begins, and begins once. -/
  begins_once : ∃ first rest, calls = first :: rest ∧ first.isBegin = true ∧
    ∀ c ∈ rest, c.isBegin = false
  /-- It inserts the first records of the batch, in order, none of them twice. -/
  inserted_isPrefix : calls.filterMap Call.record? <+: batch
  /-- It ends at most once. -/
  ends_once : calls.countP Call.isEnd ≤ 1
  /-- It is committed only when every record of the batch has been inserted, and then nothing
  comes any more. -/
  of_commit : ∀ before records reply later, calls = before ++ ⟨.commit records, reply⟩ :: later →
    before = opening batch ∧ records = batch ∧ later = []
  /-- It is rolled back only when an insertion has just failed, and then nothing comes any
  more. -/
  of_rollback : ∀ before reply later, calls = before ++ ⟨.rollback, reply⟩ :: later →
    (∃ earlier record why, before = earlier ++ [⟨.insert record, some (.failed why)⟩]) ∧
      later = []

/-- What well begun goes on without another beginning has begun once. -/
theorem begins_once_opening (records : List Record) {last : List Call}
    (hlast : ∀ c ∈ last, c.isBegin = false) :
    ∃ first rest, opening records ++ last = first :: rest ∧ first.isBegin = true ∧
      ∀ c ∈ rest, c.isBegin = false := by
  refine ⟨_, (records.map fun r => ⟨.insert r, some .done⟩) ++ last, rfl, rfl, ?_⟩
  refine List.forall_mem_append.mpr ⟨fun c hc => ?_, hlast⟩
  obtain ⟨r, -, rfl⟩ := List.mem_map.mp hc
  rfl

/-- Every attempt begins, and begins once. -/
theorem Leads.begins_once (h : Leads batch pending before) (reply : Option Reply) :
    ∃ first rest, before ++ [pending.call batch reply] = first :: rest ∧
      first.isBegin = true ∧ ∀ c ∈ rest, c.isBegin = false := by
  cases h with
  | begin => exact ⟨_, [], rfl, rfl, fun _ h => absurd h List.not_mem_nil⟩
  | insert | commit =>
    refine begins_once_opening _ fun c hc => ?_
    rw [List.mem_singleton.mp hc]
    rfl
  | rollback =>
    rw [List.append_assoc]
    refine begins_once_opening _ fun c hc => ?_
    rcases List.mem_cons.mp hc with rfl | hc
    · rfl
    · rw [List.mem_singleton.mp hc]
      rfl

/-- It inserts the first records of the batch. -/
theorem Leads.inserted_isPrefix (h : Leads batch pending before) (reply : Option Reply) :
    (before ++ [pending.call batch reply]).filterMap Call.record? <+: batch := by
  rw [List.filterMap_append]
  cases h with
  | begin => exact List.nil_prefix
  | commit =>
    rw [filterMap_opening]
    exact ⟨[], by simp [Pending.call, Pending.request, Call.record?]⟩
  | @insert inserted record rest hb =>
    rw [filterMap_opening, hb]
    exact ⟨rest, List.append_assoc _ [record] rest⟩
  | @rollback inserted record rest why cause hb =>
    rw [List.filterMap_append, filterMap_opening, hb]
    exact ⟨rest, by simp [Pending.call, Pending.request, Call.record?]⟩

/-- **Whatever a request follows in the order of a transaction makes an orderly attempt.** -/
theorem Leads.orderly (h : Leads batch pending before) (reply : Option Reply) :
    Orderly batch (before ++ [pending.call batch reply]) where
  begins_once := h.begins_once reply
  inserted_isPrefix := h.inserted_isPrefix reply
  ends_once := by
    have hnone : before.countP Call.isEnd = 0 :=
      List.countP_eq_zero.mpr fun c hc => by simp [h.isEnd_of_mem hc]
    rw [List.countP_append, hnone, Nat.zero_add]
    exact List.countP_le_length
  of_commit := by
    intro earlier records reply' later heq
    have hnot : (⟨.commit records, reply'⟩ : Call) ∉ before :=
      fun hmem => Bool.noConfusion (h.isEnd_of_mem hmem)
    obtain ⟨rfl, hlast, rfl⟩ := eq_of_concat_eq_append_cons hnot heq
    cases h with
    | commit => exact ⟨rfl, by injection hlast with h _; injection h, rfl⟩
    | begin | insert | rollback => simp [Pending.call, Pending.request] at hlast
  of_rollback := by
    intro earlier reply' later heq
    have hnot : (⟨.rollback, reply'⟩ : Call) ∉ before :=
      fun hmem => Bool.noConfusion (h.isEnd_of_mem hmem)
    obtain ⟨rfl, hlast, rfl⟩ := eq_of_concat_eq_append_cons hnot heq
    cases h with
    | rollback => exact ⟨⟨_, _, _, rfl⟩, rfl⟩
    | begin | insert | commit => simp [Pending.call, Pending.request] at hlast

/-! ## What is durable -/

/-- **An attempt that came to nothing**, or has not come to anything yet. -/
structure Futile (batch : List Record) (calls : List Call) : Prop where
  orderly : Orderly batch calls
  not_committed : calls.any Call.hasCommitted = false

/-- Before the last call nothing has been committed. -/
theorem Leads.not_committed (h : Leads batch pending before) :
    before.any Call.hasCommitted = false := by
  refine List.any_eq_false.mpr fun c hc => ?_
  have hend := h.isEnd_of_mem hc
  rcases c with ⟨_ | _ | _ | _, reply⟩ <;> simp_all [Call.isEnd, Call.hasCommitted]

/-- An attempt comes to nothing unless its commit goes well. -/
theorem Leads.futile (h : Leads batch pending before) {reply : Option Reply}
    (hr : (pending.call batch reply).hasCommitted = false) :
    Futile batch (before ++ [pending.call batch reply]) where
  orderly := h.orderly reply
  not_committed := by
    rw [List.any_append, h.not_committed, List.any_cons, hr]
    rfl

/-- While the answer is awaited, the attempt has not come to anything. -/
theorem Leads.futile_none (h : Leads batch pending before) :
    Futile batch (before ++ [pending.call batch none]) :=
  h.futile (by cases pending <;> rfl)

/-- An attempt that came to nothing leaves nothing durable. -/
theorem Futile.durable_eq {calls : List Call} (h : Futile batch calls) : durable calls = [] := by
  rw [durable, h.not_committed]
  rfl

/-- When the commit has gone well, the whole batch is durable. -/
theorem durable_committed (batch : List Record) :
    durable (opening batch ++ [⟨.commit batch, some .done⟩]) = batch := by
  have hall : (opening batch).filter Call.isDone = opening batch :=
    List.filter_eq_self.mpr fun _ hc => isDone_of_mem_opening hc
  have hlast : Call.hasCommitted ⟨.commit batch, some .done⟩ = true := rfl
  rw [durable, List.any_append, List.any_cons, hlast, Bool.true_or, Bool.or_true, if_pos rfl,
    List.filter_append, hall, List.filterMap_append, filterMap_opening]
  exact List.append_nil batch

/-- **All or nothing, and at most once.** -/
structure Transcript.AllOrNothing (t : Transcript) : Prop where
  orderly : ∀ calls ∈ t.attempts, Orderly t.batch calls
  /-- An attempt of which the commit went well is the last, and ends the flush well. -/
  of_committed : ∀ before calls later, t.attempts = before ++ calls :: later →
    calls.any Call.hasCommitted = true → later = [] ∧ t.outcome = some true
  /-- The batch is durable as a whole and once if the flush has ended well, and nothing of it is
  durable if it has not. -/
  durable_eq : t.durable = if t.outcome = some true then t.batch else []

/-- Attempts that came to nothing leave nothing durable. -/
theorem flatMap_durable {attempts : List (List Call)}
    (h : ∀ calls ∈ attempts, Futile batch calls) : attempts.flatMap durable = [] :=
  List.flatMap_eq_nil_iff.mpr fun calls hc => (h calls hc).durable_eq

/-- A flush whose attempts all came to nothing stores nothing. -/
theorem Transcript.allOrNothing_of_futile {t : Transcript}
    (h : ∀ calls ∈ t.attempts, Futile t.batch calls) (ho : t.outcome ≠ some true) :
    t.AllOrNothing where
  orderly calls hc := (h calls hc).orderly
  of_committed before calls later heq hcommitted := by
    have hfutile := h calls (heq ▸ List.mem_append_right before List.mem_cons_self)
    exact absurd (hfutile.not_committed.symm.trans hcommitted) nofun
  durable_eq := by
    rw [if_neg ho]
    exact flatMap_durable h

/-- A flush whose last attempt was committed stores its batch. -/
theorem Transcript.allOrNothing_of_committed {t : Transcript} {attempts : List (List Call)}
    (h : ∀ calls ∈ attempts, Futile t.batch calls)
    (ht : t.attempts = attempts ++ [opening t.batch ++ [⟨.commit t.batch, some .done⟩]])
    (ho : t.outcome = some true) : t.AllOrNothing where
  orderly := by
    rw [ht]
    refine List.forall_mem_append.mpr ⟨fun calls hc => (h calls hc).orderly, fun calls hc => ?_⟩
    rw [List.mem_singleton.mp hc]
    exact Leads.commit.orderly (some .done)
  of_committed := by
    rw [ht]
    intro before calls later heq hcommitted
    have hnot : calls ∉ attempts := fun hmem =>
      absurd ((h calls hmem).not_committed.symm.trans hcommitted) nofun
    exact ⟨(eq_of_concat_eq_append_cons hnot heq).2.2, ho⟩
  durable_eq := by
    rw [if_pos ho, durable, ht, List.flatMap_append, flatMap_durable h, List.nil_append,
      List.flatMap_singleton, durable_committed]

/-! ## What a flush keeps -/

/-- **How far the present attempt has come.** -/
def Stands (batch : List Record) : Phase → List Call → Prop
  | .asking pending _, calls =>
    ∃ before, Leads batch pending before ∧ calls = before ++ [pending.call batch none]
  | .resting _, calls => Futile batch calls

/-- As far as it has come, it has come to nothing. -/
theorem Stands.futile {phase : Phase} {calls : List Call} (h : Stands batch phase calls) :
    Futile batch calls := by
  cases phase with
  | asking pending ready =>
    obtain ⟨before, hleads, rfl⟩ := h
    exact hleads.futile_none
  | resting wake => exact h

/-- The transcripts of a history leave no request out. -/
def Covered (history : List WriterEvent) : Prop :=
  WriterEvent.gleaned WriterEvent.request? history =
    (transcripts history).flatMap Transcript.requests

/-- **A history without a flush under way.** -/
structure Idle (history : List WriterEvent) : Prop where
  covered : Covered history
  allOrNothing : ∀ t ∈ transcripts history, t.AllOrNothing

/-- **A history with a flush under way**, after the flushes `past`, the attempts `earlier` and the
calls of the present attempt. -/
structure Underway (trigger : Trigger) (batch : List Record) (past : List Transcript)
    (earlier : List (List Call)) (calls : List Call) (history : List WriterEvent) : Prop where
  covered : Covered history
  transcripts_eq : transcripts history = past ++ [⟨trigger, batch, earlier ++ [calls], none⟩]
  past_allOrNothing : ∀ t ∈ past, t.AllOrNothing
  earlier_futile : ∀ c ∈ earlier, Futile batch c

/-- **What a history shows**, with a flush under way if there is one. -/
def Shows (history : List WriterEvent) : Option Flight → Prop
  | none => Idle history
  | some f => ∃ past earlier calls, Underway f.trigger f.batch past earlier calls history ∧
    Stands f.batch f.phase calls

section Events

variable {trigger : Trigger} {past : List Transcript} {earlier : List (List Call)}
  {calls : List Call} {history : List WriterEvent} {time : Nat}

/-- The store is asked for something. -/
theorem Underway.asked (h : Underway trigger batch past earlier calls history) (request : Request) :
    Underway trigger batch past earlier (calls ++ [⟨request, none⟩])
      (.asked time request :: history) := by
  have ht : transcripts (.asked time request :: history) =
      past ++ [⟨trigger, batch, earlier ++ [calls ++ [⟨request, none⟩]], none⟩] := by
    rw [transcripts, h.transcripts_eq, List.modifyLast_concat, Transcript.ask,
      List.modifyLast_concat]
  refine { h with covered := ?_, transcripts_eq := ht }
  rw [Covered, ht, WriterEvent.gleaned_cons, h.covered, h.transcripts_eq]
  simp [Transcript.requests]

/-- The store answers. -/
theorem Underway.answered {before : List Call} {request : Request}
    (h : Underway trigger batch past earlier (before ++ [⟨request, none⟩]) history)
    (reply : Reply) :
    Underway trigger batch past earlier (before ++ [⟨request, some reply⟩])
      (.answered time request reply :: history) := by
  have ht : transcripts (.answered time request reply :: history) =
      past ++ [⟨trigger, batch, earlier ++ [before ++ [⟨request, some reply⟩]], none⟩] := by
    rw [transcripts, h.transcripts_eq, List.modifyLast_concat, Transcript.answer,
      List.modifyLast_concat, List.modifyLast_concat]
  refine { h with covered := ?_, transcripts_eq := ht }
  rw [Covered, ht, WriterEvent.gleaned_cons, h.covered, h.transcripts_eq]
  simp [Transcript.requests]

/-- After an attempt that came to nothing there is another one. -/
theorem Underway.attempted (h : Underway trigger batch past earlier calls history) {number : Nat}
    (hc : Futile batch calls) :
    Underway trigger batch past (earlier ++ [calls]) [] (.attempted time number :: history) := by
  have ht : transcripts (.attempted time number :: history) =
      past ++ [⟨trigger, batch, earlier ++ [calls] ++ [[]], none⟩] := by
    rw [transcripts, h.transcripts_eq, List.modifyLast_concat]
    rfl
  refine ⟨?_, ht, h.past_allOrNothing,
    List.forall_mem_append.mpr ⟨h.earlier_futile, fun c hmem => ?_⟩⟩
  · rw [Covered, ht, WriterEvent.gleaned_cons, h.covered, h.transcripts_eq]
    simp [Transcript.requests]
  · rw [List.mem_singleton.mp hmem]
    exact hc

/-- A flush begins with an attempt, which begins with a begin. -/
theorem Idle.handedOver (h : Idle history) (trigger : Trigger) (batch : List Record)
    (number : Nat) :
    Underway trigger batch (transcripts history) [] [⟨.begin, none⟩]
      (.asked time .begin :: .attempted time number :: .handedOver trigger batch ::
        history) := by
  have ht : transcripts (.attempted time number :: .handedOver trigger batch :: history) =
      transcripts history ++ [⟨trigger, batch, [] ++ [[]], none⟩] := by
    rw [transcripts, transcripts, List.modifyLast_concat]
    rfl
  refine Underway.asked ⟨?_, ht, h.allOrNothing, fun _ hc => absurd hc List.not_mem_nil⟩ .begin
  rw [Covered, ht, WriterEvent.gleaned_cons, WriterEvent.gleaned_cons, h.covered]
  simp [Transcript.requests]

/-- The flush ends, one way or the other. -/
theorem Underway.finish (h : Underway trigger batch past earlier calls history) {e : WriterEvent}
    {outcome : Bool} (hrequest : e.request? = none)
    (htranscripts : transcripts (e :: history) =
      (transcripts history).modifyLast (·.finish outcome))
    (hlast : (Transcript.finish ⟨trigger, batch, earlier ++ [calls], none⟩ outcome).AllOrNothing) :
    Idle (e :: history) := by
  have ht : transcripts (e :: history) =
      past ++ [Transcript.finish ⟨trigger, batch, earlier ++ [calls], none⟩ outcome] := by
    rw [htranscripts, h.transcripts_eq, List.modifyLast_concat]
  refine ⟨?_, ?_⟩
  · rw [Covered, ht, WriterEvent.gleaned_cons, hrequest, h.covered, h.transcripts_eq]
    simp [Transcript.requests, Transcript.finish]
  · rw [ht]
    exact List.forall_mem_append.mpr ⟨h.past_allOrNothing, by simpa using hlast⟩

/-- A flush under way has stored nothing so far, if its attempts have all come to nothing. -/
theorem Underway.forall_futile (h : Underway trigger batch past earlier calls history)
    (hc : Futile batch calls) : ∀ c ∈ earlier ++ [calls], Futile batch c :=
  List.forall_mem_append.mpr ⟨h.earlier_futile, by simpa using hc⟩

/-- The flush is left as it stands. -/
theorem Underway.idle (h : Underway trigger batch past earlier calls history)
    (hc : Futile batch calls) : Idle history := by
  refine ⟨h.covered, ?_⟩
  rw [h.transcripts_eq]
  refine List.forall_mem_append.mpr ⟨h.past_allOrNothing, fun t ht => ?_⟩
  rw [List.mem_singleton.mp ht]
  exact Transcript.allOrNothing_of_futile (h.forall_futile hc) nofun

/-- What does not concern the store leaves out nothing. -/
theorem Covered.cons (e : WriterEvent) (h : Covered history) (hrequest : e.request? = none)
    (htranscripts : transcripts (e :: history) = transcripts history) :
    Covered (e :: history) := by
  rw [Covered, WriterEvent.gleaned_cons, hrequest, htranscripts, h]
  exact List.append_nil _

/-- What does not concern the store shows nothing else of a flush under way. -/
theorem Underway.cons (e : WriterEvent) (h : Underway trigger batch past earlier calls history)
    (hrequest : e.request? = none)
    (htranscripts : transcripts (e :: history) = transcripts history) :
    Underway trigger batch past earlier calls (e :: history) :=
  { h with
    covered := h.covered.cons e hrequest htranscripts
    transcripts_eq := htranscripts.trans h.transcripts_eq }

/-- What does not concern the store shows nothing else. -/
theorem Shows.cons (e : WriterEvent) {flight : Option Flight} (h : Shows history flight)
    (hrequest : e.request? = none)
    (htranscripts : transcripts (e :: history) = transcripts history) :
    Shows (e :: history) flight := by
  cases flight with
  | none => exact ⟨h.covered.cons e hrequest htranscripts, htranscripts ▸ h.allOrNothing⟩
  | some f =>
    obtain ⟨past, earlier, calls, hunder, hstands⟩ := h
    exact ⟨past, earlier, calls, hunder.cons e hrequest htranscripts, hstands⟩

end Events

/-! ## Every step -/

namespace Writer

variable {σ : Type}

/-- **A writer whose history shows its flushes in order.** -/
def Conducts (w : Writer σ) : Prop := Shows w.history w.flight

/-- What the operator is told shows nothing else. -/
theorem Conducts.tell {w : Writer σ} (hw : w.Conducts) (n : Notice) : (w.tell n).Conducts :=
  Shows.cons (.told n) hw rfl rfl

/-- A batch is handed over while no flush is under way. -/
theorem conducts_handOver {now : Nat} {trigger : Trigger} {v w : Writer σ} (batch : List Record)
    (hw : w.Conducts) (hf : w.flight = none) (hh : v.history = w.history) :
    (v.handOver now trigger batch).Conducts := by
  have hidle : Idle v.history := by
    rw [Conducts, hf] at hw
    rw [hh]
    exact hw
  exact ⟨_, _, _, hidle.handedOver trigger batch 1, [], .begin, rfl⟩

/-- The store answers, and is asked for the next thing. -/
theorem Conducts.ask_hear {now : Nat} {w : Writer σ} {f : Flight} {pending next : Pending}
    {ready : Option Nat} {reply : Reply} {state : σ} (hw : w.Conducts) (hf : w.flight = some f)
    (hp : f.phase = .asking pending ready)
    (hnext : ∀ before, Leads f.batch pending before →
      Leads f.batch next (before ++ [pending.call f.batch (some reply)])) :
    ((w.hear now (pending.request f.batch) reply state).ask now f next).Conducts := by
  rw [Conducts, hf, Shows, hp] at hw
  obtain ⟨past, earlier, calls, hunder, before, hleads, rfl⟩ := hw
  exact ⟨past, earlier, _, (hunder.answered reply).asked _, _, hnext before hleads, rfl⟩

/-- **What is heard when an attempt fails** makes it one that came to nothing. -/
theorem Failing.exists_underway {now : Nat} {w : Writer σ} {f : Flight} {why : Failure}
    {heard : List WriterEvent} {s : σ} (h : Failing now w f why heard s) (hw : w.Conducts)
    (hf : w.flight = some f) :
    ∃ past earlier calls, Underway f.trigger f.batch past earlier calls
        (.attemptFailed now f.attempt why :: (heard ++ w.history)) ∧
      Futile f.batch calls := by
  rw [Conducts, hf, Shows] at hw
  obtain ⟨past, earlier, calls, hunder, hstands⟩ := hw
  cases h with
  | timeUp hp hd => exact ⟨_, _, _, hunder.cons _ rfl rfl, hstands.futile⟩
  | beginning hp hs | committing hp hs | rolledBack hp hs =>
    rw [hp] at hstands
    obtain ⟨before, hleads, rfl⟩ := hstands
    exact ⟨_, _, _, (hunder.answered _).cons _ rfl rfl, hleads.futile rfl⟩
  | rollbackFailed hp hs =>
    rw [hp] at hstands
    obtain ⟨before, hleads, rfl⟩ := hstands
    exact ⟨_, _, _, ((hunder.answered _).cons (.told _) rfl rfl).cons _ rfl rfl,
      hleads.futile rfl⟩

/-- What follows a flush shows nothing else. -/
theorem conducts_resume {now : Nat} {trigger : Trigger} {w : Writer σ} (hf : w.flight = none)
    (hw : Idle w.history) : (w.resume now trigger).Conducts := by
  have hshows : Shows w.history w.flight := by
    rw [hf]
    exact hw
  cases trigger <;> exact hshows

/-- **Every step keeps the flushes in order.** -/
theorem Conducts.step {w w' : Writer σ} {actor : Actor} (h : Step w actor w')
    (hw : w.Conducts) : w'.Conducts := by
  cases h with
  | accept record hc hq => exact Shows.cons (.accepted record) hw rfl rfl
  | overflow record hc hq => exact Shows.cons (.told _) hw rfl rfl
  | announce n hn => exact hw.tell n
  | mourn hf hc hl => exact Shows.cons (.told _) hw rfl rfl
  | refuse | spawn | close | drift | wake | gather | pass | finish | settle => exact hw
  | fill now hf | tick now hf | shut now hf | drain now hf =>
    exact conducts_handOver _ hw hf rfl
  | begun now hf hp hs =>
    refine hw.ask_hear hf hp fun before hleads => ?_
    cases hleads
    exact Leads.next (List.nil_append _).symm
  | inserted now hf hp hs =>
    refine hw.ask_hear hf hp fun before hleads => ?_
    cases hleads with
    | @insert inserted _ _ hb =>
      have hnext := Leads.next (hb.trans (List.append_cons inserted _ _))
      rw [opening_concat] at hnext
      exact hnext
  | rollBack now hf hp hs =>
    refine hw.ask_hear hf hp fun before hleads => ?_
    cases hleads with
    | insert hb => exact .rollback _ _ hb
  | commit now hf hp hs =>
    rw [Conducts, hf, Shows, hp] at hw
    obtain ⟨past, earlier, calls, hunder, before, hleads, rfl⟩ := hw
    cases hleads
    refine conducts_resume rfl ((hunder.answered .done).finish rfl rfl ?_)
    exact Transcript.allOrNothing_of_committed hunder.earlier_futile rfl rfl
  | @rest now f why heard s hf hwhy hr =>
    obtain ⟨past, earlier, calls, hunder, hfutile⟩ := hwhy.exists_underway hw hf
    exact ⟨past, earlier, calls, hunder.cons (.told _) rfl rfl, hfutile⟩
  | @giveUp now f why heard s hf hwhy hr =>
    obtain ⟨past, earlier, calls, hunder, hfutile⟩ := hwhy.exists_underway hw hf
    have hidle := hunder.finish (e := .dropped f.trigger f.batch) rfl rfl
      (Transcript.allOrNothing_of_futile (hunder.forall_futile hfutile) nofun)
    exact conducts_resume rfl (Shows.cons (.told _) (show Shows _ none from hidle) rfl rfl)
  | retry now hf hp =>
    rw [Conducts, hf, Shows, hp] at hw
    obtain ⟨past, earlier, calls, hunder, hfutile⟩ := hw
    exact ⟨_, _, _, (hunder.attempted hfutile).asked .begin, [], .begin, rfl⟩
  | @crash now f pending ready s hf hp hs =>
    rw [Conducts, hf, Shows, hp] at hw
    obtain ⟨past, earlier, calls, hunder, before, hleads, rfl⟩ := hw
    have hnot : (pending.call f.batch (some .crashed)).hasCommitted = false := by
      cases pending <;> rfl
    exact (hunder.answered .crashed).idle (hleads.futile hnot)

/-! ## Every run -/

/-- In every run of a writer that settings ask for, its flushes are in order. -/
theorem conducts_of_reaches {s : WriterSettings} {store : Store σ} {state : σ} {w : Writer σ}
    (h : Reaches (ofSettings s store state) w) : w.Conducts :=
  h.keeps Conducts.step ⟨rfl, fun _ ht => absurd ht List.not_mem_nil⟩

/-- What the transcripts show of a flush under way has come to nothing yet. -/
theorem Conducts.idle {w : Writer σ} (hw : w.Conducts) : Idle w.history := by
  rw [Conducts] at hw
  cases hf : w.flight with
  | none => rwa [hf] at hw
  | some f =>
    rw [hf] at hw
    obtain ⟨past, earlier, calls, hunder, hstands⟩ := hw
    exact hunder.idle hstands.futile

/-- **A batch is stored in full or not at all, and at most once.** In every run, whatever the
store does and however often it is tried, each batch that was handed over has a transcript, and
the store was asked for nothing else than the transcripts show. In each of them every attempt
begins once, inserts records of the batch in order from the first on, is committed only when it
has inserted all of them and rolled back only when an insertion has failed, and nothing follows a
commit that went well. So the batch is durable as a whole, once, if its flush has ended well, and
otherwise nothing of it is. -/
theorem allOrNothing_transcripts (s : WriterSettings) (store : Store σ) (state : σ)
    (deeds : List (Deed σ)) :
    let w := (ofSettings s store state).after deeds
    w.transcripts.map Transcript.handover = w.handovers ∧
      w.transcripts.flatMap Transcript.requests = w.requests ∧
      ∀ t ∈ w.transcripts, t.AllOrNothing := by
  intro w
  have hidle := (conducts_of_reaches (reaches_after deeds (ofSettings s store state))).idle
  exact ⟨map_handover_transcripts w.history, hidle.covered.symm, hidle.allOrNothing⟩

/-- A commit is refused and the batch tried again: the store sees it twice and keeps it once. -/
example :
    let w := (((ofSettings { batchSize := 1, retryBaseDelay := .zero } (Script.store "s")
      { scenes := [.failCommit] }).after
        [.move .start, .move (.turn 0), .write (some (.smooth "a"))]).run 0 0)
    (w.transcripts.map fun t => (t.attempts.map List.length, t.durable.map Record.node)) =
      [([3, 3], ["a"])] := by
  decide +kernel

end Writer

end LinkQuality
