import LinkQuality.Proofs.Writer.Atomicity

/-!
# Which attempts are rolled back

A store may expect that every transaction it has begun is ended, by a commit that it says went
well or by a rollback. A writer rolls back only after an insertion that was refused. An attempt
whose time is up is left where it stands, with its last call unanswered; a commit that was refused
has used its transaction up; and an answer that the flush does not survive leaves nobody to roll
back. What was staged then stays with the store, which is not told.

The order of the calls within an attempt (`Leads`) says how an attempt comes to a request. What is
added here is at which answers it can stop there (`Pending.CanEnd`): the answers after which the
next request follows at once are no place to stop. Attempts of that shape (`Concludes`) are kept by
each step of a writer (`Writer.tells_step`), from the order that is known of them already, and the
main statement is read off the shape (`Concludes.unwinds`, `Writer.unwinds_transcripts`).
-/

namespace LinkQuality

namespace Call

/-- Has the store said that a transaction has begun? -/
def hasBegun (c : Call) : Bool :=
  match c.request with
  | .begin => c.isDone
  | _ => false

/-- Was the store asked to roll back? -/
def isRollback (c : Call) : Bool :=
  match c.request with
  | .rollback => true
  | _ => false

/-- Has the store refused a record? -/
def isRefusal (c : Call) : Bool :=
  match c.request, c.reply with
  | .insert _, some (.failed _) => true
  | _, _ => false

/-- Does a transaction stay open if nothing follows? An insertion was not answered or was the end
of the flush, or a commit did not go well. -/
def leavesOpen (c : Call) : Bool :=
  match c.request, c.reply with
  | .insert _, none | .insert _, some .crashed => true
  | .commit _, _ => !c.isDone
  | _, _ => false

end Call

/-! ## Where an attempt stops -/

/-- **The answers at which an attempt can stop**, none at all being one of them. When a transaction
has begun or a record is in, the next request follows at once, and so does the rollback when a
record is refused. -/
def Pending.CanEnd : Pending → Option Reply → Prop
  | .begin, some .done | .insert .., some .done | .insert .., some (.failed _) => False
  | _, _ => True

/-- An attempt can stop where it awaits an answer. -/
theorem Pending.canEnd_none (pending : Pending) : pending.CanEnd none := by
  cases pending <;> trivial

/-- So it can where the flush dies. -/
theorem Pending.canEnd_crashed (pending : Pending) : pending.CanEnd (some .crashed) := by
  cases pending <;> trivial

/-- **An attempt at a batch as far as it comes**, until it ends or while it lasts. -/
def Concludes (batch : List Record) (calls : List Call) : Prop :=
  ∃ pending before reply, Leads batch pending before ∧ pending.CanEnd reply ∧
    calls = before ++ [pending.call batch reply]

/-- Every attempt of a flush comes that far and no farther. -/
def Transcript.Tells (t : Transcript) : Prop := ∀ calls ∈ t.attempts, Concludes t.batch calls

/-- So does every attempt that a history shows. -/
def Tells (history : List WriterEvent) : Prop := ∀ t ∈ transcripts history, t.Tells

variable {batch : List Record} {pending : Pending} {before calls : List Call}

/-- An attempt whose last call awaits its answer. -/
theorem Leads.concludes_none (h : Leads batch pending before) :
    Concludes batch (before ++ [pending.call batch none]) :=
  ⟨pending, before, none, h, pending.canEnd_none, rfl⟩

/-! ## What is read off an attempt -/

/-- **When a transaction that was begun is rolled back**, and when it is left open. -/
structure Unwinds (calls : List Call) : Prop where
  /-- A rollback is asked for if and only if a record has been refused. -/
  rolledBack_iff : calls.any Call.isRollback = true ↔ calls.any Call.isRefusal = true
  /-- A transaction that was begun and not committed goes without a rollback if and only if the
  last call leaves it open. -/
  abandoned_iff : calls.any Call.hasBegun = true → calls.any Call.hasCommitted = false →
    (calls.any Call.isRollback = false ↔ ∃ last ∈ calls.getLast?, last.leavesOpen = true)

/-- Among what went well there is no rollback, and no record is refused. -/
theorem any_opening (records : List Record) :
    (opening records).any Call.isRollback = false ∧
      (opening records).any Call.isRefusal = false := by
  constructor <;>
  · refine List.any_eq_false.mpr fun c hc => ?_
    rcases List.mem_cons.mp hc with rfl | hc
    · exact Bool.false_ne_true
    · obtain ⟨r, -, rfl⟩ := List.mem_map.mp hc
      exact Bool.false_ne_true

/-- What went well, and then a call that neither rolls back nor refuses a record: there has been
no rollback, so a transaction that is not committed is open. -/
theorem unwinds_opening (records : List Record) {last : Call} (hrollback : last.isRollback = false)
    (hrefusal : last.isRefusal = false)
    (hopen : last.hasCommitted = false → last.leavesOpen = true) :
    Unwinds (opening records ++ [last]) := by
  obtain ⟨hnone, hall⟩ := any_opening records
  have hno : (opening records ++ [last]).any Call.isRollback = false := by
    rw [List.any_append, hnone, List.any_cons, hrollback]
    rfl
  refine ⟨?_, fun _ hnot => ⟨fun _ => ⟨last, by simp, ?_⟩, fun _ => hno⟩⟩
  · rw [hno, List.any_append, hall, List.any_cons, hrefusal]
    rfl
  · refine hopen ?_
    rw [List.any_append, List.any_cons, Bool.or_eq_false_iff, Bool.or_eq_false_iff] at hnot
    exact hnot.2.1

/-- **How an attempt comes to its last call tells whether it is rolled back.** -/
theorem Concludes.unwinds (h : Concludes batch calls) : Unwinds calls := by
  obtain ⟨pending, before, reply, hleads, hend, rfl⟩ := h
  cases hleads with
  | begin =>
    -- nothing has begun, or the attempt would not stop here
    refine ⟨Iff.rfl, fun hbegun _ => ?_⟩
    rcases reply with _ | _ | _ | _
    · exact absurd hbegun nofun
    · exact hend.elim
    all_goals exact absurd hbegun nofun
  | insert hb =>
    refine unwinds_opening _ rfl ?_ fun _ => ?_ <;> rcases reply with _ | _ | _ | _ <;>
      first | rfl | exact hend.elim
  | commit =>
    refine unwinds_opening _ rfl rfl fun hnot => ?_
    have hdone : (Pending.commit.call batch reply).isDone = false := hnot
    exact congrArg not hdone
  | rollback why cause hb =>
    refine ⟨iff_of_true ?_ ?_, fun _ _ => iff_of_false ?_ ?_⟩
    · exact List.any_eq_true.mpr ⟨_, List.mem_concat_self, rfl⟩
    · exact List.any_eq_true.mpr ⟨_, List.mem_append_left _ List.mem_concat_self, rfl⟩
    · exact fun hno => List.any_eq_false.mp hno _ List.mem_concat_self rfl
    · rintro ⟨last, hlast, hopen⟩
      rw [List.getLast?_concat, Option.mem_some_iff] at hlast
      subst hlast
      exact absurd hopen nofun

/-! ## What a flush keeps -/

variable {trigger : Trigger} {past : List Transcript} {earlier : List (List Call)}
  {history : List WriterEvent}

/-- With a flush under way, it is told of the flushes before it, of the attempts that have failed
and of the present one. -/
theorem Underway.tells_iff (h : Underway trigger batch past earlier calls history) :
    Tells history ↔
      (∀ t ∈ past, t.Tells) ∧ (∀ c ∈ earlier, Concludes batch c) ∧ Concludes batch calls := by
  rw [Tells, h.transcripts_eq, List.forall_mem_append, List.forall_mem_singleton, Transcript.Tells,
    List.forall_mem_append, List.forall_mem_singleton]

/-- While it lasts, the present attempt can come farther. -/
theorem Underway.tells (h : Underway trigger batch past earlier calls history)
    (ht : Tells history) {calls' : List Call} {history' : List WriterEvent}
    (h' : Underway trigger batch past earlier calls' history') (hc : Concludes batch calls') :
    Tells history' :=
  h'.tells_iff.mpr ⟨(h.tells_iff.mp ht).1, (h.tells_iff.mp ht).2.1, hc⟩

/-- The store gives an answer at which the present attempt can stop. -/
theorem Underway.tells_answered {reply : Reply} (time : Nat)
    (h : Underway trigger batch past earlier (before ++ [pending.call batch none]) history)
    (ht : Tells history) (hleads : Leads batch pending before)
    (hend : pending.CanEnd (some reply)) :
    Tells (.answered time (pending.request batch) reply :: history) :=
  h.tells ht (h.answered reply) ⟨pending, before, some reply, hleads, hend, rfl⟩

/-- How a flush ends does not change what its attempts were. -/
theorem tells_modifyLast_finish {ts : List Transcript} (outcome : Bool)
    (h : ∀ t ∈ ts, t.Tells) : ∀ t ∈ ts.modifyLast (·.finish outcome), t.Tells := by
  rcases List.eq_nil_or_concat ts with rfl | ⟨past, t, rfl⟩
  · exact h
  · rw [List.concat_eq_append] at h ⊢
    rw [List.modifyLast_concat]
    obtain ⟨hpast, ht⟩ := List.forall_mem_append.mp h
    have hlast : t.Tells := ht t (List.mem_singleton_self t)
    exact List.forall_mem_append.mpr ⟨hpast, List.forall_mem_singleton.mpr hlast⟩

namespace Writer

variable {σ : Type}

/-- A batch is handed over. -/
theorem tells_handOver {now : Nat} {w v : Writer σ} (batch : List Record) (hw : w.Conducts)
    (ht : Tells w.history) (hh : v.history = w.history) :
    Tells (v.handOver now trigger batch).history := by
  have hidle : Idle v.history := hh ▸ hw.idle
  refine (hidle.handedOver trigger batch 1).tells_iff.mpr ⟨?_, ?_, Leads.begin.concludes_none⟩
  · rw [hh]
    exact ht
  · exact fun _ hc => absurd hc List.not_mem_nil

/-- The store answers, and is asked for the next thing. -/
theorem tells_ask_hear {now : Nat} {w : Writer σ} {f : Flight} {pending next : Pending}
    {ready : Option Nat} {reply : Reply} {state : σ} (hw : w.Conducts) (hf : w.flight = some f)
    (hp : f.phase = .asking pending ready) (ht : Tells w.history)
    (hnext : ∀ before, Leads f.batch pending before →
      Leads f.batch next (before ++ [pending.call f.batch (some reply)])) :
    Tells ((w.hear now (pending.request f.batch) reply state).ask now f next).history := by
  rw [Conducts, hf, Shows, hp] at hw
  obtain ⟨past, earlier, calls, hunder, before, hleads, rfl⟩ := hw
  exact hunder.tells ht ((hunder.answered reply).asked _) (hnext before hleads).concludes_none

/-- What is heard when an attempt fails is an answer at which it can stop. -/
theorem Failing.tells {now : Nat} {w : Writer σ} {f : Flight} {why : Failure}
    {heard : List WriterEvent} {s : σ} (h : Failing now w f why heard s) (hw : w.Conducts)
    (hf : w.flight = some f) (ht : Tells w.history) : Tells (heard ++ w.history) := by
  rw [Conducts, hf, Shows] at hw
  obtain ⟨past, earlier, calls, hunder, hstands⟩ := hw
  cases h with
  | timeUp hp hd => exact ht
  | beginning hp hs | committing hp hs | rolledBack hp hs | rollbackFailed hp hs =>
    rw [hp] at hstands
    obtain ⟨before, hleads, rfl⟩ := hstands
    exact hunder.tells_answered now ht hleads trivial

/-- **Every step keeps where attempts stop.** -/
theorem tells_step {w w' : Writer σ} {actor : Actor} (h : Step w actor w') (hw : w.Conducts)
    (ht : Tells w.history) : Tells w'.history := by
  cases h with
  | accept | overflow | announce | mourn | refuse | spawn | close | drift | wake | gather | pass
  | finish | settle => exact ht
  | fill | tick | shut | drain => exact tells_handOver _ hw ht rfl
  | begun now hf hp hs =>
    refine tells_ask_hear hw hf hp ht fun before hleads => ?_
    cases hleads
    exact Leads.next (List.nil_append _).symm
  | inserted now hf hp hs =>
    refine tells_ask_hear hw hf hp ht fun before hleads => ?_
    cases hleads with
    | @insert inserted _ _ hb =>
      have hnext := Leads.next (hb.trans (List.append_cons inserted _ _))
      rw [opening_concat] at hnext
      exact hnext
  | rollBack now hf hp hs =>
    refine tells_ask_hear hw hf hp ht fun before hleads => ?_
    cases hleads with
    | insert hb => exact .rollback _ _ hb
  | commit now hf hp hs =>
    rw [Conducts, hf, Shows, hp] at hw
    obtain ⟨past, earlier, calls, hunder, before, hleads, rfl⟩ := hw
    rw [succeed, history_resume]
    refine tells_modifyLast_finish true ?_
    exact hunder.tells_answered now ht hleads trivial
  | rest now hf hwhy hr => exact hwhy.tells hw hf ht
  | giveUp now hf hwhy hr =>
    rw [giveUp, history_resume]
    exact tells_modifyLast_finish false (hwhy.tells hw hf ht)
  | retry now hf hp =>
    rw [Conducts, hf, Shows, hp] at hw
    obtain ⟨past, earlier, calls, hunder, hfutile⟩ := hw
    obtain ⟨hpast, hearlier, hcalls⟩ := hunder.tells_iff.mp ht
    refine ((hunder.attempted hfutile).asked .begin).tells_iff.mpr
      ⟨hpast, ?_, Leads.begin.concludes_none⟩
    exact List.forall_mem_append.mpr ⟨hearlier, List.forall_mem_singleton.mpr hcalls⟩
  | @crash now f pending ready s hf hp hs =>
    rw [Conducts, hf, Shows, hp] at hw
    obtain ⟨past, earlier, calls, hunder, before, hleads, rfl⟩ := hw
    exact hunder.tells_answered now ht hleads pending.canEnd_crashed

/-! ## Every run -/

/-- In every run of a writer that settings ask for, attempts stop nowhere else. -/
theorem tells_of_reaches {s : WriterSettings} {store : Store σ} {state : σ} {w : Writer σ}
    (h : Reaches (ofSettings s store state) w) : Tells w.history := by
  have hkept : w.Conducts ∧ Tells w.history :=
    h.keeps (P := fun w => w.Conducts ∧ Tells w.history)
      (fun hstep hv => ⟨hv.1.step hstep, tells_step hstep hv.1 hv.2⟩)
      ⟨conducts_of_reaches (.refl _), fun _ ht => absurd ht List.not_mem_nil⟩
  exact hkept.2

/-- **A transaction is rolled back after a refused insertion and never else.** In every run,
whatever the store does and however late it answers, the store was asked for nothing else than the
transcripts show, and every attempt in them asks for a rollback if and only if a record has been
refused in it. A transaction that has begun and is not committed goes without one if and only if
the last call of the attempt leaves it open: an insertion that was not answered in time, or that
the flush did not survive, or a commit that did not go well. -/
theorem unwinds_transcripts (s : WriterSettings) (store : Store σ) (state : σ)
    (deeds : List (Deed σ)) :
    let w := (ofSettings s store state).after deeds
    w.transcripts.flatMap Transcript.requests = w.requests ∧
      ∀ t ∈ w.transcripts, ∀ calls ∈ t.attempts, Unwinds calls := by
  intro w
  have hreaches : Reaches (ofSettings s store state) w := reaches_after deeds _
  refine ⟨(conducts_of_reaches hreaches).idle.covered.symm, fun t ht calls hcalls => ?_⟩
  exact (tells_of_reaches hreaches t ht calls hcalls).unwinds

/-- **Time that is up rolls nothing back.** The store takes half a second over an insertion, the
attempt has twenty milliseconds, and there is no second one. The flush ends with the transaction
begun, not committed and not rolled back. -/
theorem not_rolledBack_after_timeout :
    let w := (((ofSettings
      { batchSize := 1, maxAttempts := 1, transactionTimeout := ⟨20000000⟩ } (Script.store "mock")
      { scenes := [.slowInsert 500] }).after [.move .start, .write (some (.smooth "a"))]).run 0 100)
    ¬ ∀ t ∈ w.transcripts, t.outcome ≠ none → ∀ calls ∈ t.attempts,
      calls.any Call.hasBegun = true → calls.any Call.hasCommitted = false →
        calls.any Call.isRollback = true := by
  decide +kernel

/-- A commit that is refused is not rolled back either: the batch is tried again in a transaction
of its own. -/
example :
    let w := (((ofSettings { batchSize := 1, retryBaseDelay := .zero } (Script.store "mock")
      { scenes := [.failCommit] }).after
        [.move .start, .move (.turn 0), .write (some (.smooth "a"))]).run 0 0)
    (w.transcripts.map fun t => t.attempts.map fun calls =>
      (calls.any Call.hasBegun, calls.any Call.hasCommitted, calls.any Call.isRollback)) =
        [[(true, false, false), (true, true, false)]] := by
  decide +kernel

end Writer

end LinkQuality
