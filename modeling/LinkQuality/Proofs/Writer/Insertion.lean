import LinkQuality.Proofs.Writer.Ledger

/-!
# Records that every store takes

A store needs the node of a record and asks for nothing else. As long as every record that a writer
has accepted is about a node, none of them stands in the way of a batch: each insertion goes well,
so no transaction is ever rolled back, and an attempt fails only because the store could not begin,
could not commit, or took too long (`Writer.Spares`).

The records of a flush are among those accepted (`mem_accepted_of_flight`), so what is asked of the
accepted records is asked of every record that a store is given.
-/

namespace LinkQuality

/-- A store can key a record if it is about a node. -/
theorem Record.check_of_node_ne {r : Record} (h : r.node ≠ "") : r.check = .ok () := if_neg h

/-- **A store that refuses a record only for want of a node.** -/
def Store.Keys {σ : Type} (store : Store σ) : Prop :=
  ∀ state record, (store.answer state (.insert record)).1 =
    match record.check with
    | .ok _ => .done
    | .error why => .failed why

/-- It takes every record that is about one. -/
theorem Store.Keys.answer_insert {σ : Type} {store : Store σ} (h : store.Keys) (state : σ)
    {record : Record} (hr : record.node ≠ "") :
    (store.answer state (.insert record)).1 = .done := by
  rw [h, Record.check_of_node_ne hr]

/-! ## Histories without blame -/

/-- **Why an attempt fails, if no record is to blame**, after what came before. -/
inductive Blameless (limits : Limits) (time : Nat) : Failure → List WriterEvent → Prop
  | timeUp {earlier} : Blameless limits time (Writer.timedOut limits) earlier
  | beginning {why earlier} :
    Blameless limits time (why.during "beginning transaction")
      (.answered time .begin (.failed why) :: earlier)
  | committing {why batch earlier} :
    Blameless limits time (why.during "committing transaction")
      (.answered time (.commit batch) (.failed why) :: earlier)

/-- **An event that no record is to blame for**, after what came before: an insertion that went
well, or anything else that is not a rollback, and not the failure of an attempt for its sake. -/
def WriterEvent.Spares (limits : Limits) (earlier : List WriterEvent) : WriterEvent → Prop
  | answered _ (.insert _) reply => reply = .done
  | asked _ .rollback => False
  | attemptFailed time _ why => Blameless limits time why earlier
  | _ => True

/-- A history of such events. -/
def Spared (limits : Limits) : List WriterEvent → Prop
  | [] => True
  | e :: earlier => e.Spares limits earlier ∧ Spared limits earlier

/-- Each event in it is one. -/
theorem Spared.of_suffix {limits : Limits} {history earlier : List WriterEvent} {e : WriterEvent}
    (h : Spared limits history) (hsuffix : e :: earlier <:+ history) :
    e.Spares limits earlier := by
  induction history with
  | nil => exact absurd (List.suffix_nil.mp hsuffix) nofun
  | cons e' history ih =>
    rcases List.suffix_cons_iff.mp hsuffix with heq | hsuffix
    · obtain ⟨rfl, rfl⟩ := List.cons.inj heq
      exact h.1
    · exact ih h.2 hsuffix

/-- Whatever stands in a history ends what comes up to it. -/
theorem Spared.of_mem {limits : Limits} {history : List WriterEvent} {e : WriterEvent}
    (h : Spared limits history) (he : e ∈ history) : ∃ earlier, e.Spares limits earlier := by
  obtain ⟨later, earlier, rfl⟩ := List.append_of_mem he
  exact ⟨earlier, h.of_suffix (List.suffix_append ..)⟩

namespace Writer

variable {σ : Type}

/-- **A writer to which no record has done harm.** -/
structure Spares (w : Writer σ) : Prop where
  spared : Spared w.limits w.history
  /-- There is no rollback under way. -/
  ne_rollback : ∀ f, w.flight = some f → ∀ cause ready, f.phase ≠ .asking (.rollback cause) ready

/-- After what went well comes no rollback. -/
theorem next_ne_rollback (records : List Record) (cause : Failure) :
    Pending.next records ≠ .rollback cause := by
  cases records <;> exact nofun

/-- Asking for anything but a rollback harms nobody. -/
theorem Spares.ask {now : Nat} {f : Flight} {pending : Pending} {w : Writer σ}
    (hw : Spared w.limits w.history) (hp : ∀ cause, pending ≠ .rollback cause) :
    (w.ask now f pending).Spares := by
  refine ⟨⟨?_, hw⟩, ?_⟩
  · cases pending with
    | rollback cause => exact absurd rfl (hp cause)
    | begin | insert | commit => trivial
  · rintro _ ⟨rfl⟩ cause ready hphase
    obtain ⟨rfl, -⟩ := Phase.asking.inj hphase
    exact hp cause rfl

/-- So does handing a batch over. -/
theorem Spares.handOver {now : Nat} {trigger : Trigger} {batch : List Record} {w : Writer σ}
    (hw : Spared w.limits w.history) : (w.handOver now trigger batch).Spares :=
  Spares.ask ⟨trivial, trivial, hw⟩ nofun

/-- A flush that ends leaves no rollback under way. -/
theorem Spares.resume {now : Nat} {trigger : Trigger} {w : Writer σ}
    (hw : Spared w.limits w.history) (hf : w.flight = none) : (w.resume now trigger).Spares := by
  have hnone : ∀ f, w.flight = some f → ∀ cause ready, f.phase ≠ .asking (.rollback cause) ready :=
    fun f h => absurd (hf.symm.trans h) nofun
  cases trigger <;> exact ⟨hw, hnone⟩

/-- **An attempt fails for no record's sake**, if none is being rolled back. -/
theorem Failing.spared {now : Nat} {w : Writer σ} {f : Flight} {why : Failure}
    {heard : List WriterEvent} {s : σ} (h : Failing now w f why heard s) (hf : w.flight = some f)
    (hw : w.Spares) :
    Spared w.limits (.attemptFailed now f.attempt why :: (heard ++ w.history)) := by
  cases h with
  | timeUp hp hd => exact ⟨.timeUp, hw.spared⟩
  | beginning hp hs => exact ⟨.beginning, trivial, hw.spared⟩
  | committing hp hs => exact ⟨.committing, trivial, hw.spared⟩
  | rolledBack hp hs | rollbackFailed hp hs => exact absurd hp (hw.ne_rollback f hf _ _)

/-- **No step does harm**, if the store takes all records of the flush under way. -/
theorem Spares.step {w w' : Writer σ} {actor : Actor} (h : Step w actor w') (hs : w.store.Keys)
    (hsound : Sound w) (hb : ∀ f, w.flight = some f → ∀ r ∈ f.batch, r.node ≠ "")
    (hw : w.Spares) : w'.Spares := by
  have hinsert : ∀ {f : Flight} {record rest ready}, w.flight = some f →
      f.phase = .asking (.insert record rest) ready →
      (w.store.answer w.state (.insert record)).1 = .done := by
    intro f record rest ready hf hp
    have hsuffix := (hsound.flight_sound f hf).suffix_of_insert record rest ready hp
    exact hs.answer_insert w.state (hb f hf record (hsuffix.subset List.mem_cons_self))
  cases h with
  | accept | overflow | announce | mourn => exact ⟨⟨trivial, hw.spared⟩, hw.ne_rollback⟩
  | refuse | spawn | close | drift | wake | gather | pass | finish | settle => exact { hw with }
  | fill | tick | shut | drain => exact .handOver hw.spared
  | begun now hf hp hs' => exact .ask ⟨trivial, hw.spared⟩ (next_ne_rollback _)
  | inserted now hf hp hs' => exact .ask ⟨rfl, hw.spared⟩ (next_ne_rollback _)
  | rollBack now hf hp hs' =>
    have hdone := hinsert hf hp
    rw [hs'] at hdone
    exact absurd hdone nofun
  | commit now hf hp hs' => exact .resume ⟨trivial, trivial, hw.spared⟩ rfl
  | rest now hf hwhy hr =>
    refine ⟨⟨trivial, hwhy.spared hf hw⟩, ?_⟩
    rintro _ ⟨rfl⟩ cause ready hphase
    exact absurd hphase nofun
  | giveUp now hf hwhy hr => exact .resume ⟨trivial, trivial, hwhy.spared hf hw⟩ rfl
  | retry now hf hp => exact .ask ⟨trivial, hw.spared⟩ nofun
  | @crash now f pending ready s hf hp hs' =>
    refine ⟨⟨?_, hw.spared⟩, fun _ h => absurd h nofun⟩
    cases pending with
    | begin | commit | rollback => trivial
    | insert record rest =>
      -- a store that takes the record does not bring anyone down with it
      have hdone := hinsert hf hp
      rw [Pending.request] at hs'
      rw [hs'] at hdone
      exact absurd hdone nofun

/-! ## Every run -/

/-- A step is taken in front of the same store. -/
theorem store_of_step {w w' : Writer σ} {actor : Actor} (h : Step w actor w') :
    w'.store = w.store := by
  cases h with
  | commit | giveUp => exact (resume_parts ..).1
  | _ => rfl

/-- The records of a flush under way have been accepted. -/
theorem mem_accepted_of_flight {s : WriterSettings} {store : Store σ} {state : σ} {w : Writer σ}
    (h : Reaches (ofSettings s store state) w) {f : Flight} (hf : w.flight = some f)
    {r : Record} (hr : r ∈ f.batch) : r ∈ w.accepted := by
  have hhanded : f.handover ∈ w.books.handovers := by
    rw [sequential_of_reaches h]
    refine List.mem_append_right _ ?_
    simp [books, hf]
  have haccepted : w.books.handovers.flatMap (·.2) ++ w.books.waiting = w.accepted :=
    conserves_of_reaches h
  rw [← haccepted]
  exact List.mem_append_left _ (List.mem_flatMap.mpr ⟨f.handover, hhanded, hr⟩)

/-- **Records about a node do no harm** in any run, if the store refuses others only. -/
theorem spares_of_reaches {s : WriterSettings} {store : Store σ} (hstore : store.Keys) {state : σ}
    {w : Writer σ} (h : Reaches (ofSettings s store state) w)
    (hw : ∀ r ∈ w.accepted, r.node ≠ "") : w.Spares := by
  induction h with
  | refl => exact ⟨trivial, fun _ h => absurd h nofun⟩
  | @tail u v hreaches hstep ih =>
    obtain ⟨actor, hstep⟩ := hstep
    have hreaches : Reaches (ofSettings s store state) u := hreaches
    have hsound := Sound.of_reaches hreaches
    have haccepted : v.accepted = u.accepted ++ actor.taken.toList :=
      (entry_of_step hsound hstep).accepted
    have hu : ∀ r ∈ u.accepted, r.node ≠ "" := fun r hr =>
      hw r (haccepted ▸ List.mem_append_left _ hr)
    have hsame : u.store = store :=
      hreaches.keeps (P := fun w => w.store = store) (fun hs => (store_of_step hs).trans) rfl
    exact (ih hu).step hstep (hsame ▸ hstore) hsound fun f hf r hr =>
      hu r (mem_accepted_of_flight hreaches hf hr)

/-- **A writer whose batches no record has harmed**: every insertion that was answered went well, no
rollback was asked for, and each attempt that failed did so at its beginning, at its commit or for
want of time. -/
structure Unharmed (w : Writer σ) : Prop where
  inserted : ∀ {time record reply}, .answered time (.insert record) reply ∈ w.history →
    reply = .done
  not_rolledBack : ∀ time, .asked time .rollback ∉ w.history
  blameless : ∀ {time attempt why earlier},
    .attemptFailed time attempt why :: earlier <:+ w.history → Blameless w.limits time why earlier

/-- This is what a history without blame comes to. -/
theorem Spares.unharmed {w : Writer σ} (hw : w.Spares) : w.Unharmed where
  inserted h := by
    obtain ⟨_, hdone⟩ := hw.spared.of_mem h
    exact hdone
  not_rolledBack _ h := by
    obtain ⟨_, hnever⟩ := hw.spared.of_mem h
    exact hnever
  blameless h := hw.spared.of_suffix h

end Writer

end LinkQuality
