import LinkQuality.Proofs.Cache.Sweep
import LinkQuality.Proofs.Writer.Rest

/-!
# The background workers

A writer has a consumer and a cache has a sweeper. Each of them is brought into being by a start
and ended for good by a stop, and neither comes back: what a start finds is settled by the starts
and stops before it, in whatever order these came, and is not affected by anything else that is
done with a writer or a cache. This is what is kept along a run, once for the writer
(`Writer.Launched`) and once for the cache (`Cache.Launched`). From it follow the number of workers
there can be, what a start or a stop is worth that comes too late, and that nothing is done in the
background once a stop is over (`workers_lifecycle`).

Runs are lists of deeds, so writes, stores and the steps of the background work may come in between
as they like. The stop of a writer takes time: it begins when the writer is closed and is over when
the writer has been stopped (`Consumer.stopped`). What is done meanwhile is part of the run. The
stop of a cache waits for the sweep that is under way, which in a run comes before it.
-/

namespace LinkQuality

/-! ## What comes about once -/

section Arrivals

variable {S D : Type} (step : S → D → S) (isThere : S → Prop) [DecidablePred isThere]

/-- **How often something comes about in a run**: the steps after which it is there, and before
which it was not. -/
def arrivals : S → List D → Nat
  | _, [] => 0
  | s, d :: run =>
    (if ¬ isThere s ∧ isThere (step s d) then 1 else 0) + arrivals (step s d) run

variable {step isThere} {late : S → Prop}

/-- What one step brings about and every step keeps is there after every run with that step. -/
theorem foldl_of_mem {P : S → Prop} (hkept : ∀ s d, P s → P (step s d)) {d : D} {run : List D}
    (hmem : d ∈ run) (hd : ∀ s, P (step s d)) (s : S) : P (run.foldl step s) := by
  obtain ⟨before, later, rfl⟩ := List.append_of_mem hmem
  rw [List.foldl_append, List.foldl_cons]
  exact List.foldlRecOn later step (hd _) fun s hs d _ => hkept s d hs

/-- When it is too late for something, it does not come about. -/
theorem arrivals_eq_zero (hkept : ∀ s d, late s → late (step s d))
    (hnew : ∀ s d, ¬ isThere s → isThere (step s d) → ¬ late s) {s : S} (hs : late s)
    (run : List D) : arrivals step isThere s run = 0 := by
  induction run generalizing s with
  | nil => rfl
  | cons d run ih =>
    rw [arrivals, if_neg fun h => hnew s d h.1 h.2 hs, ih (hkept s d hs)]

/-- **What comes about in time only, and once there makes it too late, comes about at most
once.** -/
theorem arrivals_le_one (hkept : ∀ s d, late s → late (step s d))
    (hnew : ∀ s d, ¬ isThere s → isThere (step s d) → ¬ late s) (hlate : ∀ s, isThere s → late s)
    (s : S) (run : List D) : arrivals step isThere s run ≤ 1 := by
  induction run generalizing s with
  | nil => exact Nat.zero_le 1
  | cons d run ih =>
    rw [arrivals]
    split
    next h => rw [arrivals_eq_zero hkept hnew (hlate _ h.2)]
    next => rw [Nat.zero_add]; exact ih _

end Arrivals

/-! ## The consumer of a writer -/

namespace Writer

variable {σ : Type}

/-- **The consumers that a run brings into being.** -/
def launches (w : Writer σ) (deeds : List (Deed σ)) : Nat :=
  arrivals perform (·.consumer = .spawned) w deeds

/-- **A writer for which a start comes too late**: there has been a consumer, or the writer has been
closed. -/
def Launched (w : Writer σ) : Prop := w.closed = true ∨ w.consumer ≠ .idle

/-- Where the consumer is after a flush. -/
theorem consumer_resume (now : Nat) (trigger : Trigger) (w : Writer σ) :
    (∃ due, (w.resume now trigger).consumer = .gathering due) ∨
      (w.resume now trigger).consumer = .ended ∨ (w.resume now trigger).consumer = w.consumer := by
  cases trigger with
  | size => exact .inl ⟨_, rfl⟩
  | shutdown => exact .inr (.inl rfl)
  | timer | drain => exact .inr (.inr rfl)

/-- **There is a new consumer only where there was none**, and never none again. -/
theorem consumer_of_step {w w' : Writer σ} {actor : Actor} (h : Step w actor w') :
    (w'.consumer = .spawned → w.consumer = .spawned ∨ w.consumer = .idle ∧ w.closed = false) ∧
      (w'.consumer = .idle → w.consumer = .idle) := by
  have hresume : ∀ (now : Nat) (trigger : Trigger) (v : Writer σ), v.consumer = w.consumer →
      ((v.resume now trigger).consumer = .spawned →
          w.consumer = .spawned ∨ w.consumer = .idle ∧ w.closed = false) ∧
        ((v.resume now trigger).consumer = .idle → w.consumer = .idle) := by
    intro now trigger v hv
    rcases consumer_resume now trigger v with ⟨due, heq⟩ | heq | heq <;> rw [heq]
    · exact ⟨nofun, nofun⟩
    · exact ⟨nofun, nofun⟩
    · rw [hv]
      exact ⟨.inl, id⟩
  cases h with
  | spawn hc hi => exact ⟨fun _ => .inr ⟨hi, hc⟩, nofun⟩
  | wake | pass | tick | finish | mourn | settle => exact ⟨nofun, nofun⟩
  | commit | giveUp => exact hresume _ _ _ rfl
  | @crash now f pending ready s hf hp hs =>
    have hgone : (crash f (w.hear now (pending.request f.batch) .crashed s)).consumer = .stopped ∨
        (crash f (w.hear now (pending.request f.batch) .crashed s)).consumer = .crashed := by
      unfold crash
      dsimp only
      split
      · exact .inl rfl
      · exact .inr rfl
    rcases hgone with heq | heq <;> rw [heq] <;> exact ⟨nofun, nofun⟩
  | _ => exact ⟨.inl, id⟩

/-- Too late is too late. -/
theorem Launched.step {w w' : Writer σ} {actor : Actor} (h : Step w actor w') (hw : w.Launched) :
    w'.Launched :=
  hw.imp (closed_of_step h) fun hne hidle => hne ((consumer_of_step h).2 hidle)

/-- It stays too late whatever is done. -/
theorem Launched.perform (w : Writer σ) (d : Deed σ) (hw : w.Launched) : (w.perform d).Launched :=
  (reaches_perform d w).keeps Launched.step hw

/-- A new consumer comes in time. -/
theorem not_launched_of_new (w : Writer σ) (d : Deed σ) (hbefore : w.consumer ≠ .spawned)
    (hafter : (w.perform d).consumer = .spawned) : ¬ w.Launched := by
  rcases perform_eq_or_step d w with ⟨heq, -⟩ | ⟨actor, -, hstep⟩
  · exact absurd (heq ▸ hafter) hbefore
  · obtain ⟨hidle, hopen⟩ := ((consumer_of_step hstep).1 hafter).resolve_left hbefore
    simp [Launched, hidle, hopen]

/-- **There is at most one consumer.** -/
theorem launches_le_one (w : Writer σ) (deeds : List (Deed σ)) : w.launches deeds ≤ 1 := by
  refine arrivals_le_one Launched.perform not_launched_of_new (fun w hw => .inr ?_) w deeds
  rw [hw]
  nofun

/-- A start that comes too late only tells the operator so. -/
theorem Launched.start_eq {w : Writer σ} (hw : w.Launched) : ∃ n, w.start = w.tell n := by
  unfold start
  split
  · exact ⟨_, rfl⟩
  next hc => exact ⟨_, if_pos (hw.resolve_left hc)⟩

/-- After a start or the beginning of a stop, a start comes too late. -/
theorem launched_of_mem {deeds : List (Deed σ)}
    (h : .move .start ∈ deeds ∨ .move .close ∈ deeds) (w : Writer σ) :
    (w.after deeds).Launched := by
  rcases h with h | h
  · refine foldl_of_mem Launched.perform h (fun v => ?_) w
    show v.start.Launched
    unfold start
    split
    next hc => exact .inl hc
    next =>
      split
      next hi => exact .inr hi
      next => exact .inr nofun
  · exact foldl_of_mem Launched.perform h (fun _ => .inl rfl) w

/-- After the beginning of a stop, the writer is closed. -/
theorem closed_of_mem {deeds : List (Deed σ)} (h : .move .close ∈ deeds) (w : Writer σ) :
    (w.after deeds).closed = true :=
  foldl_of_mem (P := (Writer.closed · = true))
    (fun v d hv => (reaches_perform d v).keeps closed_of_step hv) h (fun _ => rfl) w

/-! ### After the stop -/

end Writer

/-- Does the store take part in an event? -/
def WriterEvent.isContact : WriterEvent → Bool
  | asked .. | answered .. => true
  | _ => false

namespace Writer

variable {σ : Type}

/-- **What has passed between a writer and its store**, latest first. -/
def contacts (w : Writer σ) : List WriterEvent := w.history.filter WriterEvent.isContact

/-- A writer that has been stopped is closed, and no flush is under way. -/
theorem Sound.atRest {w : Writer σ} (hw : Sound w) (hs : w.consumer = .stopped) :
    w.AtRest ∧ w.closed = true := by
  refine ⟨⟨hs, ?_⟩, hw.closed_of_gone (.inr hs)⟩
  cases hf : w.flight with
  | none => rfl
  | some f =>
    have hplaces := hw.flight_places f hf
    cases ht : f.trigger <;> simp [Places, ht, hs] at hplaces

/-- **At rest, a closed writer leaves its store alone.** -/
theorem AtRest.step {w w' : Writer σ} {actor : Actor} (h : Step w actor w') (hw : w.AtRest)
    (hc : w.closed = true) : w'.AtRest ∧ w'.contacts = w.contacts := by
  obtain ⟨hs, hf⟩ := hw
  cases h with
  | accept _ ho | overflow _ ho | spawn ho => exact absurd (hc.symm.trans ho) nofun
  | refuse | announce | close | drift => exact ⟨⟨hs, hf⟩, rfl⟩
  | wake _ _ hother | gather _ hother | fill _ _ hother | pass _ _ hother | tick _ _ hother
  | finish _ hother | shut _ _ hother | mourn _ _ hother =>
    exact absurd (hs.symm.trans hother) nofun
  | drain _ _ _ hother | settle _ _ hother =>
    rcases hother with hother | hother <;> exact absurd (hs.symm.trans hother) nofun
  | begun _ hsome | inserted _ hsome | rollBack _ hsome | commit _ hsome | rest _ hsome
  | giveUp _ hsome | retry _ hsome | crash _ hsome => exact absurd (hf.symm.trans hsome) nofun

/-- It does so for good. -/
theorem AtRest.reaches {w w' : Writer σ} (h : Reaches w w') (hw : w.AtRest)
    (hc : w.closed = true) : w'.AtRest ∧ w'.closed = true ∧ w'.contacts = w.contacts := by
  refine h.keeps (P := fun v => v.AtRest ∧ v.closed = true ∧ v.contacts = w.contacts)
    (fun hstep hv => ?_) ⟨hw, hc, rfl⟩
  obtain ⟨hrest, hclosed, heq⟩ := hv
  obtain ⟨hrest', hsame⟩ := hrest.step hstep hclosed
  exact ⟨hrest', closed_of_step hstep hclosed, hsame.trans heq⟩

/-- A run without a close leaves the writer open. -/
theorem open_of_not_mem {deeds : List (Deed σ)} (h : .move .close ∉ deeds) {w : Writer σ}
    (hw : w.closed = false) : (w.after deeds).closed = false := by
  induction deeds generalizing w with
  | nil => exact hw
  | cons d deeds ih =>
    obtain ⟨hd, hdeeds⟩ := List.ne_and_not_mem_of_not_mem_cons h
    exact ih hdeeds ((closed_perform hd.symm w).trans hw)

/-- **How the consumer of a writer comes and goes** in a run. -/
structure Lifecycle (w : Writer σ) (deeds : List (Deed σ)) : Prop where
  /-- There is at most one. -/
  launches_le : w.launches deeds ≤ 1
  /-- A second start, or a start after the beginning of a stop, only tells the operator so. -/
  start_eq : .move .start ∈ deeds ∨ .move .close ∈ deeds →
    ∃ n, (w.after deeds).start = (w.after deeds).tell n
  /-- A second stop does nothing. -/
  stop_eq : .move .close ∈ deeds → ∀ now, (w.after deeds).stop now = (now, w.after deeds)
  /-- A first stop ends with the writer stopped, and then its store is left alone. -/
  contacts_stop : .move .close ∉ deeds → ∀ now, ((w.after deeds).stop now).2.consumer = .stopped ∧
    ∀ later, (((w.after deeds).stop now).2.after later).contacts =
      ((w.after deeds).stop now).2.contacts
  /-- So it is however the writer has come to be stopped, whoever took part meanwhile. -/
  contacts_eq : (w.after deeds).consumer = .stopped →
    ∀ later, ((w.after deeds).after later).contacts = (w.after deeds).contacts

/-- So it is with every writer that settings ask for. -/
theorem lifecycle_ofSettings (s : WriterSettings) (store : Store σ) (state : σ)
    (deeds : List (Deed σ)) : (ofSettings s store state).Lifecycle deeds where
  launches_le := launches_le_one _ deeds
  start_eq h := (launched_of_mem h _).start_eq
  stop_eq h now := if_pos (closed_of_mem h _)
  contacts_stop h now := by
    have hreaches := reaches_after deeds (ofSettings s store state)
    have hstop := stop_atRest (.of_reaches hreaches) (open_of_not_mem h rfl) now
    have hsound := Sound.of_reaches (hreaches.trans (reaches_stop now _))
    refine ⟨hstop.1, fun later => ?_⟩
    exact (hstop.reaches (reaches_after later _) (hsound.atRest hstop.1).2).2.2
  contacts_eq hs := by
    obtain ⟨hrest, hc⟩ := Sound.atRest (.of_reaches (reaches_after deeds _)) hs
    exact fun later => (hrest.reaches (reaches_after later _) hc).2.2

end Writer

/-! ## The sweeper of a cache -/

namespace Cache

open Sweep.Audience (Reaction)

/-- **How hooks behave**: what each of them does to the cache on being told of a node, with all
that the cache shows before it, its past included. -/
abbrev Conduct : Type := Hook → String → List Summary → Cache → List Reaction

/-- A hook is told of a node, and does something about it. -/
def respond (react : Conduct) (hook : Hook) (node : String) (summaries : List Summary)
    (c : Cache) : Cache :=
  (react hook node summaries c).foldl Reaction.perform (c.witness hook node summaries)

/-- A sweep among such hooks, over nodes in a given order. -/
def sweepAmong (react : Conduct) (order : List String) (c : Cache) : Cache :=
  (Sweep.visits id (respond react) order c).countSweep

/-- The next step of the background sweep among such hooks, if there is one at time `now`. -/
def turnAmong (react : Conduct) (order : List String) (now : Nat) (c : Cache) : Cache :=
  if c.sweepDue now then rearm now (if c.ticks then c.sweepAmong react order else c) else c

/-- Hooks that only take note make it the step of a cache that stands alone. -/
theorem turnAmong_eq (now : Nat) (c : Cache) :
    c.turnAmong (fun _ _ _ _ => []) c.nodeNames now = (c.turn? now).getD c := by
  unfold turnAmong turn?
  split <;> rfl

/-- **One thing that can be done with a cache.** -/
inductive Deed where
  | store (node : String) (sample : Option Sample)
  | onSweep (role : Role)
  /-- A sweep by hand. -/
  | sweep (react : Conduct) (order : List String)
  | start
  | stop
  /-- The background sweep takes its next step, if there is one at time `now`. -/
  | turn (react : Conduct) (order : List String) (now : Nat)

/-- The cache after a deed. -/
def enact (c : Cache) : Deed → Cache
  | .store node sample => (c.store node sample).2
  | .onSweep role => c.onSweep role
  | .sweep react order => c.sweepAmong react order
  | .start => c.start
  | .stop => c.stop
  | .turn react order now => c.turnAmong react order now

/-- **The cache after a run.** -/
def afterDeeds (c : Cache) (deeds : List Deed) : Cache := deeds.foldl enact c

theorem afterDeeds_append (c : Cache) (deeds later : List Deed) :
    c.afterDeeds (deeds ++ later) = (c.afterDeeds deeds).afterDeeds later :=
  List.foldl_append ..

/-- **The sweepers that a run brings into being.** -/
def launches (c : Cache) (deeds : List Deed) : Nat :=
  arrivals enact (·.sweeper = .spawned) c deeds

/-- **The visits that hooks were told of**, latest first. -/
def visited (c : Cache) : List CacheEvent :=
  c.history.filter fun
    | .visited .. => true
    | .told _ => false

/-! ### What leaves the sweeper alone -/

/-- **A cache whose sweeper is left alone**, from `c` to `c'`. -/
structure Leaves (c c' : Cache) : Prop where
  sweeper_eq : c'.sweeper = c.sweeper
  stopped_eq : c'.stopped = c.stopped

theorem Leaves.trans {c c' c'' : Cache} (h₁ : Leaves c c') (h₂ : Leaves c' c'') : Leaves c c'' :=
  ⟨h₂.sweeper_eq.trans h₁.sweeper_eq, h₂.stopped_eq.trans h₁.stopped_eq⟩

/-- A store leaves it alone, and tells nobody anything. -/
theorem leaves_store (c : Cache) (node : String) (sample : Option Sample) :
    Leaves c (c.store node sample).2 ∧ (c.store node sample).2.history = c.history := by
  unfold store register
  split
  · exact ⟨⟨rfl, rfl⟩, rfl⟩
  · cases sample with
    | none => exact ⟨⟨rfl, rfl⟩, rfl⟩
    | some s => cases c.nodes.get? node <;> (dsimp only; split <;> exact ⟨⟨rfl, rfl⟩, rfl⟩)

/-- A hook that takes note leaves it alone. -/
theorem leaves_witness (c : Cache) (hook : Hook) (node : String) (summaries : List Summary) :
    Leaves c (c.witness hook node summaries) := by
  unfold witness
  dsimp only
  split
  · split <;> exact ⟨rfl, rfl⟩
  · exact ⟨rfl, rfl⟩

/-- So does whatever a hook does. -/
theorem leaves_respond (react : Conduct) (hook : Hook) (node : String) (summaries : List Summary)
    (c : Cache) : Leaves c (respond react hook node summaries c) := by
  refine List.foldlRecOn _ Reaction.perform (c.leaves_witness hook node summaries) ?_
  intro c' hc' reaction _
  cases reaction with
  | store node sample => exact hc'.trans (c'.leaves_store node sample).1
  | register role => exact hc'.trans ⟨rfl, rfl⟩

/-- So does a sweep. -/
theorem leaves_sweepAmong (react : Conduct) (order : List String) (c : Cache) :
    Leaves c (c.sweepAmong react order) := by
  have hkept : Leaves c (Sweep.visits id (respond react) order c) :=
    Sweep.visits_keeps (P := Leaves c)
      (fun hook node _ _ _ hs => hs.trans (leaves_respond react hook node _ _)) order ⟨rfl, rfl⟩
  exact ⟨hkept.sweeper_eq, hkept.stopped_eq⟩

/-- A step of the background sweep sets its timer at most. -/
theorem turnAmong_parts (react : Conduct) (order : List String) (now : Nat) (c : Cache) :
    (c.turnAmong react order now).stopped = c.stopped ∧
      ((c.turnAmong react order now).sweeper = c.sweeper ∨
        ∃ due, (c.turnAmong react order now).sweeper = .waiting due) := by
  have hrearm : ∀ c' : Cache, (c'.rearm now).stopped = c'.stopped ∧
      ((c'.rearm now).sweeper = c'.sweeper ∨ ∃ due, (c'.rearm now).sweeper = .waiting due) := by
    intro c'
    unfold rearm
    split
    · exact ⟨rfl, .inl rfl⟩
    · exact ⟨rfl, .inr ⟨_, rfl⟩⟩
    · exact ⟨rfl, .inr ⟨_, rfl⟩⟩
  unfold turnAmong
  split
  · split
    · have hleaves := c.leaves_sweepAmong react order
      obtain ⟨hstopped, hsweeper⟩ := hrearm (c.sweepAmong react order)
      rw [hleaves.sweeper_eq] at hsweeper
      exact ⟨hstopped.trans hleaves.stopped_eq, hsweeper⟩
    · exact hrearm c
  · exact ⟨rfl, .inl rfl⟩

/-- Without a sweeper there is no background sweep. -/
theorem turnAmong_of_absent {c : Cache} (h : c.sweeper = .absent) (react : Conduct)
    (order : List String) (now : Nat) : c.turnAmong react order now = c := by
  rw [turnAmong, sweepDue, h]
  rfl

/-! ### Starts that come too late -/

/-- **A cache for which a start comes too late**: there is a sweeper, or the cache has been
stopped. -/
def Launched (c : Cache) : Prop := c.stopped = true ∨ c.sweeper ≠ .absent

/-- **There is a new sweeper only where a start comes in time.** Too late is too late. -/
theorem launched_enact (c : Cache) (d : Deed) :
    ((c.enact d).sweeper = .spawned → c.sweeper = .spawned ∨ ¬ c.Launched) ∧
      (c.Launched → (c.enact d).Launched) := by
  have hleaves : ∀ {c' : Cache}, Leaves c c' →
      (c'.sweeper = .spawned → c.sweeper = .spawned ∨ ¬ c.Launched) ∧
        (c.Launched → c'.Launched) := by
    intro c' h
    rw [Launched, Launched, h.sweeper_eq, h.stopped_eq]
    exact ⟨.inl, id⟩
  cases d with
  | store node sample => exact hleaves (c.leaves_store node sample).1
  | onSweep role => exact hleaves ⟨rfl, rfl⟩
  | sweep react order => exact hleaves (c.leaves_sweepAmong react order)
  | stop => exact ⟨nofun, fun _ => .inl rfl⟩
  | turn react order now =>
    obtain ⟨hstopped, hsweeper⟩ := c.turnAmong_parts react order now
    rcases hsweeper with heq | ⟨due, heq⟩
    · exact hleaves ⟨heq, hstopped⟩
    · refine ⟨fun h => absurd (heq.symm.trans h) nofun, fun _ => .inr ?_⟩
      rw [enact, heq]
      nofun
  | start =>
    rw [enact, start]
    split
    · exact hleaves ⟨rfl, rfl⟩
    next hopen =>
      split
      · exact hleaves ⟨rfl, rfl⟩
      next habsent =>
        refine ⟨fun _ => .inr ?_, fun _ => .inr nofun⟩
        exact fun h => h.elim hopen habsent

/-- **There is at most one sweeper**, over all the time of a cache. -/
theorem launches_le_one (c : Cache) (deeds : List Deed) : c.launches deeds ≤ 1 := by
  refine arrivals_le_one (fun c d => (c.launched_enact d).2)
    (fun c d hbefore hafter => ((c.launched_enact d).1 hafter).resolve_left hbefore)
    (fun c hc => .inr ?_) c deeds
  rw [hc]
  nofun

/-- After a start, a start comes too late. -/
theorem launched_of_mem {deeds : List Deed} (h : .start ∈ deeds) (c : Cache) :
    (c.afterDeeds deeds).Launched := by
  refine foldl_of_mem (fun c d => (c.launched_enact d).2) h (fun c => ?_) c
  rw [enact, start]
  split
  next hstopped => exact .inl hstopped
  next =>
    split
    next hthere => exact .inr hthere
    next => exact .inr nofun

/-- Nothing but a stop stops a cache. -/
theorem stopped_enact {d : Deed} (hd : d ≠ .stop) (c : Cache) :
    (c.enact d).stopped = c.stopped := by
  cases d with
  | store node sample => exact (c.leaves_store node sample).1.stopped_eq
  | onSweep role => rfl
  | sweep react order => exact (c.leaves_sweepAmong react order).stopped_eq
  | turn react order now => exact (c.turnAmong_parts react order now).1
  | stop => exact absurd rfl hd
  | start =>
    rw [enact, start]
    split
    · rfl
    · split <;> rfl

/-- So a run without one does not. -/
theorem running_of_not_mem {deeds : List Deed} (h : .stop ∉ deeds) {c : Cache}
    (hc : c.stopped = false) : (c.afterDeeds deeds).stopped = false := by
  refine List.foldlRecOn (motive := (Cache.stopped · = false)) deeds _ hc fun c' hc' d hd => ?_
  exact (stopped_enact (fun heq => h (heq ▸ hd)) c').trans hc'

/-- A start finds a sweeper if one has been started and the cache was not stopped. -/
theorem Launched.start_eq {c : Cache} (hc : c.Launched) (hs : c.stopped = false) :
    c.start = c := by
  rw [start, if_neg (by simp [hs]), if_pos (hc.resolve_left (by simp [hs]))]

/-! ### After the stop -/

/-- **A cache of which the background sweep has been ended.** -/
structure Ended (c : Cache) : Prop where
  stopped : c.stopped = true
  sweeper : c.sweeper = .absent

/-- It has ended for good. -/
theorem Ended.enact {c : Cache} (hc : c.Ended) (d : Deed) : (c.enact d).Ended := by
  have hleaves : ∀ {c' : Cache}, Leaves c c' → c'.Ended := fun h =>
    ⟨h.stopped_eq.trans hc.stopped, h.sweeper_eq.trans hc.sweeper⟩
  cases d with
  | store node sample => exact hleaves (c.leaves_store node sample).1
  | onSweep role => exact hleaves ⟨rfl, rfl⟩
  | sweep react order => exact hleaves (c.leaves_sweepAmong react order)
  | start => rw [Cache.enact, start, if_pos hc.stopped]; exact hleaves ⟨rfl, rfl⟩
  | stop => exact ⟨rfl, rfl⟩
  | turn react order now =>
    rw [Cache.enact, turnAmong_of_absent hc.sweeper]
    exact hc

/-- It has after a stop, whatever follows. -/
theorem ended_of_mem {deeds : List Deed} (h : .stop ∈ deeds) (c : Cache) :
    (c.afterDeeds deeds).Ended :=
  foldl_of_mem (P := Ended) (fun _ d hc => hc.enact d) h (fun _ => ⟨rfl, rfl⟩) c

/-- Another stop does nothing. -/
theorem Ended.stop_eq {c : Cache} (hc : c.Ended) : c.stop = c := by
  obtain ⟨hstopped, hsweeper⟩ := hc
  cases c
  cases hstopped
  cases hsweeper
  rfl

/-- A start only tells the operator that it comes too late. -/
theorem Ended.start_eq {c : Cache} (hc : c.Ended) :
    c.start = { c with history := .told .stoppedCache :: c.history } :=
  if_pos hc.stopped

/-- Is it a sweep by hand? -/
def Deed.isSweep : Deed → Bool
  | sweep .. => true
  | _ => false

/-- **Nobody is told of anything** but in a sweep by hand. -/
theorem Ended.visited_eq {c : Cache} (hc : c.Ended) {d : Deed} (hd : d.isSweep = false) :
    (c.enact d).visited = c.visited := by
  cases d with
  | store node sample => rw [visited, Cache.enact, (c.leaves_store node sample).2, visited]
  | onSweep | stop => rfl
  | sweep => exact absurd hd nofun
  | start => rw [Cache.enact, hc.start_eq]; rfl
  | turn react order now => rw [Cache.enact, turnAmong_of_absent hc.sweeper]

/-- **How the sweeper of a cache comes and goes** in a run. -/
structure Lifecycle (c : Cache) (deeds : List Deed) : Prop where
  /-- There is at most one. -/
  launches_le : c.launches deeds ≤ 1
  /-- A second start does nothing. -/
  start_again : .start ∈ deeds → .stop ∉ deeds → (c.afterDeeds deeds).start = c.afterDeeds deeds
  /-- A start after a stop only tells the operator so. -/
  start_late : .stop ∈ deeds → (c.afterDeeds deeds).start =
    { c.afterDeeds deeds with history := .told .stoppedCache :: (c.afterDeeds deeds).history }
  /-- A second stop does nothing. -/
  stop_eq : .stop ∈ deeds → (c.afterDeeds deeds).stop = c.afterDeeds deeds
  /-- After a stop nobody is told of anything but in a sweep by hand. -/
  visited_eq : .stop ∈ deeds → ∀ d : Deed, d.isSweep = false →
    ((c.afterDeeds deeds).enact d).visited = (c.afterDeeds deeds).visited

/-- So it is with every cache that settings ask for. -/
theorem lifecycle_ofSettings (s : CacheSettings) (deeds : List Deed) :
    (ofSettings s).Lifecycle deeds where
  launches_le := launches_le_one _ deeds
  start_again hstart hstop := (launched_of_mem hstart _).start_eq (running_of_not_mem hstop rfl)
  start_late h := (ended_of_mem h _).start_eq
  stop_eq h := (ended_of_mem h _).stop_eq
  visited_eq h _ hd := (ended_of_mem h _).visited_eq hd

end Cache

/-! ## Both -/

/-- **The background workers come once and go for good.** In every run of a writer and of a cache,
whatever the store answers and whatever the hooks do, and with starts and stops in any order: there
is at most one consumer and at most one sweeper over all time. A start of what has been started or
stopped, and a stop of what has been stopped, changes nothing but that the operator may be told.
When the stop of a writer is over, its store is left alone for good; after the stop of a cache
nobody is told of a node but in a sweep by hand. -/
theorem workers_lifecycle {σ : Type} (ws : WriterSettings) (store : Store σ) (state : σ)
    (deeds : List (Writer.Deed σ)) (cs : CacheSettings) (uses : List Cache.Deed) :
    (Writer.ofSettings ws store state).Lifecycle deeds ∧ (Cache.ofSettings cs).Lifecycle uses :=
  ⟨Writer.lifecycle_ofSettings ws store state deeds, Cache.lifecycle_ofSettings cs uses⟩

end LinkQuality
