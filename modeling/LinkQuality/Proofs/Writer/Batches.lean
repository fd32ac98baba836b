import LinkQuality.Proofs.Writer.Atomicity

/-!
# The size and the order of batches

What sets off a flush says how large its batch is and when it can come. While the consumer gathers,
a batch is handed over when it is full or when its time is up; told to end, the consumer hands over
what it holds, once; when it is gone, what is left in the queue follows, in full batches as long as
there are so many records. The batching rule is written twice, once for the consumer and once for
the stop, and both keep within the same limit.

A run therefore goes through three stages (`Trigger.stage`), and never back. How far it has come can
be read off the writer (`Writer.reached`), which no step lets fall (`reached_le_of_step`). Every
batch so far is of a stage that has been reached, and that carries the induction
(`Staged.step`): a full batch is handed over at the first stage only, the last batch of the consumer
ends that stage, and a batch of what is left over that is not full empties the queue.

What becomes of a writer from the moment it is closed is stated apart (`WindsUp`): the consumer
flushes what it holds, and takes nothing more out of the queue.
-/

namespace LinkQuality

/-- **The stages of a run**: the consumer gathers, it ends, it is gone. -/
def Trigger.stage : Trigger → Nat
  | size | timer => 0
  | shutdown => 1
  | drain => 2

/-- **The number of records that fits what set off a flush**, where `limit` make a batch full. -/
def Trigger.Fits (limit : Nat) : Trigger → Nat → Prop
  | size, n => n = limit
  | timer, n | shutdown, n => 0 < n ∧ n < limit
  | drain, n => 0 < n ∧ n ≤ limit

/-- No batch is empty or more than full. -/
theorem Trigger.Fits.bounds {limit n : Nat} {trigger : Trigger} (h : trigger.Fits limit n)
    (hlimit : 0 < limit) : 0 < n ∧ n ≤ limit := by
  cases trigger with
  | size =>
    have hfull : n = limit := h
    omega
  | timer | shutdown => exact ⟨h.1, Nat.le_of_lt h.2⟩
  | drain => exact h

/-- **May a batch come before another one?** Full batches and those whose time was up come before
any, the last batch of the consumer only before what was left over, and of what was left over only
the last batch need not be full. -/
def Precedes (limit : Nat) (a b : Trigger × List Record) : Prop :=
  match a.1 with
  | .size | .timer => True
  | .shutdown => b.1 = .drain
  | .drain => b.1 = .drain ∧ a.2.length = limit

/-- A batch of the first stage may come before any. -/
theorem precedes_of_stage {limit : Nat} {a : Trigger × List Record} (h : a.1.stage = 0)
    (b : Trigger × List Record) : Precedes limit a b := by
  obtain ⟨trigger, batch⟩ := a
  cases trigger with
  | size | timer => trivial
  | shutdown | drain => exact absurd h nofun

/-- What comes first is of no later stage. -/
theorem Precedes.stage_le {limit : Nat} {a b : Trigger × List Record} (h : Precedes limit a b) :
    a.1.stage ≤ b.1.stage := by
  obtain ⟨trigger, batch⟩ := a
  cases trigger with
  | size | timer => exact Nat.zero_le _
  | shutdown =>
    have hb : b.1 = .drain := h
    rw [hb]
    exact Nat.le_succ 1
  | drain =>
    have hb : b.1 = .drain := h.1
    rw [hb]

namespace Writer

variable {σ : Type}

/-- **The stage that a writer has reached.** Once it is told to stop without a consumer, only what
is left over can be flushed. -/
def reached (w : Writer σ) : Nat :=
  match w.consumer with
  | .spawned => 0
  | .gathering _ => if w.flight.any (·.trigger = .shutdown) then 1 else 0
  | .crashed => 1
  | .idle => if w.closed then 2 else 0
  | .ended | .stopped => 2

/-- A consumer that gathers is at the first stage while no flush is under way. -/
theorem reached_of_gathering {w : Writer σ} {due : Nat} (hg : w.consumer = .gathering due)
    (hf : w.flight = none) : w.reached = 0 := by
  simp [reached, hg, hf]

/-- A flush of the consumer finds it there, and one of what was left over finds it gone. -/
theorem Sound.reached_of_flight {w : Writer σ} {f : Flight} (hw : Sound w)
    (hf : w.flight = some f) : w.reached = f.trigger.stage := by
  have hplaces := hw.flight_places f hf
  cases ht : f.trigger with
  | size | timer =>
    rw [ht] at hplaces
    obtain ⟨due, hg⟩ := hplaces
    simp [reached, hg, hf, ht, Trigger.stage]
  | shutdown =>
    rw [ht] at hplaces
    obtain ⟨-, due, hg⟩ := hplaces
    simp [reached, hg, hf, ht, Trigger.stage]
  | drain =>
    rw [ht] at hplaces
    obtain ⟨hc, hl | hl⟩ := hplaces <;> simp [reached, hl, hc, Trigger.stage]

/-- An open writer is not at the last stage. -/
theorem Sound.reached_of_open {w : Writer σ} (hw : Sound w) (hc : w.closed = false) :
    w.reached ≤ 1 := by
  have hgone := hw.closed_of_gone
  cases hs : w.consumer with
  | idle | spawned | crashed => simp [reached, hs, hc]
  | gathering due =>
    simp only [reached, hs]
    split <;> decide
  | ended | stopped => simp [hs, hc] at hgone

/-- At the end of a flush its stage is still reached. -/
theorem Sound.le_reached_resume {now : Nat} {w v : Writer σ} {f : Flight} (hw : Sound w)
    (hf : w.flight = some f) (hc : v.consumer = w.consumer) (hl : v.closed = w.closed) :
    w.reached ≤ (v.resume now f.trigger).reached := by
  have hplaces := hw.flight_places f hf
  rw [hw.reached_of_flight hf]
  cases ht : f.trigger with
  | size | timer => exact Nat.zero_le _
  | shutdown => exact Nat.le_succ 1
  | drain =>
    rw [ht] at hplaces
    obtain ⟨hclosed, hg | hg⟩ := hplaces <;>
      simp [reached, Writer.resume, Trigger.stage, hc, hl, hg, hclosed]

/-- **No step falls back to an earlier stage.** -/
theorem reached_le_of_step {w w' : Writer σ} {actor : Actor} (hw : Sound w)
    (h : Step w actor w') : w.reached ≤ w'.reached := by
  cases h with
  | spawn hc hi => simp [reached, hi, hc]
  | close => simp only [reached, Writer.close]; cases w.consumer <;> grind
  | wake now hf hs => simp [reached, hs]
  | fill now hf hg | pass now hf hg | tick now hf hg | finish hf hg | shut now hf hg =>
    rw [reached_of_gathering hg hf]
    exact Nat.zero_le _
  | mourn hf hc hl => simp [reached, mourn, tell, note, takeBatch, hl]
  | drain now hf hc hl hq | settle hf hc hl hq =>
    rcases hl with hl | hl <;> simp [reached, hl, hc, showBacklog, takeBatch, handOver,
      beginAttempt, ask, note]
  | commit now hf hp hs => exact hw.le_reached_resume hf rfl rfl
  | giveUp now hf hwhy hr => exact hw.le_reached_resume hf rfl rfl
  | @crash now f pending ready s hf hp hs =>
    rw [hw.reached_of_flight hf]
    cases ht : f.trigger <;> simp [reached, Writer.crash, ht, Trigger.stage]
  | accept | overflow | refuse | announce | drift | gather => exact Nat.le_refl _
  | begun now hf | inserted now hf | rollBack now hf | rest now hf | retry now hf =>
    simp [reached, hf, ask, beginAttempt, note, hear, Writer.rest, tell, noteFailure]

/-! ## The batches so far -/

/-- **The batches that a writer has handed over** are of the size and in the order that their
triggers ask for, and none is of a stage that has not been reached. -/
structure Staged (w : Writer σ) : Prop where
  fits : ∀ h ∈ w.handovers, h.1.Fits w.limits.batchSize h.2.length
  ordered : w.handovers.Pairwise (Precedes w.limits.batchSize)
  stage_le : ∀ h ∈ w.handovers, h.1.stage ≤ w.reached
  /-- After a batch of what was left over that is not full, nothing is left over. -/
  queue_of_partial : ∀ h ∈ w.handovers, h.1 = .drain → h.2.length < w.limits.batchSize →
    w.queue = []

/-- At rest nothing has been handed over. -/
theorem staged_ofSettings (s : WriterSettings) (store : Store σ) (state : σ) :
    Staged (ofSettings s store state) where
  fits _ h := absurd h List.not_mem_nil
  ordered := .nil
  stage_le _ h := absurd h List.not_mem_nil
  queue_of_partial _ h := absurd h List.not_mem_nil

/-- An open writer has flushed nothing that was left over. -/
theorem Staged.ne_drain {w : Writer σ} (hs : w.Staged) (hw : Sound w) (hc : w.closed = false) :
    ∀ h ∈ w.handovers, h.1 ≠ .drain := by
  intro h hmem hdrain
  have hle := (hs.stage_le h hmem).trans (hw.reached_of_open hc)
  rw [hdrain] at hle
  exact absurd hle (by decide)

/-- **A step that hands nothing over** leaves the batches as they are. -/
theorem Staged.keep {w v : Writer σ} (hs : w.Staged) (hl : v.limits = w.limits)
    (hh : v.handovers = w.handovers) (hr : w.reached ≤ v.reached)
    (hq : v.queue = w.queue ∨ ∀ h ∈ w.handovers, h.1 ≠ .drain) : v.Staged where
  fits := by
    rw [hl, hh]
    exact hs.fits
  ordered := by
    rw [hl, hh]
    exact hs.ordered
  stage_le h hmem := (hs.stage_le h (hh ▸ hmem)).trans hr
  queue_of_partial h hmem hdrain hlt := by
    rw [hh] at hmem
    rw [hl] at hlt
    rcases hq with hq | hnone
    · rw [hq]
      exact hs.queue_of_partial h hmem hdrain hlt
    · exact absurd hdrain (hnone h hmem)

/-- **A step that hands a batch over** adds it to those before it. -/
theorem Staged.handOver {now : Nat} {trigger : Trigger} {batch : List Record} {w v : Writer σ}
    (hs : w.Staged) (hl : v.limits = w.limits) (hh : v.history = w.history)
    (hfits : trigger.Fits w.limits.batchSize batch.length)
    (hbefore : ∀ h ∈ w.handovers, Precedes w.limits.batchSize h (trigger, batch))
    (hr : trigger.stage ≤ (v.handOver now trigger batch).reached)
    (hq : trigger = .drain → batch.length < w.limits.batchSize → v.queue = []) :
    (v.handOver now trigger batch).Staged := by
  have hhandovers : (v.handOver now trigger batch).handovers =
      w.handovers ++ [(trigger, batch)] := by
    simp [handovers, Writer.handOver, beginAttempt, ask, note, hh]
  have hlimits : (v.handOver now trigger batch).limits = w.limits := hl
  constructor
  · rw [hhandovers, hlimits]
    exact List.forall_mem_append.mpr ⟨hs.fits, List.forall_mem_singleton.mpr hfits⟩
  · rw [hhandovers, hlimits, List.pairwise_append]
    refine ⟨hs.ordered, List.pairwise_singleton _ _, fun h hmem b hb => ?_⟩
    rw [List.mem_singleton.mp hb]
    exact hbefore h hmem
  · rw [hhandovers]
    refine List.forall_mem_append.mpr ⟨fun h hmem => ?_, List.forall_mem_singleton.mpr hr⟩
    exact (hbefore h hmem).stage_le.trans hr
  · rw [hhandovers, hlimits]
    refine List.forall_mem_append.mpr
      ⟨fun h hmem hdrain hlt => ?_, List.forall_mem_singleton.mpr hq⟩
    -- an earlier batch of what was left over, if any, was full
    have hfull := hbefore h hmem
    rw [Precedes, hdrain] at hfull
    exact absurd hfull.2 (Nat.ne_of_lt hlt)

/-- While the consumer gathers and no flush is under way, all batches are of the first stage. -/
theorem Staged.precedes {w : Writer σ} (hs : w.Staged) {due : Nat}
    (hg : w.consumer = .gathering due) (hf : w.flight = none) (b : Trigger × List Record) :
    ∀ h ∈ w.handovers, Precedes w.limits.batchSize h b := by
  intro h hmem
  have hle := hs.stage_le h hmem
  rw [reached_of_gathering hg hf] at hle
  exact precedes_of_stage (Nat.le_zero.mp hle) b

/-- What is left over may follow any batch, as long as something is left over. -/
theorem Staged.precedes_drain {w : Writer σ} (hs : w.Staged) (hq : w.queue ≠ [])
    (batch : List Record) : ∀ h ∈ w.handovers, Precedes w.limits.batchSize h (.drain, batch) := by
  intro h hmem
  have hfits := hs.fits h hmem
  have hpartial := hs.queue_of_partial h hmem
  obtain ⟨trigger, earlier⟩ := h
  cases trigger with
  | size | timer => trivial
  | shutdown => rfl
  | drain =>
    have hfull : ¬earlier.length < w.limits.batchSize := fun hlt => hq (hpartial rfl hlt)
    exact ⟨rfl, Nat.le_antisymm hfits.2 (Nat.le_of_not_lt hfull)⟩

/-- **Each step keeps the size and the order of batches.** -/
theorem Staged.step {w w' : Writer σ} {actor : Actor} (h : Step w actor w') (hw : Sound w)
    (hs : w.Staged) : w'.Staged := by
  have hreached := reached_le_of_step hw h
  cases h with
  | accept record hc hq | gather hf hg hc =>
    exact hs.keep rfl rfl hreached (.inr (hs.ne_drain hw hc))
  | overflow | refuse | announce | spawn | close | drift | wake | pass | finish | mourn | settle =>
    exact hs.keep rfl rfl hreached (.inl rfl)
  | fill now hf hg hc hq hb =>
    have hlen := Nat.le_antisymm hw.batch_lt hb
    refine hs.handOver rfl rfl ?_ (hs.precedes hg hf _) (Nat.zero_le _) nofun
    rw [List.length_append]
    exact hlen
  | tick now hf hg hc hq hd hb =>
    exact hs.handOver rfl rfl ⟨List.length_pos_iff.mpr hb, hw.batch_lt⟩ (hs.precedes hg hf _)
      (Nat.zero_le _) nofun
  | shut now hf hg hc hb =>
    refine hs.handOver rfl rfl ⟨List.length_pos_iff.mpr hb, hw.batch_lt⟩ (hs.precedes hg hf _) ?_
      nofun
    simp [reached, Writer.handOver, beginAttempt, ask, note, takeBatch, hg, Trigger.stage]
  | drain now hf hc hl hq =>
    have hpos := List.length_pos_iff.mpr (take_queue_ne_nil hq)
    refine hs.handOver rfl rfl ⟨hpos, List.length_take_le ..⟩ (hs.precedes_drain hq _) ?_ ?_
    · refine Nat.le_trans (Nat.le_of_eq ?_) hreached
      rcases hl with hl | hl <;> simp [reached, hl, hc, Trigger.stage]
    · intro _ hlt
      rw [List.length_take] at hlt
      exact List.drop_eq_nil_of_le (by omega)
  | begun | inserted | rollBack | retry | crash =>
    exact hs.keep rfl rfl hreached (.inl rfl)
  | commit =>
    obtain ⟨hh, hq, -⟩ := resume_keeps _ _ _
    exact hs.keep (limits_resume ..) hh hreached (.inl hq)
  | rest now hf hwhy hr =>
    exact hs.keep rfl hwhy.handovers_noteFailure hreached (.inl rfl)
  | giveUp now hf hwhy hr =>
    obtain ⟨hh, hq, -⟩ := resume_keeps _ _ _
    exact hs.keep (limits_resume ..) (hh.trans hwhy.handovers_noteFailure) hreached (.inl hq)

/-- **In every run the batches are of the size and in the order that their triggers ask for.** -/
theorem staged_of_reaches {s : WriterSettings} {store : Store σ} {state : σ} {w : Writer σ}
    (h : Reaches (ofSettings s store state) w) : w.Staged := by
  have hkept : Sound w ∧ w.Staged := by
    refine h.keeps (P := fun w => Sound w ∧ w.Staged) ?_
      ⟨sound_ofSettings s store state, staged_ofSettings s store state⟩
    rintro u v actor hstep ⟨hu, hs⟩
    exact ⟨hu.step hstep, hs.step hstep hu⟩
  exact hkept.2

/-! ### What the order comes to -/

/-- The last batch of the consumer is the only one of its kind. -/
theorem countP_shutdown_le {limit : Nat} {batches : List (Trigger × List Record)}
    (h : batches.Pairwise (Precedes limit)) : batches.countP (·.1 = .shutdown) ≤ 1 := by
  rw [List.countP_eq_length_filter]
  have hfiltered := h.filter (·.1 = .shutdown)
  have hall : ∀ b ∈ batches.filter (·.1 = .shutdown), b.1 = .shutdown := fun b hb => by
    simpa using (List.mem_filter.mp hb).2
  generalize batches.filter (·.1 = .shutdown) = last at hfiltered hall
  match last with
  | [] => exact Nat.zero_le 1
  | [_] => exact Nat.le_refl 1
  | a :: b :: rest =>
    have hab := List.rel_of_pairwise_cons hfiltered List.mem_cons_self
    rw [Precedes, hall a List.mem_cons_self] at hab
    have hb : b.1 = .shutdown := hall b (by simp)
    exact absurd (hab.symm.trans hb) nofun

/-- Of the batches of what was left over all but the last are full. -/
theorem length_of_mem_dropLast {limit : Nat} {batches : List (Trigger × List Record)}
    (h : batches.Pairwise (Precedes limit)) :
    ∀ b ∈ (batches.filter (·.1 = .drain)).dropLast, b.2.length = limit := by
  intro b hb
  have hfiltered := h.filter (·.1 = .drain)
  have hdrain : b.1 = .drain := by
    simpa using (List.mem_filter.mp (List.dropLast_subset _ hb)).2
  rcases List.eq_nil_or_concat (batches.filter (·.1 = .drain)) with hl | ⟨before, last, hl⟩
  · rw [hl] at hb
    exact absurd hb List.not_mem_nil
  · rw [List.concat_eq_append] at hl
    rw [hl, List.dropLast_concat] at hb
    rw [hl, List.pairwise_append] at hfiltered
    have hlast := hfiltered.2.2 b hb last (List.mem_singleton_self last)
    rw [Precedes, hdrain] at hlast
    exact hlast.2

/-- **What a store is asked to commit is a batch that was handed over.** -/
theorem mem_handovers_of_commit {s : WriterSettings} {store : Store σ} {state : σ} {w : Writer σ}
    (h : Reaches (ofSettings s store state) w) {records : List Record}
    (hrequest : .commit records ∈ w.requests) : records ∈ w.handovers.map (·.2) := by
  have hidle := (conducts_of_reaches h).idle
  have hcovered : w.requests = w.transcripts.flatMap Transcript.requests := hidle.covered
  rw [hcovered] at hrequest
  obtain ⟨t, ht, hrequest⟩ := List.mem_flatMap.mp hrequest
  obtain ⟨⟨_, reply⟩, hcall, rfl⟩ := List.mem_map.mp hrequest
  obtain ⟨calls, hcalls, hcall⟩ := List.mem_flatten.mp hcall
  obtain ⟨before, later, rfl⟩ := List.append_of_mem hcall
  obtain ⟨-, rfl, -⟩ := ((hidle.allOrNothing t ht).orderly _ hcalls).of_commit _ _ _ _ rfl
  have hhandover : t.handover ∈ w.handovers := by
    rw [handovers, ← map_handover_transcripts]
    exact List.mem_map_of_mem ht
  exact List.mem_map_of_mem hhandover

/-! ## Winding up -/

/-- **What is handed over once a writer is closed**: by the consumer what it holds, and no record
that is still in the queue; by the stop what is in the queue. -/
structure WindsUp (w v : Writer σ) (later : List (Trigger × List Record)) : Prop where
  handovers_eq : v.handovers = w.handovers ++ later
  trigger_eq : ∀ h ∈ later, h.1 = .shutdown ∨ h.1 = .drain
  held : (later.filter (·.1 = .shutdown)).flatMap (·.2) ++ v.batch = w.batch
  queued : (later.filter (·.1 = .drain)).flatMap (·.2) ++ v.queue = w.queue

/-- At first that is nothing. -/
theorem WindsUp.refl (w : Writer σ) : WindsUp w w [] :=
  ⟨(List.append_nil _).symm, fun _ h => absurd h List.not_mem_nil, rfl, rfl⟩

variable {w u v : Writer σ} {later : List (Trigger × List Record)}

/-- Nothing comes of a step that hands nothing over. -/
theorem WindsUp.keep (h : WindsUp w u later) (hh : v.handovers = u.handovers)
    (hb : v.batch = u.batch) (hq : v.queue = u.queue) : WindsUp w v later :=
  ⟨hh.trans h.handovers_eq, h.trigger_eq, by rw [hb]; exact h.held, by rw [hq]; exact h.queued⟩

/-- The consumer hands over what it holds. -/
theorem WindsUp.shutdown (h : WindsUp w u later)
    (hh : v.handovers = u.handovers ++ [(.shutdown, u.batch)]) (hb : v.batch = [])
    (hq : v.queue = u.queue) : WindsUp w v (later ++ [(.shutdown, u.batch)]) where
  handovers_eq := by rw [hh, h.handovers_eq, List.append_assoc]
  trigger_eq := List.forall_mem_append.mpr ⟨h.trigger_eq, by simp⟩
  held := by rw [← h.held, hb]; simp
  queued := by rw [← h.queued, hq]; simp

/-- The stop hands over what comes first in the queue. -/
theorem WindsUp.drain (h : WindsUp w u later) {batch : List Record}
    (hh : v.handovers = u.handovers ++ [(.drain, batch)]) (hb : v.batch = u.batch)
    (hq : batch ++ v.queue = u.queue) : WindsUp w v (later ++ [(.drain, batch)]) where
  handovers_eq := by rw [hh, h.handovers_eq, List.append_assoc]
  trigger_eq := List.forall_mem_append.mpr ⟨h.trigger_eq, by simp⟩
  held := by rw [← h.held, hb]; simp
  queued := by rw [← h.queued, ← hq]; simp

/-- **Each step of a closed writer winds it up.** -/
theorem WindsUp.step {actor : Actor} (h : WindsUp w u later) (hu : Sound u)
    (hc : u.closed = true) (hs : Step u actor v) : ∃ later, WindsUp w v later := by
  cases hs with
  | accept _ ho | overflow _ ho | spawn ho => exact absurd (hc.symm.trans ho) nofun
  | gather _ _ ho | fill _ _ _ ho | pass _ _ _ ho | tick _ _ _ ho =>
    exact absurd (hc.symm.trans ho) nofun
  | refuse | announce | close | drift | wake | begun | inserted | rollBack | retry | crash =>
    exact ⟨later, h.keep rfl rfl rfl⟩
  | finish hf hg hc hb => exact ⟨later, h.keep rfl hb.symm rfl⟩
  | shut now hf hg hc hb => exact ⟨_, h.shutdown (by simp [handovers, handOver, beginAttempt, ask,
      note, takeBatch]) rfl rfl⟩
  | mourn hf hc hl => exact ⟨later, h.keep rfl (hu.held_of_crashed hl).1.symm rfl⟩
  | drain now hf hc hl hq =>
    exact ⟨_, h.drain (by simp [handovers, handOver, beginAttempt, ask, note, takeBatch])
      (hu.batch_of_gone hl).symm (List.take_append_drop ..)⟩
  | settle hf hc hl hq => exact ⟨later, h.keep rfl (hu.batch_of_gone hl).symm rfl⟩
  | commit =>
    obtain ⟨hh, hq, hb⟩ := resume_keeps _ _ _
    exact ⟨later, h.keep hh hb hq⟩
  | rest now hf hwhy hr => exact ⟨later, h.keep hwhy.handovers_noteFailure rfl rfl⟩
  | giveUp now hf hwhy hr =>
    obtain ⟨hh, hq, hb⟩ := resume_keeps _ _ _
    exact ⟨later, h.keep (hh.trans hwhy.handovers_noteFailure) hb hq⟩

/-- So does every run of it. -/
theorem windsUp_of_reaches (hw : Sound w) (hc : w.closed = true) (h : Reaches w v) :
    ∃ later, WindsUp w v later := by
  have hkept : Sound v ∧ v.closed = true ∧ ∃ later, WindsUp w v later := by
    refine h.keeps (P := fun v => Sound v ∧ v.closed = true ∧ ∃ later, WindsUp w v later) ?_
      ⟨hw, hc, [], .refl w⟩
    rintro u v actor hstep ⟨hu, hclosed, later, hwinds⟩
    exact ⟨hu.step hstep, closed_of_step hstep hclosed, hwinds.step hu hclosed hstep⟩
  exact hkept.2.2

/-- **A writer has wound up** when nothing is held and nothing is queued any more. -/
structure WoundUp (w v : Writer σ) : Prop where
  exists_later : ∃ later, WindsUp w v later
  batch_eq_nil : v.batch = []
  queue_eq_nil : v.queue = []

/-- A stop is a run of the closed writer. -/
theorem windsUp_stop (hw : Sound w) (hc : w.closed = false) (now : Nat) :
    ∃ later, WindsUp w (w.stop now).2 later := by
  obtain ⟨moves, hstop⟩ := exists_drive_eq none (w.workBound 0) now w.close
  rw [stop, if_neg (by simp [hc]), hstop]
  obtain ⟨later, h⟩ := windsUp_of_reaches (hw.step .close) rfl (reaches_after (moves.map .move) _)
  exact ⟨later, h.handovers_eq, h.trigger_eq, h.held, h.queued⟩

/-! ## Every run -/

/-- **What sets off a flush says how large its batch is, and when it comes.** In every run, with a
full batch being one of `limit` records:

* no batch is empty or more than full. One that was handed over for its size is full, one that was
  handed over for its time or when the consumer was told to end is not;
* each is handed over to an attempt that begins at once, and what the store is asked to commit is
  one of them;
* the consumer hands over one batch at most when it is told to end, and none after it; what was left
  over comes last, all of it in full batches but for the last one;
* from the moment the writer is closed, however it goes on, the consumer hands over no record but
  those it holds, and the queue is emptied by the stop alone. If no call of the store brings anyone
  down, both are empty when the stop is over. -/
theorem batches_after (s : WriterSettings) (store : Store σ) (state : σ) (deeds : List (Deed σ)) :
    let limit := max s.batchSize 1
    let w := (ofSettings s store state).after deeds
    (∀ h ∈ w.handovers, h.2 ≠ [] ∧ h.2.length ≤ limit ∧ h.1.Fits limit h.2.length) ∧
      BegunAtOnce w.history ∧
      (∀ records, .commit records ∈ w.requests → records ∈ w.handovers.map (·.2)) ∧
      w.handovers.countP (·.1 = .shutdown) ≤ 1 ∧
      w.handovers.Pairwise (·.1.stage ≤ ·.1.stage) ∧
      (∀ h ∈ (w.handovers.filter (·.1 = .drain)).dropLast, h.2.length = limit) ∧
      (w.closed = true → ∀ later,
        (∃ handed, WindsUp w (w.after later) handed) ∧
          ((w.after later).consumer = .stopped → (w.after later).hasCrashed = false →
            WoundUp w (w.after later))) ∧
      ∀ now, w.closed = false →
        (∃ handed, WindsUp w (w.stop now).2 handed) ∧
          ((w.stop now).2.hasCrashed = false → WoundUp w (w.stop now).2) := by
  intro limit w
  have hreaches : Reaches (ofSettings s store state) w := reaches_after deeds _
  have hsound := Sound.of_reaches hreaches
  have hstaged := staged_of_reaches hreaches
  have hlimit : w.limits.batchSize = limit := by rw [limits_of_reaches hreaches]; rfl
  have hordered := hstaged.ordered
  rw [hlimit] at hordered
  refine ⟨fun h hmem => ?_, begunAtOnce_of_reaches hreaches,
    fun _ => mem_handovers_of_commit hreaches, countP_shutdown_le hordered,
    hordered.imp Precedes.stage_le, length_of_mem_dropLast hordered, fun hc later => ?_,
    fun now hc => ?_⟩
  · have hfits := hstaged.fits h hmem
    rw [hlimit] at hfits
    obtain ⟨hpos, hle⟩ := hfits.bounds (hlimit ▸ w.limits.batchSize_pos)
    exact ⟨List.length_pos_iff.mp hpos, hle, hfits⟩
  · have hwinds := windsUp_of_reaches hsound hc (reaches_after later w)
    refine ⟨hwinds, fun hs hcrash => ?_⟩
    have hspent := spent_of_stopped (hreaches.trans (reaches_after later w)) hs hcrash
    exact ⟨hwinds, hspent.batch_eq_nil, hspent.queue_eq_nil⟩
  · have hwinds := windsUp_stop hsound hc now
    refine ⟨hwinds, fun hcrash => ?_⟩
    have hspent := spent_of_stopped (hreaches.trans (reaches_stop now w))
      (stop_atRest hsound hc now).1 hcrash
    exact ⟨hwinds, hspent.batch_eq_nil, hspent.queue_eq_nil⟩

/-- Two records make a batch full, a third one waits until its time is up. A fourth one is held and
three more are queued when the writer is closed. -/
def busy : List (Deed Unit) :=
  [.move .start, .write (some (.smooth "a")), .write (some (.smooth "b"))] ++
    .replicate 7 (.move (.turn 0)) ++ [.write (some (.smooth "c")), .move (.turn 0)] ++
    .replicate 4 (.move (.turn 60000)) ++ [.write (some (.smooth "d")), .move (.turn 60000)] ++
    ["e", "f", "g"].map (fun node => .write (some (.smooth node))) ++ [.move .close]

/-- The turns that follow wind the writer up. -/
theorem woundUp_after_busy :
    let w := (ofSettings { batchSize := 2 } Store.prompt ()).after busy
    WoundUp w (w.after (.replicate 16 (.move (.turn 60000)))) :=
  ((batches_after { batchSize := 2 } Store.prompt () busy).2.2.2.2.2.2.1 (by decide +kernel) _).2
    (by decide +kernel) (by decide +kernel)

/-- By then there has been a batch for each trigger, and two for what was left over. -/
example :
    ((ofSettings { batchSize := 2 } Store.prompt ()).after
        (busy ++ .replicate 16 (.move (.turn 60000)))).handovers.map (fun h => (h.1, h.2.length)) =
      [(.size, 2), (.timer, 1), (.shutdown, 1), (.drain, 2), (.drain, 1)] := by
  decide +kernel

end Writer

end LinkQuality
