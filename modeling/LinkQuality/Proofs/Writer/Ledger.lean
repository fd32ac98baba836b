import LinkQuality.Proofs.Writer.Books
import LinkQuality.Proofs.Writer.Sound

/-!
# The ledger of a writer

A writer keeps a history of everything that happens to it. Read in order, the history tells
which records were accepted, which batches were handed to a flush, and what became of each: a
flush ends with a commit that goes well, with the failure of its last attempt, or with an answer
that whoever asked does not survive.

Beside what the writer holds and counts, this makes up its books (`Writer.books`). Every step of
a sound writer is an entry in them (`entry_of_step`), so every law of bookkeeping is a law of
writers (`law_of_reaches`).
-/

namespace LinkQuality

/-! ## Reading a history -/

namespace WriterEvent

/-- The record that was accepted. -/
@[simp] def acceptedRecord? : WriterEvent → Option Record
  | accepted record => some record
  | _ => none

/-- The batch that was handed over, and what set that off. -/
@[simp] def handover? : WriterEvent → Option (Trigger × List Record)
  | handedOver trigger batch => some (trigger, batch)
  | _ => none

/-- The number of records that were reported lost with the consumer. -/
@[simp] def reportedLoss? : WriterEvent → Option Nat
  | told (.consumerFailed lost) => some lost
  | _ => none

/-- Has the store given an answer that whoever asked does not survive? -/
@[simp] def isCrash : WriterEvent → Bool
  | answered _ _ .crashed => true
  | _ => false

/-- What `pick` finds in a history, oldest first. -/
def gleaned {α : Type} (pick : WriterEvent → Option α) (history : List WriterEvent) : List α :=
  (history.filterMap pick).reverse

/-- The event that came last adds what is found in it. -/
@[simp] theorem gleaned_cons {α : Type} (pick : WriterEvent → Option α) (e : WriterEvent)
    (history : List WriterEvent) :
    gleaned pick (e :: history) = gleaned pick history ++ (pick e).toList := by
  unfold gleaned
  cases h : pick e <;> simp [h]

end WriterEvent

/-- How a flush ends with an event, if it does. -/
def WriterEvent.fate? (backoff : Backoff) : WriterEvent → Option Fate
  | answered _ (.commit _) .done => some .committed
  | answered _ _ .crashed => some .lost
  | attemptFailed _ number _ => if backoff.retries number then none else some .dropped
  | _ => none

/-- The flushes that have ended, oldest first. -/
def settlements (backoff : Backoff) : List WriterEvent → List Settlement
  | [] => []
  | e :: earlier =>
    settlements backoff earlier ++
      (e.fate? backoff).toList.flatMap
        (settleLast (WriterEvent.gleaned WriterEvent.handover? earlier))

/-- The batch of a flush under way, and what set it off. -/
def Flight.handover (f : Flight) : Trigger × List Record := (f.trigger, f.batch)

/-- Who is there, for each place of the consumer. -/
def Consumer.presence : Consumer → Presence
  | idle | spawned | gathering _ => .present
  | crashed => .dead
  | ended => .gone
  | stopped => .atRest

/-- A consumer that gathers is present, whenever its timer is due. -/
@[simp] theorem Consumer.presence_gathering (due : Nat) :
    (gathering due).presence = .present := rfl

namespace Writer

variable {σ : Type}

/-- **The records accepted**, in order. -/
def accepted (w : Writer σ) : List Record :=
  WriterEvent.gleaned WriterEvent.acceptedRecord? w.history

/-- The batches handed to a flush and what set that off, in order. -/
def handovers (w : Writer σ) : List (Trigger × List Record) :=
  WriterEvent.gleaned WriterEvent.handover? w.history

/-- **The records handed to a flush**, in order. -/
def handedOver (w : Writer σ) : List Record := w.handovers.flatMap (·.2)

/-- The flushes that have ended, in order. -/
def settled (w : Writer σ) : List Settlement := settlements w.limits.backoff w.history

/-- The numbers of records reported lost with the consumer. -/
def reportedLosses (w : Writer σ) : List Nat :=
  WriterEvent.gleaned WriterEvent.reportedLoss? w.history

/-- Has any call of the store brought down whoever made it? -/
def hasCrashed (w : Writer σ) : Bool := w.history.any (·.isCrash)

/-- The books of a writer. -/
def books (w : Writer σ) : Books where
  accepted := w.accepted
  handovers := w.handovers
  settled := w.settled
  losses := w.reportedLosses
  crashed := w.hasCrashed
  waiting := w.batch ++ w.queue
  flying := w.flight.map Flight.handover
  presence := w.consumer.presence
  stats := w.stats

/-! ### The books after parts of a step -/

/-- The gauge is in no book. -/
theorem books_showBacklog (w : Writer σ) : w.showBacklog.books = w.books := rfl

/-- A record accepted is one entry. -/
theorem books_enqueue (record : Record) (w : Writer σ) :
    (w.enqueue record).books = w.books.accept record := by
  simp [books, enqueue, showBacklog, accepted, handovers, settled, reportedLosses, hasCrashed,
    settlements, WriterEvent.fate?, Books.accept]

/-- What the operator is told changes the books only where it is a loss. -/
theorem books_tell {w : Writer σ} {n : Notice} (hn : ∀ lost, n ≠ .consumerFailed lost) :
    (w.tell n).books = w.books := by
  cases n with
  | consumerFailed lost => exact absurd rfl (hn lost)
  | _ => simp [books, tell, note, accepted, handovers, settled, reportedLosses, hasCrashed,
      settlements, WriterEvent.fate?]

/-- Asking the store keeps the batch flying. -/
theorem books_ask (now : Nat) (f : Flight) (pending : Pending) (w : Writer σ) :
    (w.ask now f pending).books = { w.books with flying := some f.handover } := by
  simp [books, ask, accepted, handovers, settled, reportedLosses, hasCrashed, settlements,
    WriterEvent.fate?, Flight.handover]

/-- So does the beginning of an attempt. -/
theorem books_beginAttempt (now : Nat) (f : Flight) (w : Writer σ) :
    (w.beginAttempt now f).books = { w.books with flying := some f.handover } := by
  rw [beginAttempt, books_ask]
  simp [books, note, accepted, handovers, settled, reportedLosses, hasCrashed, settlements,
    WriterEvent.fate?, Flight.handover]

/-- A hand-over is one entry. -/
theorem books_handOver (now : Nat) (trigger : Trigger) (batch : List Record) (w : Writer σ) :
    (w.handOver now trigger batch).books =
      w.books.handOver trigger batch (w.batch ++ w.queue) := by
  rw [handOver, books_beginAttempt]
  simp [books, note, accepted, handovers, settled, reportedLosses, hasCrashed, settlements,
    WriterEvent.fate?, Flight.handover, Books.handOver]

/-- Hearing of the store changes the books only where a flush ends with it. -/
theorem books_hear {now : Nat} {request : Request} {reply : Reply} {state : σ} {w : Writer σ}
    (h : (WriterEvent.answered now request reply).fate? w.limits.backoff = none) :
    (w.hear now request reply state).books = w.books := by
  cases reply with
  | crashed => cases request <;> exact absurd h nofun
  | done | failed why =>
    simp [books, hear, accepted, handovers, settled, reportedLosses, hasCrashed, settlements, h]

/-- The consumer goes on after a flush of its own, unless that was the last one. -/
theorem books_resume {now : Nat} {trigger : Trigger} {w : Writer σ} (fate : Fate)
    (hl : fate ≠ .lost) (hp : trigger.Allowed w.consumer.presence) :
    (w.resume now trigger).books =
      { w.books with presence := w.consumer.presence.after fate trigger } := by
  cases fate <;> cases trigger <;> simp_all [Trigger.Allowed, books, resume, showBacklog, accepted,
    handovers, settled, reportedLosses, hasCrashed, Presence.after, Consumer.presence]

/-- What is heard of the store when an attempt fails changes nothing in the books. -/
theorem Failing.books_noteFailure {now : Nat} {w : Writer σ} {f : Flight} {why : Failure}
    {heard : List WriterEvent} {s : σ} (h : Failing now w f why heard s) :
    (w.noteFailure now f why heard s).books =
      { w.books with
        settled := w.books.settled ++
          ((WriterEvent.attemptFailed now f.attempt why).fate? w.limits.backoff).toList.flatMap
            (settleLast w.books.handovers) } := by
  cases h <;> simp [books, noteFailure, accepted, handovers, settled, reportedLosses, hasCrashed,
    settlements, WriterEvent.fate?]

/-- What follows a flush hands nothing over by itself. -/
theorem resume_keeps (now : Nat) (trigger : Trigger) (w : Writer σ) :
    (w.resume now trigger).handovers = w.handovers ∧ (w.resume now trigger).queue = w.queue ∧
      (w.resume now trigger).batch = w.batch := by
  cases trigger <;> exact ⟨rfl, rfl, rfl⟩

/-- Neither does the failure of an attempt. -/
theorem Failing.handovers_noteFailure {now : Nat} {w : Writer σ} {f : Flight} {why : Failure}
    {heard : List WriterEvent} {s : σ} (h : Failing now w f why heard s) :
    (w.noteFailure now f why heard s).handovers = w.handovers := by
  cases h <;> rfl

/-- What sets off a flush is allowed to where the consumer is. -/
theorem Places.allowed {w : Writer σ} {trigger : Trigger} (h : w.Places trigger) :
    trigger.Allowed w.consumer.presence := by
  cases trigger with
  | size | timer =>
    obtain ⟨due, h⟩ := h
    rw [h]
    rfl
  | shutdown =>
    obtain ⟨-, due, h⟩ := h
    rw [h]
    rfl
  | drain =>
    obtain ⟨-, h | h⟩ := h
    · rw [h]
      exact .inl rfl
    · rw [h]
      exact .inr rfl

/-- The end of a flush after a commit counts the batch and lands it. -/
theorem books_succeed {now : Nat} {w : Writer σ} {f : Flight}
    (hp : f.trigger.Allowed w.consumer.presence) :
    (w.succeed now f).books =
      { w.books with
        flying := none
        presence := w.consumer.presence.after .committed f.trigger
        stats := w.stats.settle f.batch.length .committed } := by
  rw [succeed, books_resume .committed nofun]
  · simp [books, accepted, handovers, settled, reportedLosses, hasCrashed, settlements,
      WriterEvent.fate?, WriterStats.settle]
  · exact hp

/-- The end of a flush after its last attempt counts the batch and lands it. -/
theorem books_giveUp {now : Nat} {w : Writer σ} {f : Flight} {why : Failure}
    (hp : f.trigger.Allowed w.consumer.presence) :
    (w.giveUp now f why).books =
      { w.books with
        flying := none
        presence := w.consumer.presence.after .dropped f.trigger
        stats := w.stats.settle f.batch.length .dropped } := by
  rw [giveUp, books_resume .dropped nofun, books_tell]
  · simp [books, tell, note, accepted, handovers, settled, reportedLosses, hasCrashed, settlements,
      WriterEvent.fate?, WriterStats.settle]
  · exact nofun
  · exact hp

/-- **A batch committed is one entry.** -/
theorem books_commit {now : Nat} {w : Writer σ} {f : Flight} {s : σ}
    (hp : f.trigger.Allowed w.consumer.presence) :
    (succeed now f (w.hear now (.commit f.batch) .done s)).books =
      w.books.settle f.trigger f.batch .committed := by
  rw [books_succeed]
  · simp [books, hear, accepted, handovers, settled, reportedLosses, hasCrashed, settlements,
      WriterEvent.fate?, Books.settle]
  · exact hp

/-- **A batch dropped is one entry.** -/
theorem books_drop {now : Nat} {w : Writer σ} {f : Flight} {why : Failure}
    {heard : List WriterEvent} {s : σ} (h : Failing now w f why heard s)
    (hr : w.limits.backoff.retries f.attempt = false)
    (hp : f.trigger.Allowed w.consumer.presence) :
    (giveUp now f why (w.noteFailure now f why heard s)).books =
      w.books.settle f.trigger f.batch .dropped := by
  rw [books_giveUp, h.books_noteFailure]
  · simp [books, noteFailure, WriterEvent.fate?, hr, Books.settle]
  · exact hp

/-- An attempt that fails and is followed by another one is nothing that is entered. -/
theorem books_rest {now : Nat} {w : Writer σ} {f : Flight} {why : Failure}
    {heard : List WriterEvent} {s : σ} (h : Failing now w f why heard s)
    (hf : w.flight = some f) (hr : w.limits.backoff.retries f.attempt = true) :
    (rest now f why (w.noteFailure now f why heard s)).books = w.books := by
  have hb : (w.noteFailure now f why heard s).books = w.books := by
    rw [h.books_noteFailure]
    simp [WriterEvent.fate?, hr]
  have hr : (rest now f why (w.noteFailure now f why heard s)).books =
      { (w.noteFailure now f why heard s).books with flying := some f.handover } := by
    rw [rest, books_tell]
    · rfl
    · exact nofun
  rw [hr, hb]
  simp only [books, hf, Option.map_some]

/-- **A batch lost is one entry**, and no count is changed with it. -/
theorem books_crash {now : Nat} {w : Writer σ} {f : Flight} {request : Request} {s : σ} :
    (crash f (w.hear now request .crashed s)).books =
      w.books.settle f.trigger f.batch .lost := by
  cases ht : f.trigger <;> cases request <;>
    simp [books, crash, hear, accepted, handovers, settled, reportedLosses, hasCrashed, settlements,
      WriterEvent.fate?, Books.settle, WriterStats.settle, Presence.after, Consumer.presence, ht]

/-- The notice of a death says that nothing was lost, if nothing was held. -/
theorem books_mourn {w : Writer σ} (hi : w.inFlight = 0) (hb : w.batch = []) :
    w.mourn.books = { w.books with losses := w.books.losses ++ [0], presence := .gone } := by
  simp [books, mourn, tell, note, takeBatch, accepted, handovers, settled, reportedLosses,
    hasCrashed, settlements, WriterEvent.fate?, Consumer.presence, hi, hb]

/-! ### Every step -/

/-- Only once the writer is closed has the consumer ended. -/
theorem Sound.presence_of_open {w : Writer σ} (hw : Sound w) (hc : w.closed = false) :
    w.consumer.presence = .present ∨ w.consumer.presence = .dead := by
  have hgone := hw.closed_of_gone
  cases h : w.consumer <;> simp_all [Consumer.presence]

/-- Where there is no consumer any more, nothing is held back. -/
theorem Sound.batch_of_gone {w : Writer σ} (hw : Sound w)
    (h : w.consumer = .idle ∨ w.consumer = .ended) : w.batch = [] := by
  refine hw.gathering_or_batch.resolve_left ?_
  rcases h with h | h <;> simp [h]

/-- A consumer that has died held nothing: what it had gathered was with its flush. -/
theorem Sound.held_of_crashed {w : Writer σ} (hw : Sound w) (hl : w.consumer = .crashed) :
    w.batch = [] ∧ w.inFlight = 0 := by
  have hbatch : w.batch = [] := hw.gathering_or_batch.resolve_left (by simp [hl])
  exact ⟨hbatch, by rw [hw.inFlight_eq, hbatch]; rfl⟩

/-- A flush under way is one that is allowed. -/
theorem Sound.allowed {w : Writer σ} {f : Flight} (hw : Sound w) (hf : w.flight = some f) :
    f.trigger.Allowed w.consumer.presence :=
  (hw.flight_places f hf).allowed

/-- A writer that differs only in where its consumer is has the same books but for that. -/
theorem books_of_consumer {v w : Writer σ} (hl : v.limits = w.limits)
    (hh : v.history = w.history) (hs : v.stats = w.stats)
    (hq : v.batch ++ v.queue = w.batch ++ w.queue) (hf : v.flight = w.flight) :
    v.books = { w.books with presence := v.consumer.presence } := by
  simp only [books, accepted, handovers, settled, reportedLosses, hasCrashed, hl, hh, hs, hq, hf]

/-- A writer that differs in nothing that is entered has the same books. -/
theorem books_congr {v w : Writer σ} (hl : v.limits = w.limits) (hh : v.history = w.history)
    (hs : v.stats = w.stats) (hq : v.batch ++ v.queue = w.batch ++ w.queue)
    (hf : v.flight = w.flight) (hp : v.consumer.presence = w.consumer.presence) :
    v.books = w.books := by
  rw [books_of_consumer hl hh hs hq hf, hp]
  rfl

/-- Handing over the oldest records is an entry. -/
theorem entry_handOver {now : Nat} {trigger : Trigger} {batch : List Record} {v w : Writer σ}
    (hl : v.limits = w.limits) (hh : v.history = w.history) (hs : v.stats = w.stats)
    (hp : v.consumer.presence = w.consumer.presence) (hf : w.flight = none)
    (hq : w.batch ++ w.queue = batch ++ (v.batch ++ v.queue)) (hn : batch ≠ [])
    (ha : trigger.Allowed w.consumer.presence) :
    Entry w.books none (v.handOver now trigger batch).books := by
  have hb : v.books.handOver trigger batch (v.batch ++ v.queue) =
      w.books.handOver trigger batch (v.batch ++ v.queue) := by
    simp only [books, Books.handOver, accepted, handovers, settled, reportedLosses, hasCrashed, hl,
      hh, hs, hp]
  rw [books_handOver, hb]
  exact .handOver (by rw [books, hf]; rfl) hq hn ha

/-- In a flush under way, asking the store for the next thing is nothing that is entered. -/
theorem books_ask_hear {now : Nat} {f : Flight} {pending : Pending} {request : Request}
    {reply : Reply} {state : σ} {w : Writer σ} (hf : w.flight = some f)
    (h : (WriterEvent.answered now request reply).fate? w.limits.backoff = none) :
    ((w.hear now request reply state).ask now f pending).books = w.books := by
  rw [books_ask, books_hear h]
  simp only [books, hf, Option.map_some]

/-- **Every step of a sound writer is an entry in its books.** -/
theorem entry_of_step {w w' : Writer σ} {actor : Actor} (hw : Sound w)
    (h : Step w actor w') : Entry w.books actor.taken w'.books := by
  cases h with
  | accept record hc hq =>
    rw [books_enqueue]
    exact .accept record (hw.presence_of_open hc)
  | overflow record hc hq =>
    rw [Writer.overflow, books_tell]
    · exact .turnAway
    · exact nofun
  | refuse hc => exact .nothing
  | announce n hn => exact .of_eq (books_tell hn)
  | spawn hc hi => exact .of_eq (books_congr rfl rfl rfl rfl rfl (by rw [hi]; rfl))
  | close => exact .nothing
  | drift state => exact .nothing
  | wake now hf hs => exact .of_eq (books_congr rfl rfl rfl rfl rfl (by rw [hs]; rfl))
  | gather hf hg hc hq hb =>
    rw [books_showBacklog]
    exact .of_eq (books_congr rfl rfl rfl (by simp [hq]) rfl rfl)
  -- the consumer takes its batch, or what it would make with one more record
  | fill now hf hg hc hq hb =>
    exact entry_handOver rfl rfl rfl rfl hf (by simp [hq, takeBatch]) (by simp) (by rw [hg]; rfl)
  | pass now hf hg hc hq hd hb =>
    rw [books_showBacklog]
    exact .of_eq (books_congr rfl rfl rfl rfl rfl (by simp [hg]))
  | tick now hf hg hc hq hd hb =>
    exact entry_handOver rfl rfl rfl (by simp [hg]) hf rfl hb (by rw [hg]; rfl)
  | finish hf hg hc hb =>
    rw [books_of_consumer (v := { w.takeBatch with consumer := .ended }) (w := w) rfl rfl rfl
      (by simp [takeBatch, hb]) rfl]
    exact .leave (b := w.books) (by rw [books, hg]; rfl) (by rw [books, hf]; rfl)
  | shut now hf hg hc hb =>
    exact entry_handOver rfl rfl rfl rfl hf rfl hb (by rw [hg]; rfl)
  | mourn hf hc hl =>
    -- the batch that was lost had been taken before its flush, so none is reported
    obtain ⟨hb, hlost⟩ := hw.held_of_crashed hl
    rw [books_mourn hlost hb]
    exact .report (b := w.books) (by rw [books, hl]; rfl)
  | drain now hf hc hl hq =>
    have hb := hw.batch_of_gone hl
    exact entry_handOver rfl rfl rfl rfl hf (by simp [takeBatch, hb]) (take_queue_ne_nil hq)
      (Places.allowed ⟨hc, hl⟩)
  | settle hf hc hl hq =>
    have hb := hw.batch_of_gone hl
    have hplaces : w.Places .drain := ⟨hc, hl⟩
    rw [books_showBacklog, books_of_consumer (v := { w.takeBatch with consumer := .stopped })
      (w := w) rfl rfl rfl (by simp [takeBatch, hb]) rfl]
    exact .retire (b := w.books) hplaces.allowed (by rw [books, hf]; rfl)
      (by rw [books, hb, hq]; rfl)
  | begun now hf hp hs => exact .of_eq (books_ask_hear hf rfl)
  | inserted now hf hp hs => exact .of_eq (books_ask_hear hf rfl)
  | rollBack now hf hp hs => exact .of_eq (books_ask_hear hf rfl)
  | commit now hf hp hs =>
    rw [books_commit (hw.allowed hf)]
    exact .settle .committed (by rw [books, hf]; rfl) (hw.allowed hf)
  | rest now hf hwhy hr => exact .of_eq (books_rest hwhy hf hr)
  | giveUp now hf hwhy hr =>
    rw [books_drop hwhy hr (hw.allowed hf)]
    exact .settle .dropped (by rw [books, hf]; rfl) (hw.allowed hf)
  | retry now hf hp =>
    rw [books_beginAttempt]
    exact .of_eq (by simp only [books, hf, Option.map_some]; rfl)
  | crash now hf hp hs =>
    rw [books_crash]
    exact .settle .lost (by rw [books, hf]; rfl) (hw.allowed hf)

/-! ### Every run -/

/-- **A law of bookkeeping holds in every run** of a writer that settings ask for, if blank books
obey it and each entry keeps it. That the flushes come one after the other can be used for that. -/
theorem law_of_reaches {P : Books → Prop} (hblank : P .blank)
    (hP : ∀ {b b' : Books} {record : Option Record}, Entry b record b' → b.Sequential → P b → P b')
    {s : WriterSettings} {store : Store σ} {state : σ} {w : Writer σ}
    (h : Reaches (ofSettings s store state) w) : P w.books := by
  have hall : Sound w ∧ w.books.Sequential ∧ P w.books := by
    refine h.keeps (P := fun w => Sound w ∧ w.books.Sequential ∧ P w.books) ?_
      ⟨sound_ofSettings s store state, rfl, hblank⟩
    rintro u v actor hstep ⟨hu, hq, hp⟩
    have hentry := entry_of_step hu hstep
    exact ⟨hu.step hstep, hq.entry hentry, hP hentry hq hp⟩
  exact hall.2.2

/-- The flushes of a writer come one after the other. -/
theorem sequential_of_reaches {s : WriterSettings} {store : Store σ} {state : σ} {w : Writer σ}
    (h : Reaches (ofSettings s store state) w) : w.books.Sequential :=
  law_of_reaches (P := Books.Sequential) rfl (fun he hq _ => hq.entry he) h

/-- A writer loses nothing, and puts nothing out of order. -/
theorem conserves_of_reaches {s : WriterSettings} {store : Store σ} {state : σ} {w : Writer σ}
    (h : Reaches (ofSettings s store state) w) : w.books.Conserves :=
  law_of_reaches (P := Books.Conserves) rfl (fun he _ hb => hb.entry he) h

/-- A writer loses a flush exactly if a call of the store brings someone down. -/
theorem witnessed_of_reaches {s : WriterSettings} {store : Store σ} {state : σ} {w : Writer σ}
    (h : Reaches (ofSettings s store state) w) : w.books.Witnessed :=
  law_of_reaches (P := Books.Witnessed) rfl (fun he hq hb => hb.entry he hq) h

/-- A writer at rest has no flush under way, and its queue is empty unless the flush of what was
left over was lost. -/
theorem rests_of_reaches {s : WriterSettings} {store : Store σ} {state : σ} {w : Writer σ}
    (h : Reaches (ofSettings s store state) w) : w.books.Rests :=
  law_of_reaches (fun h => absurd h nofun) (fun he hq hr => hr.entry he hq) h

/-- What a deed takes in is accepted, and nothing else. -/
theorem accepted_perform {w : Writer σ} (hw : Sound w) (d : Deed σ) :
    (w.perform d).accepted = w.accepted ++ (w.entrant d).toList := by
  rcases perform_eq_or_step d w with ⟨h, hn⟩ | ⟨actor, ht, h⟩
  · rw [h, hn]
    exact (List.append_nil _).symm
  · rw [← ht]
    exact (entry_of_step hw h).accepted

/-- **What a run takes in is accepted**, and nothing else. -/
theorem accepted_after {w : Writer σ} (hw : Sound w) (deeds : List (Deed σ)) :
    (w.after deeds).accepted = w.accepted ++ w.admitted deeds := by
  induction deeds generalizing w with
  | nil => exact (List.append_nil _).symm
  | cons d deeds ih =>
    rw [admitted, ← List.append_assoc, ← accepted_perform hw d]
    exact ih (hw.perform d)

/-- **A write accepts its record exactly if it says so.** -/
theorem accepted_write {w w' : Writer σ} (hw : Sound w) {record : Record}
    {result : Except RecordRefusal Unit} (h : w.write (some record) = (result, w')) :
    Sound w' ∧ w'.accepted = w.accepted ++ (if result.isOk then [record] else []) := by
  have hperform : w.perform (.write (some record)) = w' := by rw [perform, h]
  have haccepted := accepted_perform hw (.write (some record))
  rw [hperform] at haccepted
  refine ⟨hperform ▸ hw.perform (.write (some record)), ?_⟩
  rw [haccepted, entrant, intake, h]
  cases result <;> rfl

end Writer

end LinkQuality
