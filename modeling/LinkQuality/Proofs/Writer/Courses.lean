import LinkQuality.Proofs.Writer.Ledger
import Mathlib.Data.List.Chain
import Mathlib.Data.List.ModifyLast

/-!
# The course of a flush

Read flush by flush, the history of a writer shows when each attempt at a batch began, when it ended
and how, and what became of the batch (`Writer.courses`). Attempts keep to the schedule of a writer
(`Scheduled`) when each but the first begins after the wait that is due to the failure before it,
and when none outlasts its time: an attempt fails exactly if a call of the store was refused or is
unanswered when the time is up (`Attempt.EndsDuly`). A flush that is over has ended with its last
attempt, and there is an attempt after a failed one exactly if there may be (`Course.Settled`); so
the number of attempts is that of the first that succeeds, or the largest there may be
(`Course.Settled.length_attempts`).

Only the reading is done here; that writers keep to the schedule is a matter of their runs.
-/

namespace LinkQuality

/-! ## Reading a history -/

/-- **How an attempt ended**, and when. -/
structure Ending where
  time : Nat
  succeeded : Bool

/-- **An attempt as the history shows it.** -/
structure Attempt where
  number : Nat
  began : Nat
  /-- Does a call of the store wait for an answer? -/
  waiting : Bool := false
  /-- Has the store refused a call? -/
  refused : Bool := false
  ended : Option Ending := none

/-- **The course of a flush**, as the history shows it. -/
structure Course where
  trigger : Trigger
  batch : List Record
  /-- The attempts at the batch, in order. -/
  attempts : List Attempt := []
  /-- What became of the batch; nothing yet while the flush is under way. -/
  fate : Option Fate := none

/-- Does the store refuse what it was asked for? -/
def Reply.refuses : Reply → Bool
  | failed _ => true
  | done | crashed => false

namespace Attempt

/-- Has the attempt succeeded? -/
def hasSucceeded (a : Attempt) : Bool := a.ended.any Ending.succeeded

/-- A call of the store waits for an answer. -/
def ask (a : Attempt) : Attempt := { a with waiting := true }

/-- It has got one. -/
def hear (reply : Reply) (a : Attempt) : Attempt :=
  { a with waiting := false, refused := a.refused || reply.refuses }

/-- The attempt is over. -/
def finish (time : Nat) (succeeded : Bool) (a : Attempt) : Attempt :=
  { a with ended := some ⟨time, succeeded⟩ }

end Attempt

namespace Course

/-- The batch of a flush, and what set it off. -/
def handover (c : Course) : Trigger × List Record := (c.trigger, c.batch)

/-- The present attempt has changed. -/
def revise (change : Attempt → Attempt) (c : Course) : Course :=
  { c with attempts := c.attempts.modifyLast change }

/-- The flush is over. -/
def finish (fate : Fate) (c : Course) : Course := { c with fate := some fate }

end Course

/-- **What an event adds to the course of the flush under way.** An attempt succeeds when the commit
goes well. An answer that is not survived ends the flush, and its last attempt with it. -/
def WriterEvent.amend : WriterEvent → Course → Course
  | attempted time number, c => { c with attempts := c.attempts ++ [{ number, began := time }] }
  | asked _ _, c => c.revise .ask
  | answered time (.commit _) .done, c => c.revise fun a => (a.hear .done).finish time true
  | answered _ _ .crashed, c => (c.revise (.hear .crashed)).finish .lost
  | answered _ _ reply, c => c.revise (.hear reply)
  | attemptFailed time _ _, c => c.revise (.finish time false)
  | committed _ _, c => c.finish .committed
  | dropped _ _, c => c.finish .dropped
  | accepted _, c | handedOver _ _, c | told _, c => c

/-- **The courses that a history shows**, oldest first. What comes after a hand-over belongs to the
flush of that batch. -/
def courses : List WriterEvent → List Course
  | [] => []
  | .handedOver trigger batch :: earlier => courses earlier ++ [{ trigger, batch }]
  | e :: earlier => (courses earlier).modifyLast e.amend

/-- An event adds to the course of the flush under way, unless it begins another one. -/
theorem courses_cons {e : WriterEvent} (he : e.handover? = none) (history : List WriterEvent) :
    courses (e :: history) = (courses history).modifyLast e.amend := by
  cases e with
  | handedOver => exact absurd he nofun
  | _ => rfl

/-- There is no course yet, or the last one changes. -/
theorem modifyLast_cases (change : Course → Course) (cs : List Course) :
    cs = [] ∧ cs.modifyLast change = [] ∨
      ∃ past c, cs = past ++ [c] ∧ cs.modifyLast change = past ++ [change c] := by
  rcases List.eq_nil_or_concat cs with rfl | ⟨past, c, rfl⟩
  · exact .inl ⟨rfl, rfl⟩
  · rw [List.concat_eq_append]
    exact .inr ⟨past, c, rfl, List.modifyLast_concat ..⟩

/-- What adds to no course leaves them all as they are. -/
theorem courses_cons_of_amend {e : WriterEvent} (he : e.handover? = none)
    (hamend : ∀ c, e.amend c = c) (history : List WriterEvent) :
    courses (e :: history) = courses history := by
  rw [courses_cons he]
  rcases modifyLast_cases e.amend (courses history) with ⟨hnil, hsame⟩ | ⟨past, c, hcs, hlast⟩
  · rw [hsame, hnil]
  · rw [hlast, hamend, hcs]

/-- **The courses of the flushes of a writer**, oldest first. -/
def Writer.courses {σ : Type} (w : Writer σ) : List Course := LinkQuality.courses w.history

/-- The batches of the flushes that have ended in a given way. -/
def batchesEnded (fate : Fate) (cs : List Course) : List (List Record) :=
  (cs.filter (·.fate = some fate)).map Course.batch

/-- One more flush adds its batch to those that ended the same way. -/
theorem batchesEnded_concat (fate : Fate) (cs : List Course) (c : Course) :
    batchesEnded fate (cs ++ [c]) =
      batchesEnded fate cs ++ if c.fate = some fate then [c.batch] else [] := by
  unfold batchesEnded
  split <;> simp_all

/-- The present attempt is the last one. -/
theorem Course.revise_concat (change : Attempt → Attempt) (trigger : Trigger) (batch : List Record)
    (earlier : List Attempt) (a : Attempt) (fate : Option Fate) :
    (⟨trigger, batch, earlier ++ [a], fate⟩ : Course).revise change =
      ⟨trigger, batch, earlier ++ [change a], fate⟩ := by
  rw [revise, List.modifyLast_concat]

/-- **Each hand-over has a course.** -/
theorem map_handover_courses (history : List WriterEvent) :
    (courses history).map Course.handover =
      WriterEvent.gleaned WriterEvent.handover? history := by
  induction history with
  | nil => rfl
  | cons e earlier ih =>
    have hamend : ∀ c, (e.amend c).handover = c.handover := by
      intro c
      unfold WriterEvent.amend
      split <;> rfl
    have hmodify : ((courses earlier).modifyLast e.amend).map Course.handover =
        (courses earlier).map Course.handover := by
      rcases modifyLast_cases e.amend (courses earlier) with ⟨hnil, hsame⟩ | ⟨past, c, hcs, hlast⟩
      · rw [hsame, hnil]
      · rw [hlast, hcs, List.map_append, List.map_append, List.map_singleton, hamend]
        rfl
    rw [WriterEvent.gleaned_cons, ← ih]
    cases e with
    | handedOver trigger batch => rw [courses, List.map_append]; rfl
    | _ =>
      rw [courses, hmodify]
      · exact (List.append_nil _).symm
      · exact nofun

/-- A flush is lost only with someone who has not survived an answer. -/
theorem any_isCrash_of_lost {history : List WriterEvent} {c : Course} (h : c ∈ courses history)
    (hlost : c.fate = some .lost) : history.any (·.isCrash) = true := by
  induction history generalizing c with
  | nil => exact absurd h List.not_mem_nil
  | cons e earlier ih =>
    rw [List.any_cons, Bool.or_eq_true]
    have hamend : ∀ c : Course, (e.amend c).fate = some .lost →
        c.fate = some .lost ∨ e.isCrash = true := by
      intro c hc
      unfold WriterEvent.amend at hc
      split at hc <;> simp_all [Course.revise, Course.finish]
    have hmodify : c ∈ (courses earlier).modifyLast e.amend →
        e.isCrash = true ∨ earlier.any (·.isCrash) = true := by
      intro hc
      rcases modifyLast_cases e.amend (courses earlier) with ⟨-, hsame⟩ | ⟨past, last, hcs, hlast⟩
      · rw [hsame] at hc
        exact absurd hc List.not_mem_nil
      · rw [hlast] at hc
        rcases List.mem_append.mp hc with hc | hc
        · exact .inr (ih (hcs ▸ List.mem_append_left _ hc) hlost)
        · rw [List.mem_singleton.mp hc] at hlost
          have hmem : last ∈ courses earlier := hcs ▸ List.mem_append_right _ (by simp)
          exact (hamend last hlost).symm.imp id fun hl => ih hmem hl
    cases e with
    | handedOver trigger batch =>
      rcases List.mem_append.mp h with h | h
      · exact .inr (ih h hlost)
      · rw [List.mem_singleton.mp h] at hlost
        cases hlost
    | _ => exact hmodify h

/-! ## Keeping to the schedule -/

/-- **One attempt follows another** when that has failed, as soon as the wait after it is over. -/
def Attempt.Precedes (backoff : Backoff) (a b : Attempt) : Prop :=
  ∃ t, a.ended = some ⟨t, false⟩ ∧ b.number = a.number + 1 ∧
    b.began = t + (backoff.delayAfter a.number).ceilMillis

/-- **An attempt that is over has not outlasted its time.** It has succeeded exactly if no call was
refused and none was still waiting for an answer; if one was, the time was up. -/
structure Attempt.EndsDuly (timeout : Span) (a : Attempt) : Prop where
  began_le : ∀ e ∈ a.ended, a.began ≤ e.time
  time_le : ∀ e ∈ a.ended, e.time ≤ a.began + timeout.ceilMillis
  time_of_waiting : a.waiting = true → ∀ e ∈ a.ended, e.time = a.began + timeout.ceilMillis
  succeeded_iff : ∀ e ∈ a.ended, e.succeeded = true ↔ a.waiting = false ∧ a.refused = false

/-- **Attempts that keep to the schedule.** -/
structure Scheduled (limits : Limits) (attempts : List Attempt) : Prop where
  numbers_eq : attempts.map Attempt.number = List.range' 1 attempts.length
  length_le : attempts.length ≤ limits.backoff.maxAttempts
  isChain : attempts.IsChain (Attempt.Precedes limits.backoff)
  endsDuly : ∀ a ∈ attempts, a.EndsDuly limits.timeout

/-- **What the last attempt has brought**: it has succeeded, or it has failed and was the last there
may be, or it was cut off by an answer that nobody survived. -/
def Attempt.Brings (backoff : Backoff) (a : Attempt) : Fate → Prop
  | .committed => a.hasSucceeded = true
  | .dropped => a.number = backoff.maxAttempts ∧ ∃ t, a.ended = some ⟨t, false⟩
  | .lost => a.ended = none

/-- **A flush that is over** has ended with its last attempt. -/
structure Course.Settled (limits : Limits) (c : Course) : Prop where
  scheduled : Scheduled limits c.attempts
  brings : ∃ earlier last fate, c.attempts = earlier ++ [last] ∧ c.fate = some fate ∧
    last.Brings limits.backoff fate

/-- **A flush that is not over** at time `now`: its last attempt has time left, or has failed and is
followed by another one as soon as the wait is over. -/
structure Course.Open (limits : Limits) (now : Nat) (c : Course) : Prop where
  scheduled : Scheduled limits c.attempts
  fate_eq_none : c.fate = none
  goesOn : ∃ earlier last, c.attempts = earlier ++ [last] ∧
    (last.ended = none ∧ now ≤ last.began + limits.timeout.ceilMillis ∨
      ∃ t, last.ended = some ⟨t, false⟩ ∧ last.number < limits.backoff.maxAttempts ∧
        now ≤ t + (limits.backoff.delayAfter last.number).ceilMillis)

variable {limits : Limits} {earlier : List Attempt} {a b : Attempt}

/-- The number of the last attempt is the number of attempts. -/
theorem Scheduled.number_eq (h : Scheduled limits (earlier ++ [a])) :
    a.number = earlier.length + 1 := by
  have hnumbers := h.numbers_eq
  rw [List.map_append, List.length_append, List.length_singleton, List.range'_concat] at hnumbers
  have hlast := List.append_inj_right' hnumbers rfl
  simp at hlast
  omega

/-- It is none that there may not be. -/
theorem Scheduled.number_le (h : Scheduled limits (earlier ++ [a])) :
    a.number ≤ limits.backoff.maxAttempts := by
  rw [h.number_eq]
  simpa using h.length_le

/-- An attempt that is not over has not outlasted its time. -/
theorem Attempt.endsDuly_of_ended_eq_none {timeout : Span} (h : a.ended = none) :
    a.EndsDuly timeout :=
  ⟨by simp [h], by simp [h], by simp [h], by simp [h]⟩

/-- Nor has one that ends in time. -/
theorem Attempt.endsDuly_finish {timeout : Span} {time : Nat} {succeeded : Bool}
    (hbegan : a.began ≤ time) (hle : time ≤ a.began + timeout.ceilMillis)
    (hwaiting : a.waiting = true → time = a.began + timeout.ceilMillis)
    (hsucceeded : succeeded = true ↔ a.waiting = false ∧ a.refused = false) :
    (a.finish time succeeded).EndsDuly timeout := by
  constructor
  · rintro _ ⟨rfl⟩
    exact hbegan
  · rintro _ ⟨rfl⟩
    exact hle
  · rintro hw _ ⟨rfl⟩
    exact hwaiting hw
  · rintro _ ⟨rfl⟩
    exact hsucceeded

/-- A flush begins with attempt number one. -/
theorem scheduled_singleton (hmax : 0 < limits.backoff.maxAttempts) (hnumber : a.number = 1)
    (hended : a.ended = none) : Scheduled limits [a] where
  numbers_eq := by simp [hnumber]
  length_le := hmax
  isChain := .singleton a
  endsDuly := List.forall_mem_singleton.mpr (Attempt.endsDuly_of_ended_eq_none hended)

/-- **Another attempt keeps to the schedule**, as long as there may be one. -/
theorem Scheduled.concat (h : Scheduled limits (earlier ++ [a])) (hab : a.Precedes limits.backoff b)
    (hmax : a.number < limits.backoff.maxAttempts) (hended : b.ended = none) :
    Scheduled limits (earlier ++ [a] ++ [b]) where
  numbers_eq := by
    obtain ⟨t, -, hnumber, -⟩ := hab
    have hlast : b.number = 1 + 1 * (earlier ++ [a]).length := by
      rw [hnumber, h.number_eq, List.length_append, List.length_singleton]
      omega
    have hlength : (earlier ++ [a] ++ [b]).length = (earlier ++ [a]).length + 1 :=
      List.length_append
    rw [List.map_append, h.numbers_eq, List.map_singleton, hlast, hlength, List.range'_concat]
  length_le := by
    rw [h.number_eq] at hmax
    rw [List.length_append, List.length_append, List.length_singleton, List.length_singleton]
    exact Nat.succ_le_of_lt hmax
  isChain := List.isChain_append.mpr ⟨h.isChain, .singleton b, by simpa using hab⟩
  endsDuly := List.forall_mem_append.mpr
    ⟨h.endsDuly, List.forall_mem_singleton.mpr (Attempt.endsDuly_of_ended_eq_none hended)⟩

/-- **So does the present attempt when it goes on or ends**, as long as it ends in time. -/
theorem Scheduled.revise (h : Scheduled limits (earlier ++ [a])) (hnumber : b.number = a.number)
    (hbegan : b.began = a.began) (hends : b.EndsDuly limits.timeout) :
    Scheduled limits (earlier ++ [b]) where
  numbers_eq := by simpa [hnumber] using h.numbers_eq
  length_le := by simpa using h.length_le
  isChain := by
    obtain ⟨hearlier, -, hlast⟩ := List.isChain_append.mp h.isChain
    refine List.isChain_append.mpr ⟨hearlier, .singleton b, fun x hx y hy => ?_⟩
    obtain ⟨t, ht⟩ := hlast x hx a rfl
    obtain rfl : b = y := by simpa using hy
    exact ⟨t, by rwa [hnumber, hbegan]⟩
  endsDuly := List.forall_mem_append.mpr
    ⟨(List.forall_mem_append.mp h.endsDuly).1, List.forall_mem_singleton.mpr hends⟩

/-- All attempts but the last have failed. -/
theorem Scheduled.failed_of_mem (h : Scheduled limits (earlier ++ [a])) (hb : b ∈ earlier) :
    ∃ t, b.ended = some ⟨t, false⟩ := by
  obtain ⟨before, after, rfl⟩ := List.append_of_mem hb
  have hchain := h.isChain
  rw [List.append_assoc, List.cons_append, List.isChain_split] at hchain
  cases after with
  | nil =>
    obtain ⟨t, ht, -⟩ := (List.isChain_cons_cons.mp hchain.2).1
    exact ⟨t, ht⟩
  | cons c after =>
    obtain ⟨t, ht, -⟩ := (List.isChain_cons_cons.mp hchain.2).1
    exact ⟨t, ht⟩

/-- So none of them has succeeded. -/
theorem Scheduled.not_hasSucceeded (h : Scheduled limits (earlier ++ [a])) (hb : b ∈ earlier) :
    b.hasSucceeded = false := by
  obtain ⟨t, ht⟩ := h.failed_of_mem hb
  rw [Attempt.hasSucceeded, ht]
  rfl

/-- **There are as many attempts as it takes to succeed, or as many as there may be**, and the batch
is committed if and only if one of them succeeds. -/
theorem Course.Settled.length_attempts {c : Course} (h : c.Settled limits)
    (hlost : c.fate ≠ some .lost) :
    c.attempts.length =
        min (c.attempts.findIdx Attempt.hasSucceeded + 1) limits.backoff.maxAttempts ∧
      (c.fate = some .committed ↔ c.attempts.any Attempt.hasSucceeded = true) := by
  obtain ⟨earlier, last, fate, hattempts, hfate, hbrings⟩ := h.brings
  have hscheduled := h.scheduled
  rw [hattempts] at hscheduled ⊢
  have hnone : earlier.findIdx Attempt.hasSucceeded = earlier.length :=
    List.findIdx_eq_length.mpr fun b hb => hscheduled.not_hasSucceeded hb
  have hany : earlier.any Attempt.hasSucceeded = false :=
    List.any_eq_false.mpr fun b hb => by simp [hscheduled.not_hasSucceeded hb]
  have hle := hscheduled.number_le
  rw [hscheduled.number_eq] at hle
  rw [List.findIdx_append, hnone, List.any_append, hany, List.length_append, hfate]
  cases fate with
  | committed =>
    have hlast : last.hasSucceeded = true := hbrings
    simp [hlast]
    omega
  | dropped =>
    obtain ⟨hnumber, t, ht⟩ := hbrings
    have hlast : last.hasSucceeded = false := by rw [Attempt.hasSucceeded, ht]; rfl
    rw [hscheduled.number_eq] at hnumber
    simp [hlast]
    omega
  | lost => exact absurd hfate hlost

end LinkQuality
