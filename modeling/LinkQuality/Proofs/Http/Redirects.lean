import LinkQuality.Http.Client

/-!
# Being sent on

A client that is sent on sends several requests for one, and reports the answer to the last. Which
requests it sends is a matter of the answers alone (`Trail`): each but the first is the one that the
answer before it asks for. An answer that sends a client on is no success, so that whatever is a
success on the way is the answer that is reported (`Trail.isTaken_iff`).

This says nothing of what the last request carried. Some answers have the request repeated as it is,
others have it repeated without its body, and a body that has been left behind is never taken up
again. So the service that has the last word has seen the body just if there was no answer of the
second kind on the way (`Trail.carried_iff`).

Which headers go along is left to the client library, so nothing is said of them.
-/

namespace LinkQuality.Http

/-- A request that was sent, and what the service said to it. -/
abbrev Hop := Request × Answer

namespace Hop

/-- Was the request answered with success? -/
def isTaken (h : Hop) : Bool :=
  match h.2 with
  | .status s _ => s.isSuccess
  | .unreachable => false

/-- Was the client sent on without what it had sent along? -/
def dropsBody (h : Hop) : Bool :=
  match h.2 with
  | .status s (some _) => s.dropsBody
  | _ => false

end Hop

/-- **The requests that are sent for one**, with their answers, by a client that lets itself be sent
on a number of times, and what it reports in the end. -/
inductive Trail (c : Client) : Nat → Request → List Hop → Except SendError Status → Prop where
  | unreachable {left : Nat} {r : Request} :
      Trail c left r [(r, .unreachable)] (.error .unreachable)
  | answered {left : Nat} {r : Request} {s : Status} {location : Option String} :
      r.redirected? c s location = none → Trail c left r [(r, .status s location)] (.ok s)
  | givenUp {r next : Request} {s : Status} {location : Option String} :
      r.redirected? c s location = some next →
        Trail c 0 r [(r, .status s location)] (.error .tooManyRedirects)
  | sentOn {left : Nat} {r next : Request} {s : Status} {location : Option String}
      {hops : List Hop} {result : Except SendError Status} :
      r.redirected? c s location = some next → Trail c left next hops result →
        Trail c (left + 1) r ((r, .status s location) :: hops) result

variable {τ : Type} {c : Client} {service : Service τ} {left patience : Nat} {r next : Request}
  {s : Status} {location : Option String} {e : Exchange τ} {hops : List Hop}
  {result : Except SendError Status} {body : Body}

/-- **An answer that sends a client on** is no success, and gives an address. The request is
repeated there with what it carried, or as one that carries nothing. -/
theorem Request.redirected?_eq_some (h : r.redirected? c s location = some next) :
    s.isSuccess = false ∧ location = some next.address ∧
      (s.dropsBody = true ∧ next.method = .get ∧ next.body = none ∨
        s.dropsBody = false ∧ next.method = r.method ∧ next.body = r.body) := by
  cases location with
  | none => cases h
  | some address =>
    unfold redirected? at h
    dsimp only at h
    split at h
    next hdrops =>
      obtain rfl := Option.some.inj h
      refine ⟨?_, rfl, .inl ⟨hdrops, rfl, rfl⟩⟩
      simp only [Status.dropsBody, Bool.or_eq_true, decide_eq_true_iff] at hdrops
      simp only [Status.isSuccess, Bool.and_eq_false_iff, decide_eq_false_iff_not]
      omega
    next hdrops =>
      split at h
      next hkeeps =>
        obtain rfl := Option.some.inj h
        refine ⟨?_, rfl, .inr ⟨by simpa using hdrops, rfl, rfl⟩⟩
        simp only [Status.keepsBody, Bool.or_eq_true, decide_eq_true_iff] at hkeeps
        simp only [Status.isSuccess, Bool.and_eq_false_iff, decide_eq_false_iff_not]
        omega
      next => cases h

/-- A success sends nobody on. -/
theorem Status.dropsBody_eq_false (h : s.isSuccess = true) : s.dropsBody = false := by
  simp only [isSuccess, Bool.and_eq_true, decide_eq_true_iff] at h
  simp only [dropsBody, Bool.or_eq_false_iff, decide_eq_false_iff_not]
  omega

namespace Trail

/-- The first request is the one that was to be sent. -/
theorem head?_eq (h : Trail c left r hops result) : hops.head?.map Prod.fst = some r := by
  cases h <;> rfl

/-- No client is sent on more often than it lets itself be. -/
theorem length_le (h : Trail c left r hops result) : hops.length ≤ left + 1 := by
  induction h with
  | unreachable | answered | givenUp => exact Nat.le_add_left ..
  | sentOn _ _ ih => exact Nat.succ_le_succ ih

/-- What keeps a client from an answer is the service, or that it is sent on too often. -/
theorem eq_of_error {why : SendError} (h : Trail c left r hops (.error why)) :
    why = .unreachable ∨ why = .tooManyRedirects := by
  generalize hresult : Except.error why = result at h
  induction h with
  | unreachable => exact .inl (Except.error.inj hresult)
  | answered => cases hresult
  | givenUp => exact .inr (Except.error.inj hresult)
  | sentOn _ _ ih => exact ih hresult

/-- **A success is reported just if there is one on the way**, which can only be the last answer. -/
theorem isTaken_iff (h : Trail c left r hops result) :
    (∃ s, result = .ok s ∧ s.isSuccess = true) ↔ ∃ hop ∈ hops, hop.isTaken = true := by
  induction h with
  | unreachable => simp [Hop.isTaken]
  | answered => simp [Hop.isTaken]
  | givenUp hnext => simp [Hop.isTaken, (Request.redirected?_eq_some hnext).1]
  | sentOn hnext _ ih =>
    simp [ih, Hop.isTaken, (Request.redirected?_eq_some hnext).1]

/-- A body that was left behind is not taken up again. -/
theorem body_eq_none (h : Trail c left r hops result) (hr : r.body = none) :
    ∀ hop ∈ hops, hop.1.body = none := by
  induction h with
  | unreachable | answered | givenUp => simpa using hr
  | sentOn hnext _ ih =>
    obtain ⟨-, -, ⟨-, -, hbody⟩ | ⟨-, -, hbody⟩⟩ := Request.redirected?_eq_some hnext
    · exact List.forall_mem_cons.mpr ⟨hr, ih hbody⟩
    · exact List.forall_mem_cons.mpr ⟨hr, ih (hbody.trans hr)⟩

/-- **As long as no body is left behind**, every request is one of the same method, and carries the
same. -/
theorem carries_of_kept (h : Trail c left r hops result)
    (hkept : ∀ hop ∈ hops, hop.dropsBody = false) :
    ∀ hop ∈ hops, hop.1.method = r.method ∧ hop.1.body = r.body := by
  induction h with
  | unreachable | answered | givenUp => simp
  | sentOn hnext _ ih =>
    obtain ⟨hfirst, hrest⟩ := List.forall_mem_cons.mp hkept
    obtain ⟨-, rfl, ⟨hdrops, -⟩ | ⟨-, hmethod, hbody⟩⟩ := Request.redirected?_eq_some hnext
    · exact absurd (hdrops.symm.trans hfirst) Bool.noConfusion
    · rw [hmethod, hbody] at ih
      exact List.forall_mem_cons.mpr ⟨⟨rfl, rfl⟩, ih hrest⟩

/-- **Where a success is reported, the request that was answered so has carried the body** just if
no answer on the way has had it left behind. -/
theorem carried_iff (h : Trail c left r hops (.ok s)) (hs : s.isSuccess = true)
    (hr : r.body = some body) :
    (∃ hop ∈ hops, hop.isTaken = true ∧ hop.1.body = some body) ↔
      ∀ hop ∈ hops, hop.dropsBody = false := by
  generalize hresult : Except.ok s = result at h
  induction h with
  | unreachable | givenUp => cases hresult
  | @answered _ _ _ location _ =>
    obtain rfl := Except.ok.inj hresult
    cases location <;> simp [Hop.isTaken, Hop.dropsBody, hs, hr, Status.dropsBody_eq_false hs]
  | sentOn hnext htrail ih =>
    obtain ⟨hno, rfl, ⟨hdrops, -, hempty⟩ | ⟨hkeeps, -, hsame⟩⟩ := Request.redirected?_eq_some hnext
    · -- nothing that follows has a body
      have hnone := htrail.body_eq_none hempty
      refine iff_of_false ?_ fun hkept => ?_
      · rintro ⟨hop, hmem, htaken, hbody⟩
        rcases List.mem_cons.mp hmem with rfl | hmem
        · exact absurd (hno.symm.trans htaken) Bool.noConfusion
        · exact absurd ((hnone hop hmem).symm.trans hbody) (by simp)
      · exact absurd (hdrops.symm.trans (hkept _ (List.mem_cons_self ..))) Bool.noConfusion
    · rw [List.forall_mem_cons, ← ih (hsame.trans hr) hresult]
      simp [Hop.isTaken, hno, Hop.dropsBody, hkeeps]

end Trail

namespace Exchange

/-- One request with its answer is kept. -/
theorem log_of_pass {answer : Answer} {after : Exchange τ}
    (h : e.pass service r = (answer, after)) : after.log = (r, answer) :: e.log := by
  obtain ⟨rfl, rfl⟩ := Prod.mk.inj h
  rfl

/-- **What a client sends is a trail**, and is kept. -/
theorem follow_trail (service : Service τ) (left : Nat) (r : Request) (e : Exchange τ) :
    ∃ hops, Trail service.client left r hops (e.follow service left r).1 ∧
      (e.follow service left r).2.log = hops.reverse ++ e.log := by
  fun_induction follow service left r e with
  | case1 left r e after hpass => exact ⟨_, .unreachable, (log_of_pass hpass).trans rfl⟩
  | case2 left r e s location after hpass hnext =>
    exact ⟨_, .answered hnext, (log_of_pass hpass).trans rfl⟩
  | case3 r e s location after hpass next hnext =>
    exact ⟨_, .givenUp hnext, (log_of_pass hpass).trans rfl⟩
  | case4 r e s location after hpass next left hnext ih =>
    obtain ⟨hops, htrail, hlog⟩ := ih
    refine ⟨_, .sentOn hnext htrail, hlog.trans ?_⟩
    rw [log_of_pass hpass, List.reverse_cons, List.append_assoc]
    rfl

/-- Is the head of the last answer that follows from a request there while the client waits? -/
def InTime (service : Service τ) (patience : Nat) (r : Request) (e : Exchange τ) : Prop :=
  ∃ n ≤ patience, service.wait e.state r = some n

theorem inTime_iff : e.InTime service patience r ↔
    (service.wait e.state r).any (· ≤ patience) = true := by
  unfold InTime
  cases service.wait e.state r <;> simp

/-- **What comes of sending a request that may be sent**: in time it is the end of a trail. -/
theorem send_trail (hvalid : r.isValid service.client = true)
    (htime : e.InTime service patience r) :
    ∃ hops, Trail service.client redirectLimit r hops (e.send service patience r).1 ∧
      (e.send service patience r).2.log = hops.reverse ++ e.log := by
  rw [send, if_neg (by simp [hvalid]), if_pos (inTime_iff.mp htime)]
  exact follow_trail ..

/-- Later it is not waited for, though the request has been sent. -/
theorem send_late (hvalid : r.isValid service.client = true)
    (htime : ¬ e.InTime service patience r) :
    e.send service patience r = (.error .timedOut, (e.pass service r).2) := by
  rw [send, if_neg (by simp [hvalid]), if_neg (mt inTime_iff.mpr htime)]

/-- What keeps a request that may be sent from an answer is not the request. -/
theorem send_ne_invalid (hvalid : r.isValid service.client = true) :
    (e.send service patience r).1 ≠ .error .invalid := by
  by_cases htime : e.InTime service patience r
  · obtain ⟨hops, htrail, -⟩ := send_trail hvalid htime
    intro h
    rw [h] at htrail
    rcases htrail.eq_of_error with hwhy | hwhy <;> cases hwhy
  · rw [send_late hvalid htime]
    exact fun h => by cases h

/-- A request that may not be sent is not sent. -/
theorem send_invalid (hvalid : r.isValid service.client = false) :
    e.send service patience r = (.error .invalid, e) := by
  rw [send, if_pos (by simp [hvalid])]

/-- **What comes of sending a request**: the requests that are sent for it, and what is reported. -/
structure Sends (service : Service τ) (patience : Nat) (r : Request) (before after : Exchange τ)
    (hops : List Hop) (result : Except SendError Status) : Prop where
  log_eq : after.log = hops.reverse ++ before.log
  length_le : hops.length ≤ redirectLimit + 1
  eq_of_mem_head? : ∀ hop ∈ hops.head?, hop.1 = r
  /-- A success is reported just if there is one in time. -/
  isTaken_iff : (∃ s, result = .ok s ∧ s.isSuccess = true) ↔
    before.InTime service patience r ∧ ∃ hop ∈ hops, hop.isTaken = true
  /-- Then a request with the body was answered so, just if the body was never left behind. -/
  carried_iff : ∀ s, result = .ok s → s.isSuccess = true → ∀ body, r.body = some body →
    ((∃ hop ∈ hops, hop.isTaken = true ∧ hop.1.body = some body) ↔
      ∀ hop ∈ hops, hop.dropsBody = false)
  /-- And then all of them were of its method and carried what it does. -/
  carries_of_kept : (∀ hop ∈ hops, hop.dropsBody = false) →
    ∀ hop ∈ hops, hop.1.method = r.method ∧ hop.1.body = r.body

/-- **Whatever request is sent to whatever service.** -/
theorem exists_sends (service : Service τ) (patience : Nat) (r : Request) (e : Exchange τ) :
    ∃ hops, e.Sends service patience r (e.send service patience r).2 hops
      (e.send service patience r).1 := by
  cases hvalid : r.isValid service.client with
  | false =>
    rw [send_invalid hvalid]
    exact ⟨[], rfl, Nat.zero_le _, by simp, by simp, by simp, by simp⟩
  | true =>
    by_cases htime : e.InTime service patience r
    · obtain ⟨hops, htrail, hlog⟩ := send_trail hvalid htime
      refine ⟨hops, hlog, htrail.length_le, fun hop hmem => ?_, ?_,
        fun s hs hsuccess body hbody => ?_, htrail.carries_of_kept⟩
      · have hhead := htrail.head?_eq
        rw [Option.mem_def.mp hmem] at hhead
        exact Option.some.inj hhead
      · rw [htrail.isTaken_iff]
        exact (and_iff_right htime).symm
      · rw [hs] at htrail
        exact htrail.carried_iff hsuccess hbody
    · rw [send_late hvalid htime]
      exact ⟨[(r, _)], rfl, Nat.le_add_left .., by simp, by simp [htime], by simp, by simp⟩

end Exchange

/-! ## A client to try things out with -/

/-- The headers that say something about a body. -/
def bodyHeaders : List String :=
  ["content-type", "content-encoding", "content-length", "transfer-encoding"]

/-- A client that knows addresses of the simplest kind only: a scheme, two slashes and a name of
small letters. On another address it says where it comes from. -/
def Client.simple : Client where
  isAddress address :=
    let name := address.toList.drop 7
    "http://".toList.isPrefixOf address.toList && !name.isEmpty && name.all (·.isLower)
  onward r s _ :=
    ("Referer", r.address ++ "/") ::
      if s.keepsBody then r.headers
      else r.headers.filter fun h => !bodyHeaders.contains h.1.toLower

/-- A service without a state, met through it, that takes no time. -/
def Service.prompt (respond : Request → Answer) : Service Unit where
  client := .simple
  wait _ _ := some 0
  drain _ _ := some 0
  respond _ r := (respond r, ())

end LinkQuality.Http
