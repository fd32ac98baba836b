import LinkQuality.Proofs.Http.Redirects
import LinkQuality.Proofs.Store.Staging

/-!
# What a commit is worth

A commit that posts what is staged can go wrong for a reason that was there from the start, and can
go right though the batch is lost.

The first is a matter of the settings. Building a store tries out the compression and asks for an
address, but looks neither at what the address says nor at the headers. Where the client library
does not take the address, or HTTP does not allow a header, every commit of something fails, and
nothing is ever sent (`HttpSettings.Sendable`). No other fault of the settings is left to a commit.
What a library takes for an address is its own affair; only that there is none without a scheme is
asked of it where that matters (`Http.Client.AsksForScheme`).

The second is a matter of the answers. A commit goes by the report of the client
(`HttpStore.replyTo`), which is the answer to the last request of a trail; and that request need not
have had the body any more. The commit of a batch that nobody has taken then ends well.
-/

namespace LinkQuality

/-! ## Requests that can be sent -/

/-- **A client that takes no address without a scheme**, which ends at a colon. -/
def Http.Client.AsksForScheme (c : Http.Client) : Prop :=
  ∀ address, c.isAddress address = true → ':' ∈ address.toList

namespace HttpSettings

variable {c : Http.Client} {s : HttpSettings}

/-- **What it takes to send a post**: an address that the client takes, and headers that HTTP
allows. -/
structure Sendable (c : Http.Client) (s : HttpSettings) : Prop where
  address : c.isAddress s.address = true
  headers : ∀ h ∈ s.headers, Http.isHeader h = true

/-- The headers that a post has of itself are allowed. -/
theorem isHeader_coding {name coding : String} (h : Compression.coding name = some coding) :
    Http.isHeader ("Content-Encoding", coding) = true := by
  unfold Compression.coding at h
  split_ifs at h <;> obtain rfl := Option.some.inj h <;> decide

/-- Whether a post can be sent does not depend on its body. -/
theorem isValid_post_iff {body : Body} : (s.post body).isValid c = true ↔ s.Sendable c := by
  have hbuiltin : Http.isHeader ("Content-Type", "application/x-ndjson") = true := by decide
  have hcoding : (((Compression.coding s.compression).map fun coding =>
      ("Content-Encoding", coding)).toList).all Http.isHeader = true := by
    cases h : Compression.coding s.compression with
    | none => rfl
    | some coding => simpa using isHeader_coding h
  have hheaders : s.postHeaders.all Http.isHeader = s.headers.all Http.isHeader := by
    rw [postHeaders, List.all_append, List.all_cons, hbuiltin, hcoding]
    rfl
  rw [Http.Request.isValid, post, Bool.and_eq_true, hheaders, List.all_eq_true]
  exact ⟨fun h => ⟨h.1, h.2⟩, fun h => ⟨h.1, h.2⟩⟩

/-- Settings that a store can be built of name a packing, with which nothing goes wrong. -/
theorem exists_pack_of_checkStore (h : s.checkStore = .ok ()) :
    ∃ packing, ∀ content, Compression.pack s.compression content = .ok ⟨packing, content⟩ := by
  unfold checkStore at h
  split_ifs at h
  cases hpack : Compression.pack s.compression [] with
  | error why => rw [hpack] at h; cases h
  | ok body =>
    obtain ⟨packing, hname, -⟩ := Compression.pack_eq_ok_iff.mp hpack
    exact ⟨packing, fun content => Compression.pack_eq_ok_iff.mpr ⟨packing, hname, rfl⟩⟩

end HttpSettings

/-! ## Commits -/

namespace HttpStore

variable {τ : Type} {settings : HttpSettings} {body : Body} {s : HttpStore τ}

/-- **The reply that a report of the client calls for.** All is well if a post was answered with
success; it fails if it was answered otherwise, or not at all. -/
def replyTo : Except Http.SendError Http.Status → Reply
  | .ok s => if s.isSuccess then .done else .failed (StagedLines.notTaken s)
  | .error why => .failed (StagedLines.notSent why)

theorem replyTo_eq_done_iff {result : Except Http.SendError Http.Status} :
    replyTo result = .done ↔ ∃ s, result = .ok s ∧ s.isSuccess = true := by
  rcases result with why | s
  · simp [replyTo]
  · cases hs : s.isSuccess <;> simp [replyTo, hs]

theorem exists_failed_of_replyTo_ne {result : Except Http.SendError Http.Status}
    (h : replyTo result ≠ .done) : ∃ why, replyTo result = .failed why := by
  rcases result with why | s
  · exact ⟨_, rfl⟩
  · cases hs : s.isSuccess with
    | true => exact absurd (replyTo_eq_done_iff.mpr ⟨s, rfl, hs⟩) h
    | false => exact ⟨StagedLines.notTaken s, by simp [replyTo, hs]⟩

/-- **A commit of something is a post**, and goes by the report of it. -/
theorem ask_commit_eq_replyTo (hitems : s.staged.items ≠ 0)
    (hpack : Compression.pack settings.compression s.staged.body = .ok body)
    (service : Http.Service τ) (batch : List Record) :
    let sent := s.exchange.send service settings.patience (settings.post body)
    (store settings service).ask s (.commit batch) =
      (replyTo sent.1, { s with exchange := sent.2 }) := by
  simp only [Store.ask, store, reply, StagedLines.commit, if_neg hitems, hpack]
  rcases s.exchange.send service settings.patience (settings.post body) with
    ⟨why | status, after⟩
  · rfl
  · cases hstatus : status.isSuccess <;> simp [replyTo, hstatus]

/-- What a store has staged of records that can all be keyed. -/
theorem items_filled (service : Http.Service τ) (state : HttpStore τ) {records : List Record}
    (hkeyed : ∀ r ∈ records, r.node ≠ "") :
    ((store settings service).filled state records).staged.items = records.length := by
  have hall : records.filter Record.isKeyed = records :=
    List.filter_eq_self.mpr fun r hr => decide_eq_true (hkeyed r hr)
  have htransacts : Transacts .plain settings service state records := transacts _ _ _
  have hcount := htransacts.staged.count_eq
  rw [hall] at hcount
  exact hcount

/-! ### Faults of the settings -/

/-- **What a commit can fail for**, once a store has been built and all records are of nodes,
whatever the client takes for an address. A commit of nothing ends well. A commit of something, if a
post can be sent, goes by the report of the client, which finds no fault with the request: it fails
only because the post was not answered, or was answered otherwise than with success. If no post can
be sent, which is nothing that the building of a store looks for, it fails whatever the service is
like, and leaves everything as it was. That is so with any header that HTTP does not allow, and with
an address without a scheme if the client asks for one. -/
theorem commit_of_checkStore (hstore : settings.checkStore = .ok ()) (service : Http.Service τ)
    (state : HttpStore τ) {records : List Record} (hkeyed : ∀ r ∈ records, r.node ≠ "")
    (batch : List Record) :
    let s := (store settings service).filled state records
    let out := (store settings service).ask s (.commit batch)
    (records = [] → out = (.done, s)) ∧
    (records ≠ [] → settings.Sendable service.client →
      ∃ body, Compression.pack settings.compression s.staged.body = .ok body ∧
        let sent := s.exchange.send service settings.patience (settings.post body)
        sent.1 ≠ .error .invalid ∧ out = (replyTo sent.1, { s with exchange := sent.2 })) ∧
    (records ≠ [] → ¬ settings.Sendable service.client →
      out = (.failed (StagedLines.notSent .invalid), s)) ∧
    (∀ h ∈ settings.headers, Http.isHeader h = false → ¬ settings.Sendable service.client) ∧
    (service.client.AsksForScheme → ':' ∉ settings.address.toList →
      ¬ settings.Sendable service.client) := by
  intro s out
  have hcount : s.staged.items = records.length := items_filled service state hkeyed
  obtain ⟨packing, hpack⟩ := HttpSettings.exists_pack_of_checkStore hstore
  have hsome (h : records ≠ []) : s.staged.items ≠ 0 := by
    rw [hcount]
    exact (List.length_pos_iff.mpr h).ne'
  refine ⟨fun h => ?_, fun h hsendable => ?_, fun h hnot => ?_,
    fun header hmem hbad hsendable => ?_,
    fun hscheme hnone hsendable => hnone (hscheme _ hsendable.address)⟩
  · exact holdsBack_store.commit_eq s batch (by rw [hcount, h]; rfl)
  · have hvalid : (settings.post ⟨packing, s.staged.body⟩).isValid service.client = true :=
      HttpSettings.isValid_post_iff.mpr hsendable
    exact ⟨_, hpack _, Http.Exchange.send_ne_invalid hvalid,
      ask_commit_eq_replyTo (hsome h) (hpack _) service batch⟩
  · have hvalid : (settings.post ⟨packing, s.staged.body⟩).isValid service.client = false :=
      Bool.eq_false_iff.mpr (mt HttpSettings.isValid_post_iff.mp hnot)
    have hout : out = _ := ask_commit_eq_replyTo (hsome h) (hpack _) service batch
    rw [hout, Http.Exchange.send_invalid hvalid]
    rfl
  · exact absurd (hbad.symm.trans (hsendable.headers header hmem)) Bool.noConfusion

/-- A post that can be sent, to a service that has gone; and one to an address without a scheme, to
the same. -/
theorem commit_of_checkStore_gone :
    let settings : HttpSettings := { address := "http://h", headers := [("X-Token", "t")] }
    let astray : HttpSettings := { address := "h/ingest" }
    let service : Http.Service Unit := .prompt fun _ => .status ⟨410⟩ none
    let s := (store settings service).filled ⟨⟨(), []⟩, {}⟩ Record.unruly
    let out := (store settings service).ask s (.commit [])
    settings.checkStore = .ok () ∧ settings.Sendable service.client ∧
      (∃ body, Compression.pack settings.compression s.staged.body = .ok body ∧
        let sent := s.exchange.send service settings.patience (settings.post body)
        sent.1 ≠ .error .invalid ∧ out = (replyTo sent.1, { s with exchange := sent.2 })) ∧
      out.1 = .failed (StagedLines.notTaken ⟨410⟩) ∧
      astray.checkStore = .ok () ∧
      ((store astray service).ask ((store astray service).filled ⟨⟨(), []⟩, {}⟩ Record.unruly)
        (.commit [])).1 = .failed (StagedLines.notSent .invalid) := by
  intro settings astray service s out
  have hsendable : settings.Sendable service.client := ⟨by decide +kernel, by decide +kernel⟩
  have hkeyed : ∀ r ∈ Record.unruly, r.node ≠ "" := by decide +kernel
  have hsome : Record.unruly ≠ [] := List.cons_ne_nil _ _
  have hstore : settings.checkStore = .ok () := rfl
  have hgone : out.1 = .failed (StagedLines.notTaken ⟨410⟩) := by
    simp only [out, s, service, settings]
    rfl
  have hscheme : service.client.AsksForScheme := fun address h => by
    -- the scheme that the client looks for has a colon in it
    simp only [service, Http.Service.prompt, Http.Client.simple, Bool.and_eq_true] at h
    exact (List.isPrefixOf_iff_prefix.mp h.1.1).subset (by decide +kernel)
  have hnone : ':' ∉ astray.address.toList := by decide +kernel
  have hastray : astray.checkStore = .ok () := rfl
  -- nothing is to be evaluated from here on
  clear_value settings astray service
  obtain ⟨-, hfails, -⟩ := commit_of_checkStore hstore service ⟨⟨(), []⟩, {}⟩ hkeyed []
  obtain ⟨-, -, hunsent, -, hunsendable⟩ :=
    commit_of_checkStore hastray service ⟨⟨(), []⟩, {}⟩ hkeyed []
  exact ⟨hstore, hsendable, hfails hsome hsendable, hgone, hastray,
    congrArg Prod.fst (hunsent hsome (hunsendable hscheme hnone))⟩

/-- A header with a blank in its name is none that the building of a store looks at, and with it no
batch is ever taken, though the address is one and the service would take any batch. -/
theorem not_taken_of_header :
    let settings : HttpSettings := { address := "http://h", headers := [("bad name", "x")] }
    let service : Http.Service Unit := .prompt fun _ => .status ⟨204⟩ none
    let s := (store settings service).filled ⟨⟨(), []⟩, {}⟩ Record.unruly
    let out := (store settings service).ask s (.commit [])
    settings.checkStore = .ok () ∧ service.client.isAddress settings.address = true ∧
      (∀ r ∈ Record.unruly, r.node ≠ "") ∧
      out.1 = .failed (StagedLines.notSent .invalid) ∧ out.2.exchange.log = [] :=
  ⟨rfl, by decide +kernel, by decide +kernel, rfl, rfl⟩

/-! ### Batches that are taken -/

/-- **What it means that a commit of something ends well**: of the requests that were sent for the
post, one was answered with success, and its head was there in time. That request has carried what
was staged just if no answer before it has made the client leave the body behind; and where none
has, every request was a post of the whole body. Where there is no success, the commit fails. -/
theorem commit_done_iff (hstore : settings.checkStore = .ok ()) (hitems : s.staged.items ≠ 0)
    (service : Http.Service τ) (batch : List Record) :
    let out := (store settings service).ask s (.commit batch)
    ∃ (body : Body) (hops : List Http.Hop),
      Compression.pack settings.compression s.staged.body = .ok body ∧
      out.2.exchange.log = hops.reverse ++ s.exchange.log ∧
      hops.length ≤ Http.redirectLimit + 1 ∧
      (∀ hop ∈ hops.head?, hop.1 = settings.post body) ∧
      (out.1 = .done ↔ s.exchange.InTime service settings.patience (settings.post body) ∧
        ∃ hop ∈ hops, hop.isTaken = true) ∧
      (out.1 ≠ .done → ∃ why, out.1 = .failed why) ∧
      (out.1 = .done → ((∃ hop ∈ hops, hop.isTaken = true ∧ hop.1.body = some body) ↔
        ∀ hop ∈ hops, hop.dropsBody = false)) ∧
      ((∀ hop ∈ hops, hop.dropsBody = false) →
        ∀ hop ∈ hops, hop.1.method = .post ∧ hop.1.body = some body) := by
  intro out
  obtain ⟨packing, hpack⟩ := HttpSettings.exists_pack_of_checkStore hstore
  obtain ⟨hops, hsends⟩ := s.exchange.exists_sends service settings.patience
    (settings.post ⟨packing, s.staged.body⟩)
  have hout : out = _ := ask_commit_eq_replyTo hitems (hpack _) service batch
  have hdone : out.1 = .done ↔ _ := (congrArg (·.1 = .done) hout).to_iff.trans replyTo_eq_done_iff
  refine ⟨_, hops, hpack _, ?_, hsends.length_le, hsends.eq_of_mem_head?,
    hdone.trans hsends.isTaken_iff, fun hnot => ?_, fun h => ?_, hsends.carries_of_kept⟩
  · rw [hout]
    exact hsends.log_eq
  · rw [hout] at hnot ⊢
    exact exists_failed_of_replyTo_ne hnot
  · obtain ⟨status, hstatus, hsuccess⟩ := hdone.mp h
    exact hsends.carried_iff status hstatus hsuccess _ rfl

/-- The service has moved to another address, and the post is repeated there. -/
theorem commit_done_iff_moved :
    let settings : HttpSettings := { address := "http://h" }
    let service : Http.Service Unit := .prompt fun r =>
      if r.address = "http://h" then .status ⟨308⟩ (some "http://moved") else .status ⟨204⟩ none
    let s := (store settings service).filled ⟨⟨(), []⟩, {}⟩ Record.unruly
    let out := (store settings service).ask s (.commit [])
    settings.checkStore = .ok () ∧ s.staged.items ≠ 0 ∧ out.1 = .done ∧
      ∃ (body : Body) (hops : List Http.Hop),
        Compression.pack settings.compression s.staged.body = .ok body ∧
        out.2.exchange.log = hops.reverse ++ s.exchange.log ∧
        ∃ hop ∈ hops, hop.isTaken = true ∧ hop.1.body = some body := by
  intro settings service s out
  have hstore : settings.checkStore = .ok () := rfl
  have hitems : s.staged.items ≠ 0 := by decide +kernel
  have hdone : out.1 = .done := by simp only [out, s, service, settings]; rfl
  have hkept : ∀ hop ∈ out.2.exchange.log, Http.Hop.dropsBody hop = false := by decide +kernel
  -- nothing is to be evaluated from here on
  clear_value settings service
  obtain ⟨body, hops, hpack, hlog, -, -, -, -, hcarried, -⟩ :=
    commit_done_iff hstore hitems service []
  refine ⟨hstore, hitems, hdone, body, hops, hpack, hlog, (hcarried hdone).mpr fun hop hmem => ?_⟩
  exact hkept hop (hlog ▸ List.mem_append_left _ (List.mem_reverse.mpr hmem))

/-- Where a service sends the client to a page that anyone may read, the commit ends well. The batch
was never taken: no request that was answered with success has carried anything. -/
theorem not_carried_of_found :
    let settings : HttpSettings := { address := "http://h" }
    let service : Http.Service Unit := .prompt fun r =>
      if r.address = "http://h" then .status ⟨302⟩ (some "http://h/login") else .status ⟨200⟩ none
    let s := (store settings service).filled ⟨⟨(), []⟩, {}⟩ Record.unruly
    let out := (store settings service).ask s (.commit [])
    settings.checkStore = .ok () ∧ s.staged.items ≠ 0 ∧ out.1 = .done ∧
      ∀ hop ∈ out.2.exchange.log, Http.Hop.isTaken hop = true → hop.1.body = none :=
  ⟨rfl, by decide +kernel, rfl, by decide +kernel⟩

end HttpStore

end LinkQuality
