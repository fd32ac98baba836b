import LinkQuality.Proofs.Feed.RoundTrip
import LinkQuality.Proofs.Http.Redirects
import LinkQuality.Proofs.Store.Statement
import LinkQuality.Store.ClickHouse
import LinkQuality.Store.Http

/-!
# What a transaction stages

Neither store sends anything before a commit. An insertion puts a line or a row at the end of what
is staged, or fails and changes nothing, and the one thing it fails for is a record of no node. So
after any insertions, whichever of them have failed, what is staged are the records of nodes, in
their order (`Store.HoldsBack.filled_eq`): this much is shown once for both stores, of any store
that holds back what it is given (`Store.HoldsBack`).

What is staged is then sent in one piece, or not at all if it is nothing. A ClickHouse server
executes one statement. An HTTP service gets one post, which is where the name of a compression
matters twice: it says how the body is packed and what the service is told about that. The two agree
for every name (`Compression.ofCoding?_coding`), so whoever takes the service at its word finds in
the bytes what was staged, whatever the packing does, as long as it loses nothing (`Codec`).
-/

namespace LinkQuality

/-! ## Staging -/

/-- Is the record about a node? -/
def Record.isKeyed (r : Record) : Bool := r.node ≠ ""

/-- Only then can a store key it. -/
theorem Record.check_eq (r : Record) :
    r.check = if r.isKeyed then .ok () else .error missingNode := by
  simp only [check, isKeyed, ne_eq, decide_not, Bool.not_eq_true', decide_eq_false_iff_not, ite_not]

namespace Store

variable {σ ω : Type} {store : Store σ}

/-- **What a store answers to a request**, and what it is after that. -/
def ask (store : Store σ) (state : σ) (request : Request) : Reply × σ :=
  store.answer (store.accept state request).2 request

/-- **A store in the middle of a transaction**, after insertions of which any may have failed. -/
def filled (store : Store σ) (state : σ) (records : List Record) : σ :=
  records.foldl (fun s r => (store.ask s (.insert r)).2) (store.ask state .begin).2

/-- **A store that holds back what it is given** until it is asked to commit. -/
structure HoldsBack (store : Store σ) (stage : σ → Record → σ) (count : σ → Nat) (sent : σ → ω) :
    Prop where
  begin_eq : ∀ s, (store.ask s .begin).1 = .done →
    count (store.ask s .begin).2 = 0 ∧ sent (store.ask s .begin).2 = sent s
  insert_eq : ∀ s r, store.ask s (.insert r) =
    if r.isKeyed then (.done, stage s r) else (.failed Record.missingNode, s)
  stage_eq : ∀ s r, count (stage s r) = count s + 1 ∧ sent (stage s r) = sent s
  rollback_eq : ∀ s, (store.ask s .rollback).1 = .done ∧ sent (store.ask s .rollback).2 = sent s
  commit_eq : ∀ s records, count s = 0 → store.ask s (.commit records) = (.done, s)

/-- **What a transaction has come to** after some insertions: `count` records are staged as `text`
and nothing has been `sent`. -/
structure Staged (store : Store σ) (count : σ → Nat) (sent : σ → ω) (text : σ → List Char)
    (state : σ) (records : List Record) (written : List Char) : Prop where
  text_eq : text (store.filled state records) = written
  count_eq : count (store.filled state records) = (records.filter Record.isKeyed).length
  sent_eq : sent (store.filled state records) = sent state
  /-- One more insertion fails just for want of a node. -/
  reply_insert : ∀ r, (store.ask (store.filled state records) (.insert r)).1 =
    if r.node = "" then .failed Record.missingNode else .done
  /-- If it fails, everything is left as it was. -/
  eq_of_node_eq : ∀ r, r.node = "" →
    (store.ask (store.filled state records) (.insert r)).2 = store.filled state records
  sent_rollback : sent (store.ask (store.filled state records) .rollback).2 = sent state
  commit_of_empty : records.filter Record.isKeyed = [] → ∀ batch,
    store.ask (store.filled state records) (.commit batch) = (.done, store.filled state records)

variable {stage : σ → Record → σ} {count : σ → Nat} {sent : σ → ω} {text : σ → List Char}

/-- The records that are staged are those that can be keyed, in order. -/
theorem HoldsBack.filled_eq (h : store.HoldsBack stage count sent) (state : σ)
    (records : List Record) :
    store.filled state records =
      (records.filter Record.isKeyed).foldl stage (store.ask state .begin).2 := by
  have hstep : (fun s r => (store.ask s (.insert r)).2) =
      fun s r => if r.isKeyed then stage s r else s := by
    funext s r
    rw [h.insert_eq]
    split <;> rfl
  rw [filled, hstep, List.foldl_filter]

/-- Staging counts them, and sends nothing. -/
theorem HoldsBack.foldl_stage (h : store.HoldsBack stage count sent) (records : List Record)
    (s : σ) :
    count (records.foldl stage s) = count s + records.length ∧
      sent (records.foldl stage s) = sent s := by
  induction records generalizing s with
  | nil => exact ⟨rfl, rfl⟩
  | cons r records ih =>
    obtain ⟨hcount, hsent⟩ := ih (stage s r)
    obtain ⟨hone, hsame⟩ := h.stage_eq s r
    refine ⟨?_, hsent.trans hsame⟩
    rw [List.foldl_cons, hcount, hone, List.length_cons]
    omega

/-- **A store that holds back what it is given stages just the records of nodes.** -/
theorem HoldsBack.staged (h : store.HoldsBack stage count sent) {state : σ}
    (hbegin : (store.ask state .begin).1 = .done) {records : List Record} {written : List Char}
    (htext : text ((records.filter Record.isKeyed).foldl stage (store.ask state .begin).2) =
      written) :
    store.Staged count sent text state records written := by
  obtain ⟨hzero, hsame⟩ := h.begin_eq state hbegin
  obtain ⟨hcount, hsent⟩ :=
    h.foldl_stage (records.filter Record.isKeyed) (store.ask state .begin).2
  rw [hzero, Nat.zero_add, ← h.filled_eq] at hcount
  rw [hsame, ← h.filled_eq] at hsent
  exact
    { text_eq := by rw [h.filled_eq, htext]
      count_eq := hcount
      sent_eq := hsent
      reply_insert := fun r => by
        rw [h.insert_eq, Record.isKeyed]
        by_cases hr : r.node = "" <;> simp [hr]
      eq_of_node_eq := fun r hr => by
        rw [h.insert_eq, Record.isKeyed]
        simp [hr]
      sent_rollback := (h.rollback_eq _).2.trans hsent
      commit_of_empty := fun hnone batch => h.commit_eq _ batch (by rw [hcount, hnone]; rfl) }

end Store

/-! ## Bodies on the wire -/

/-- **Ways of packing that lose nothing.** -/
structure Codec where
  pack : Compression → List UInt8 → List UInt8
  unpack : Compression → List UInt8 → Option (List UInt8)
  pack_none : ∀ bytes, pack .none bytes = bytes
  unpack_pack : ∀ packing bytes, unpack packing (pack packing bytes) = some bytes

/-- **What the receiver is told about a name is what the name stands for.** -/
theorem Compression.ofCoding?_coding {name : String} {packing : Compression}
    (h : ofName? name = some packing) : ofCoding? (coding name) = some packing := by
  unfold ofName? at h
  split_ifs at h with hnone hgzip hzstd hzlib <;> obtain rfl := Option.some.inj h
  · rcases hnone with rfl | rfl <;> rfl
  · rw [hgzip]
    rfl
  · rw [hzstd]
    rfl
  · rw [hzlib]
    rfl

/-- It is told nothing only where nothing is to be unpacked. -/
theorem Compression.eq_none_of_coding {name : String} {packing : Compression}
    (h : ofName? name = some packing) (hcoding : coding name = Option.none) : packing = .none := by
  have hpacking := ofCoding?_coding h
  rw [hcoding] at hpacking
  exact (Option.some.inj hpacking).symm

/-- A body that was packed holds its content, packed the way the name says. -/
theorem Compression.pack_eq_ok_iff {name : String} {content : List Char} {body : Body} :
    pack name content = .ok body ↔
      ∃ packing, ofName? name = some packing ∧ body = ⟨packing, content⟩ := by
  unfold pack
  cases ofName? name <;> simp [eq_comm]

namespace Codec

variable (codec : Codec)

/-- The bytes that are sent for a body. -/
def bytes (body : Body) : List UInt8 := codec.pack body.packing (FeedInput.encoded body.content)

/-- **What a receiver makes of bytes** that come with a coding, or without one. -/
def read : Option String → List UInt8 → Option (List UInt8)
  | none, bytes => some bytes
  | some coding, bytes =>
    (Compression.ofCoding? (some coding)).bind fun packing => codec.unpack packing bytes

/-- **The receiver is told how to unpack what it is sent.** -/
theorem read_bytes {name : String} {content : List Char} {body : Body}
    (h : Compression.pack name content = .ok body) :
    codec.read (Compression.coding name) (codec.bytes body) = some (FeedInput.encoded content) := by
  obtain ⟨packing, hname, rfl⟩ := Compression.pack_eq_ok_iff.mp h
  cases hcoding : Compression.coding name with
  | none =>
    obtain rfl := Compression.eq_none_of_coding hname hcoding
    exact congrArg some (codec.pack_none _)
  | some coding =>
    rw [read, ← hcoding, Compression.ofCoding?_coding hname, Option.bind_some]
    exact codec.unpack_pack ..

end Codec

/-! ## Posting once -/

/-- Success is what the second hundred of codes stands for. -/
theorem Http.Status.isSuccess_iff {s : Status} : s.isSuccess = true ↔ s.code / 100 = 2 := by
  rw [isSuccess, Bool.and_eq_true, decide_eq_true_iff, decide_eq_true_iff]
  omega

namespace Http.Exchange

variable {τ : Type}

/-- **A request was answered in time**: it is the last one sent, and its answer was waited for. -/
structure Received (service : Service τ) (patience : Nat) (before after : Exchange τ) (r : Request)
    (s : Status) : Prop where
  log_eq : ∃ location, after.log = (r, .status s location) :: before.log
  in_time : ∃ n ≤ patience, service.wait before.state r = some n

/-- A client that is not sent on sends one request. -/
theorem follow_of_direct {service : Service τ} {r : Request} {e : Exchange τ}
    (h : ∀ s location, (service.respond e.state r).1 = .status s location →
      r.redirected? service.client s location = none) (left : Nat) :
    e.follow service left r =
      (match (service.respond e.state r).1 with
        | .unreachable => .error .unreachable
        | .status s _ => .ok s, (e.pass service r).2) := by
  rw [follow.eq_def]
  simp only [pass]
  cases hanswer : (service.respond e.state r).1 with
  | unreachable => rfl
  | status s location =>
    simp only [h s location hanswer]

/-- Where nothing was sent nothing was answered. -/
theorem not_received_self {service : Service τ} {patience : Nat} {e : Exchange τ} {r : Request}
    {s : Status} : ¬ e.Received service patience e r s := by
  rintro ⟨⟨location, hlog⟩, -⟩
  exact List.cons_ne_self _ _ hlog.symm

/-- Where a request was sent, it is the one that was answered. -/
theorem received_pass_iff {service : Service τ} {patience : Nat} {e : Exchange τ} {r r' : Request}
    {s : Status} :
    e.Received service patience (e.pass service r).2 r' s ↔
      r' = r ∧ (∃ location, (service.respond e.state r).1 = .status s location) ∧
        ∃ n ≤ patience, service.wait e.state r = some n := by
  constructor
  · rintro ⟨⟨location, hlog⟩, htime⟩
    obtain ⟨hrequest, hanswer⟩ := Prod.mk.inj (List.cons.inj hlog).1
    subst hrequest
    exact ⟨rfl, ⟨location, hanswer⟩, htime⟩
  · rintro ⟨rfl, ⟨location, hanswer⟩, htime⟩
    refine ⟨⟨location, ?_⟩, htime⟩
    rw [← hanswer]
    rfl

/-- **A request that may be sent is sent once** by a client that is not sent on, and it ends well
if it is answered in time. -/
theorem send_of_direct {service : Service τ} {patience : Nat} {r : Request} {e : Exchange τ}
    (hvalid : r.isValid service.client = true)
    (h : ∀ s location, (service.respond e.state r).1 = .status s location →
      r.redirected? service.client s location = none) :
    (e.send service patience r).2 = (e.pass service r).2 ∧
      ∀ s, (e.send service patience r).1 = .ok s ↔
        e.Received service patience (e.pass service r).2 r s := by
  have htimely : (service.wait e.state r).any (· ≤ patience) = true ↔
      ∃ n ≤ patience, service.wait e.state r = some n := inTime_iff.symm
  rw [send, if_neg (by simp [hvalid])]
  simp only [received_pass_iff, true_and, htimely, follow_of_direct h]
  split
  next hwait =>
    refine ⟨rfl, fun s => ?_⟩
    cases (service.respond e.state r).1 with
    | unreachable => simp
    | status s' location => simp [hwait]
  next hwait => exact ⟨rfl, fun s => by simp [hwait]⟩

end Http.Exchange

/-- **A commit that posts what is staged**, in one request at most: between two exchanges, and
`taken` if it ends well. -/
structure StagedLines.PostsOnce {τ : Type} (codec : Codec) (settings : HttpSettings)
    (service : Http.Service τ) (t : StagedLines) (before after : Http.Exchange τ) (taken : Prop) :
    Prop where
  /-- A request is sent, and its body can be unpacked to what is staged; or none is, for it is not
  allowed. -/
  posted :
    (∃ body, after = (before.pass service (settings.post body)).2 ∧
      codec.read (Compression.coding settings.compression) (codec.bytes body) =
        some (FeedInput.encoded t.body)) ∨
    after = before ∧ ∀ body, Compression.pack settings.compression t.body = .ok body →
      (settings.post body).isValid service.client = false
  /-- It ends well just if a status of the second hundred is received. -/
  taken_iff : taken ↔ ∃ body s,
    before.Received service settings.patience after (settings.post body) s ∧ s.code / 100 = 2

namespace StagedLines

variable {τ : Type} {settings : HttpSettings} {service : Http.Service τ} {t : StagedLines}
  {e : Http.Exchange τ}

/-- Nothing is sent that cannot be sent, and that does not end well. -/
theorem postsOnce_unsent (codec : Codec) {taken : Prop} (hnot : ¬ taken)
    (h : ∀ body, Compression.pack settings.compression t.body = .ok body →
      (settings.post body).isValid service.client = false) :
    t.PostsOnce codec settings service e e taken where
  posted := .inr ⟨rfl, h⟩
  taken_iff :=
    ⟨fun h => absurd h hnot, fun ⟨_, _, h, _⟩ => absurd h Http.Exchange.not_received_self⟩

/-- A post that may be sent is sent once. -/
theorem postsOnce_send (codec : Codec) {body : Body}
    (hpack : Compression.pack settings.compression t.body = .ok body)
    (hvalid : (settings.post body).isValid service.client = true)
    (hdirect : ∀ s location, (service.respond e.state (settings.post body)).1 = .status s location →
      (settings.post body).redirected? service.client s location = none) :
    let out := e.send service settings.patience (settings.post body)
    t.PostsOnce codec settings service e out.2 (∃ s, out.1 = .ok s ∧ s.code / 100 = 2) := by
  intro out
  obtain ⟨hafter, hok⟩ : out.2 = _ ∧ ∀ s, out.1 = .ok s ↔ _ :=
    Http.Exchange.send_of_direct hvalid hdirect
  rw [hafter]
  refine ⟨.inl ⟨body, rfl, codec.read_bytes hpack⟩, ?_, ?_⟩
  · rintro ⟨s, hs, hsuccess⟩
    exact ⟨body, s, (hok s).mp hs, hsuccess⟩
  · -- of all posts only the one that was sent can have been answered
    rintro ⟨body', s, hs, hsuccess⟩
    rw [(Http.Exchange.received_pass_iff.mp hs).1] at hs
    exact ⟨s, (hok s).mpr hs, hsuccess⟩

/-- **A commit of something posts it once.** -/
theorem commit_postsOnce (codec : Codec) (ht : t.items ≠ 0)
    (hdirect : ∀ body s location,
      (service.respond e.state (settings.post body)).1 = .status s location →
        (settings.post body).redirected? service.client s location = none) :
    let out := t.commit settings service e
    t.PostsOnce codec settings service e out.2 (out.1 = .ok ()) := by
  dsimp only
  rw [commit, if_neg ht]
  cases hpack : Compression.pack settings.compression t.body with
  | error why =>
    exact postsOnce_unsent codec (fun h => by cases h) fun body h => by cases hpack.symm.trans h
  | ok body =>
    dsimp only
    cases hvalid : (settings.post body).isValid service.client with
    | false =>
      rw [Http.Exchange.send_invalid hvalid]
      refine postsOnce_unsent codec (fun h => by cases h) fun body' h => ?_
      obtain rfl := Except.ok.inj (hpack.symm.trans h)
      exact hvalid
    | true =>
      have hposts := postsOnce_send codec hpack hvalid (hdirect body)
      rcases hsend : e.send service settings.patience (settings.post body) with ⟨why | s, after⟩
      · rw [hsend] at hposts
        exact ⟨hposts.posted, Iff.trans (by simp) hposts.taken_iff⟩
      · rw [hsend] at hposts
        have htaken : (if s.isSuccess then .ok () else .error (notTaken s)) =
            (.ok () : Except Failure Unit) ↔ s.code / 100 = 2 := by
          rw [← Http.Status.isSuccess_iff]
          cases s.isSuccess <;> simp
        exact ⟨hposts.posted, htaken.trans (Iff.trans (by simp) hposts.taken_iff)⟩

end StagedLines

/-! ## The two stores -/

namespace HttpStore

variable {τ : Type} {settings : HttpSettings} {service : Http.Service τ}

/-- A store with one more line staged. -/
def stage (s : HttpStore τ) (r : Record) : HttpStore τ :=
  { s with staged := ⟨s.staged.body ++ r.ndjson, s.staged.items + 1⟩ }

/-- **A store in front of an HTTP service holds lines back.** -/
theorem holdsBack_store :
    (store settings service).HoldsBack stage (·.staged.items) (·.exchange) where
  begin_eq _ _ := ⟨rfl, rfl⟩
  insert_eq s r := by
    simp only [Store.ask, store, reply, StagedLines.insert, Record.check_eq]
    cases r.isKeyed <;> rfl
  stage_eq _ _ := ⟨rfl, rfl⟩
  rollback_eq _ := ⟨rfl, rfl⟩
  commit_eq s records h := by
    have hcommit : s.staged.commit settings service s.exchange = (.ok (), s.exchange) := if_pos h
    simp only [Store.ask, store, reply, hcommit]

/-- Lines are staged one after the other. -/
theorem body_foldl_stage (records : List Record) (s : HttpStore τ) :
    (records.foldl stage s).staged.body = s.staged.body ++ records.flatMap Record.ndjson := by
  induction records generalizing s with
  | nil => exact (List.append_nil _).symm
  | cons r records ih =>
    rw [List.foldl_cons, ih, List.flatMap_cons, ← List.append_assoc]
    rfl

/-- What is answered to a commit, and what it leaves behind. -/
theorem ask_commit (settings : HttpSettings) (service : Http.Service τ) (s : HttpStore τ)
    (batch : List Record) :
    let out := (store settings service).ask s (.commit batch)
    let result := s.staged.commit settings service s.exchange
    out.2.exchange = result.2 ∧ (out.1 = .done ↔ result.1 = .ok ()) := by
  simp only [Store.ask, store, reply]
  rcases s.staged.commit settings service s.exchange with ⟨_ | _, _⟩ <;> simp

/-- **A transaction of a store in front of an HTTP service**, after some insertions. -/
structure Transacts (codec : Codec) (settings : HttpSettings) (service : Http.Service τ)
    (state : HttpStore τ) (records : List Record) : Prop where
  /-- What is staged is one line for each record of a node. -/
  staged : (store settings service).Staged (·.staged.items) (·.exchange) (·.staged.body) state
    records ((records.filter Record.isKeyed).flatMap fun r => r.json ++ ['\n'])
  newline_not_mem_json : ∀ r ∈ records, '\n' ∉ r.json
  postsOnce : records.filter Record.isKeyed ≠ [] → ∀ batch,
    let s := (store settings service).filled state records
    let out := (store settings service).ask s (.commit batch)
    (∀ body status location,
        (service.respond s.exchange.state (settings.post body)).1 = .status status location →
          (settings.post body).redirected? service.client status location = none) →
      s.staged.PostsOnce codec settings service s.exchange out.2.exchange (out.1 = .done)

/-- **Every transaction is one.** -/
theorem transacts (codec : Codec) (state : HttpStore τ) (records : List Record) :
    Transacts codec settings service state records := by
  have hstaged : (store settings service).Staged (·.staged.items) (·.exchange) (·.staged.body)
      state records ((records.filter Record.isKeyed).flatMap fun r => r.json ++ ['\n']) :=
    holdsBack_store.staged rfl (body_foldl_stage _ _)
  refine ⟨hstaged, fun r _ h => absurd (FeedSample.le_of_mem_json h) (by decide), ?_⟩
  intro hsome batch s out hdirect
  have hitems : s.staged.items ≠ 0 := by
    rw [hstaged.count_eq]
    exact (List.length_pos_iff.mpr hsome).ne'
  obtain ⟨hafter, htaken⟩ := ask_commit settings service s batch
  have hposts : s.staged.PostsOnce codec settings service s.exchange _ _ :=
    StagedLines.commit_postsOnce codec hitems hdirect
  rw [← hafter] at hposts
  exact ⟨hposts.posted, htaken.trans hposts.taken_iff⟩

end HttpStore

namespace Statement

/-- Rows that come after another, as rows with something between them. -/
theorem append_flatMap_row (r : Record) (records : List Record) :
    row r ++ (records.flatMap fun r => comma ++ row r) =
      List.intercalate comma ((r :: records).map row) := by
  induction records generalizing r with
  | nil => simp
  | cons r' records ih =>
    rw [List.flatMap_cons, List.append_assoc, ih r', List.map_cons, List.map_cons, List.map_cons,
      List.intercalate_cons_cons, List.append_assoc]

/-- **The text of a statement**: its head, and its rows with commas between them. -/
theorem sql_foldl_push (table : String) (records : List Record) :
    (records.foldl push (into table)).sql =
      (into table).sql ++ List.intercalate comma (records.map row) := by
  cases records with
  | nil => exact (List.append_nil _).symm
  | cons r records =>
    have hfirst : ((into table).push r).sql = (into table).sql ++ row r :=
      congrArg (· ++ row r) (List.append_nil _)
    rw [List.foldl_cons, foldl_push_of_pos (Nat.succ_pos _), hfirst, List.append_assoc,
      append_flatMap_row]

end Statement

namespace ClickHouseStore

variable {τ : Type} {settings : ClickHouseSettings} {server : ClickHouse.Server τ}

/-- A store with one more row staged. -/
def stage (s : ClickHouseStore τ) (r : Record) : ClickHouseStore τ :=
  { s with staged := s.staged.push r }

/-- A transaction begins with a statement without rows. -/
theorem ask_begin {s : ClickHouseStore τ} (h : ((store settings server).ask s .begin).1 = .done) :
    let begun := ((store settings server).ask s .begin).2
    begun.staged = .into settings.qualifiedTable ∧ begun.log = s.log := by
  rcases hconnect : server.connect s.state settings.dsn with ⟨outcome, state⟩
  simp only [Store.ask, store, reply, begin, hconnect] at h ⊢
  rcases outcome with _ | _ | why
  · cases h
  · exact ⟨rfl, rfl⟩
  · cases h

/-- **A store in front of a ClickHouse server holds rows back.** -/
theorem holdsBack_store :
    (store settings server).HoldsBack stage (·.staged.rows) (·.log) where
  begin_eq s h := by
    obtain ⟨hstaged, hlog⟩ := ask_begin h
    exact ⟨congrArg Statement.rows hstaged, hlog⟩
  insert_eq s r := by
    simp only [Store.ask, store, reply, Statement.insert, Record.check_eq]
    cases r.isKeyed <;> rfl
  stage_eq _ _ := ⟨rfl, rfl⟩
  rollback_eq _ := ⟨rfl, rfl⟩
  commit_eq s records h := by
    have hcommit : s.commit server = (.ok (), s) := if_pos h
    simp only [Store.ask, store, reply, hcommit]

/-- Rows are staged one after the other. -/
theorem staged_foldl_stage (records : List Record) (s : ClickHouseStore τ) :
    (records.foldl stage s).staged = records.foldl Statement.push s.staged := by
  induction records generalizing s with
  | nil => rfl
  | cons r records ih => exact ih (stage s r)

/-- With something staged a commit has the server execute the statement once. -/
theorem ask_commit {s : ClickHouseStore τ} (hrows : s.staged.rows ≠ 0) (batch : List Record) :
    let out := (store settings server).ask s (.commit batch)
    out.2.log = s.staged.sql :: s.log ∧ out.2.state = (server.execute s.state s.staged.sql).2 ∧
      (out.1 = .done ↔ (server.execute s.state s.staged.sql).1 = .done) := by
  rcases hexecute : server.execute s.state s.staged.sql with ⟨_ | why, state⟩ <;>
    simp [Store.ask, store, reply, commit, hrows, hexecute]

/-- **A transaction of a store in front of a ClickHouse server**, after some insertions. -/
structure Transacts (settings : ClickHouseSettings) (server : ClickHouse.Server τ)
    (state : ClickHouseStore τ) (records : List Record) : Prop where
  /-- What is staged is one row for each record of a node. -/
  staged : (store settings server).Staged (·.staged.rows) (·.log) (·.staged.sql) state records
    ((Statement.into settings.qualifiedTable).sql ++
      List.intercalate Statement.comma ((records.filter Record.isKeyed).map Statement.row))
  executesOnce : records.filter Record.isKeyed ≠ [] → ∀ batch,
    let s := (store settings server).filled state records
    let out := (store settings server).ask s (.commit batch)
    out.2.log = s.staged.sql :: s.log ∧ out.2.state = (server.execute s.state s.staged.sql).2 ∧
      (out.1 = .done ↔ (server.execute s.state s.staged.sql).1 = .done)

/-- **Every transaction that has begun is one.** -/
theorem transacts {state : ClickHouseStore τ}
    (hbegin : ((store settings server).ask state .begin).1 = .done) (records : List Record) :
    Transacts settings server state records := by
  have hstaged : (store settings server).Staged (·.staged.rows) (·.log) (·.staged.sql) state records
      ((Statement.into settings.qualifiedTable).sql ++
        List.intercalate Statement.comma ((records.filter Record.isKeyed).map Statement.row)) := by
    refine holdsBack_store.staged hbegin ?_
    rw [staged_foldl_stage, (ask_begin hbegin).1, Statement.sql_foldl_push]
  refine ⟨hstaged, fun hsome batch => ask_commit ?_ batch⟩
  rw [hstaged.count_eq]
  exact (List.length_pos_iff.mpr hsome).ne'

end ClickHouseStore

/-! ## Both stores -/

/-- **Transactions of both stores**, after any insertions.

* An insertion fails just for want of a node, and then leaves everything as it was. What is staged
  is one line or one row for each record of a node, in order, and is counted so.
* Until a commit nothing is sent. A rollback sends nothing, nor does a commit of nothing.
* Any other commit of lines, to a service that does not send its client on, posts at most once. The
  body of the post unpacks to the lines, and the commit ends well just if a success is received.
* Any other commit of rows has the server execute their statement once, and ends as that does. -/
theorem transacts_stores {τ υ : Type} (codec : Codec) (http : HttpSettings)
    (service : Http.Service τ) (lines : HttpStore τ) (clickHouse : ClickHouseSettings)
    (server : ClickHouse.Server υ) (rows : ClickHouseStore υ) (records : List Record) :
    HttpStore.Transacts codec http service lines records ∧
      (((ClickHouseStore.store clickHouse server).ask rows .begin).1 = .done →
        ClickHouseStore.Transacts clickHouse server rows records) :=
  ⟨HttpStore.transacts codec lines records, fun h => ClickHouseStore.transacts h records⟩

/-- Nothing is packed. -/
def Codec.plain : Codec where
  pack _ bytes := bytes
  unpack _ bytes := some bytes
  pack_none _ := rfl
  unpack_pack _ _ := rfl

/-- Two unruly records, each after one of no node. -/
def Record.faulty : List Record := unruly.flatMap fun r => [{ r with node := "" }, r]

/-- Two of four insertions fail. The lines of the others are posted and taken, and their rows make
one statement. -/
theorem transacts_stores_faulty :
    let settings : HttpSettings := { address := "http://h", compression := "none" }
    let service : Http.Service Unit := .prompt fun _ => .status ⟨204⟩ none
    let server : ClickHouse.Server Unit :=
      ⟨fun _ _ => (some .done, ()), fun _ => (some .done, ()), fun _ _ => some 0,
        fun _ _ => (.done, ())⟩
    let s := (HttpStore.store settings service).filled ⟨⟨(), []⟩, {}⟩ Record.faulty
    let out := (HttpStore.store settings service).ask s (.commit [])
    s.staged.PostsOnce .plain settings service s.exchange out.2.exchange (out.1 = .done) ∧
      s.staged.items = 2 ∧ out.2.exchange.log.length = 1 ∧
      ClickHouseStore.Transacts {} server ⟨(), [], .into ""⟩ Record.faulty := by
  have hsome : Record.faulty.filter Record.isKeyed ≠ [] := by decide +kernel
  intro settings service server
  obtain ⟨hlines, hrows⟩ := transacts_stores .plain settings service ⟨⟨(), []⟩, {}⟩ {} server
    ⟨(), [], .into ""⟩ Record.faulty
  have hposts := hlines.postsOnce hsome []
  dsimp only at hposts ⊢
  refine ⟨hposts fun body status location h => ?_, by decide +kernel, by decide +kernel, hrows rfl⟩
  obtain ⟨-, rfl⟩ := Http.Answer.status.inj h
  rfl

end LinkQuality
