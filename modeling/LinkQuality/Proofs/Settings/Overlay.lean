import LinkQuality.Settings.Reading

/-!
# Settings are the defaults with what is written in their place

Every setting stands at a path of keys, such as `cache` and under it `capacity`. The settings that a
document describes are the defaults, each replaced by what is written where its path leads, if it
leads anywhere (`Settings.overlaid`). The readers of the parts know nothing of paths, and go by two
defaults for each setting: one that stands for its key where the part is written, and one that it
has in the part where this is left out as a whole. That they come to the same is to say that the two
agree, in every part (`Settings.read_eq_some_iff`). Nothing more is asked of the document than that
its parts are mappings in which no known key is given twice (`Outline.Fits`).

It follows that a part may as well be there without entries as be left out. This is shown for
entries that are put in one by one (`Yaml.Document.Inserts`), together with those whose key means
nothing where it stands, however deep that is: neither makes a difference to what is read, nor to
whether anything is.
-/

namespace LinkQuality

open Yaml (Node Document)

variable {α : Type} {d : Document} {n n' v : Node} {name : String} {path : List String}
  {es es' : List (String × Node)} {read : Document → Node → Option α} {absent x : α}

/-! ## What stands at a path -/

namespace Yaml.Document

/-- The node under a key of a mapping. -/
def under? (d : Document) (name : String) (n : Node) : Option Node :=
  (d.entries? n).bind (·.lookup name)

/-- **What stands at a path of keys**, from a node on. -/
def at? (d : Document) : List String → Node → Option Node
  | [], n => some n
  | name :: path, n => (d.under? name n).bind (d.at? path)

/-- **The value of a setting** of a part that may be left out: what is written under its key, or the
default where nothing is. -/
def written (d : Document) (n? : Option Node) (name : String)
    (read : Document → Node → Option α) (default : α) : Option α :=
  match n?.bind (d.under? name) with
  | some v => read d v
  | none => some default

theorem at?_singleton : d.at? [name] n = d.under? name n := Option.bind_fun_some _

theorem at?_cons : d.at? (name :: path) n = (d.under? name n).bind (d.at? path) := rfl

/-- Looking a key up finds the first of its entries. -/
theorem lookup_eq_head? (name : String) (es : List (String × Node)) :
    es.lookup name = (es.filter (·.1 = name)).head?.map Prod.snd := by
  induction es with
  | nil => rfl
  | cons e es ih =>
    rw [List.lookup_cons, List.filter_cons]
    by_cases h : e.1 = name
    · simp [h]
    · rw [beq_eq_false_iff_ne.mpr (Ne.symm h), ih, if_neg (by simpa using h)]

/-- A key that stands for something is left out, or given once what can be read. -/
theorem given_eq_some_iff : d.given es name read absent = some x ↔
    es.filter (·.1 = name) = [] ∧ absent = x ∨
      ∃ v, es.filter (·.1 = name) = [(name, v)] ∧ read d v = some x := by
  rw [given]
  split
  next h => simp [h]
  next key v h =>
    have hkey : key = name := by
      have hmem : (key, v) ∈ es.filter (·.1 = name) := h ▸ List.mem_singleton_self _
      simpa using (List.mem_filter.mp hmem).2
    simp [h, hkey]
  next hnil hone =>
    refine ⟨fun h => (by cases h), ?_⟩
    rintro (⟨h, -⟩ | ⟨v, h, -⟩)
    · exact absurd h hnil
    · exact absurd h (hone _ _)

theorem length_filter_of_given (h : d.given es name read absent = some x) :
    (es.filter (·.1 = name)).length ≤ 1 := by
  rcases given_eq_some_iff.mp h with ⟨hnil, -⟩ | ⟨v, hone, -⟩
  · rw [hnil]
    exact Nat.zero_le 1
  · rw [hone]
    exact Nat.le_refl 1

theorem read_of_given (hn : d.entries? n = some es) (h : d.given es name read absent = some x)
    (hv : d.under? name n = some v) : read d v = some x := by
  rw [under?, hn, Option.bind_some, lookup_eq_head?] at hv
  rcases given_eq_some_iff.mp h with ⟨hnil, -⟩ | ⟨v', hone, hread⟩
  · rw [hnil] at hv
    cases hv
  · rw [hone] at hv
    exact Option.some.inj hv ▸ hread

/-- **A key that is not given twice** stands for what is written under it, or for `absent` where
nothing is. -/
theorem given_eq_written (hn : d.entries? n = some es) (h : (es.filter (·.1 = name)).length ≤ 1) :
    d.given es name read absent = d.written (some n) name read absent := by
  rw [given, written, Option.bind_some, under?, hn, Option.bind_some, lookup_eq_head?]
  split
  next hnil => rw [hnil]; rfl
  next key v hone => rw [hone]; rfl
  next hnil hone =>
    obtain ⟨e, he⟩ := List.length_eq_one_iff.mp
      (Nat.le_antisymm h (List.length_pos_iff.mpr hnil))
    exact absurd he (hone e.1 e.2)

end Yaml.Document

open Yaml.Document (length_filter_of_given read_of_given)

/-! ## The keys that mean something -/

/-- **The keys that mean something**, as they stand under each other. -/
inductive Outline where
  | setting
  | part (keys : List (String × Outline))

/-- What a path of keys leads to, if each of them means something. What is written for a setting is
its own. -/
def Outline.find? : List String → Outline → Option Outline
  | [], o => some o
  | _ :: _, .setting => some .setting
  | name :: path, .part keys => (keys.lookup name).bind (find? path)

def CacheSettings.outline : Outline := .part
  [("capacity", .setting), ("sweep_interval", .setting), ("persist_aggregates", .setting)]

def WriterSettings.outline : Outline := .part
  [("queue_capacity", .setting), ("batch_size", .setting), ("flush_interval", .setting),
    ("max_attempts", .setting), ("retry_base_delay", .setting), ("retry_multiplier", .setting),
    ("max_retry_delay", .setting), ("transaction_timeout", .setting)]

def ClickHouseSettings.outline : Outline := .part
  [("enabled", .setting), ("endpoint", .setting), ("database", .setting), ("table", .setting),
    ("username", .setting), ("password", .setting)]

def HttpSettings.outline : Outline := .part
  [("enabled", .setting), ("address", .setting), ("headers", .setting), ("compression", .setting),
    ("timeout", .setting), ("keep_alive", .setting)]

def SinkSettings.outline : Outline := .part
  [("clickhouse", ClickHouseSettings.outline), ("http", HttpSettings.outline)]

def Settings.healthOutline : Outline := .part [("addr", .setting)]

/-- **The keys that mean something in settings.** -/
def Settings.outline : Outline := .part
  [("log_level", .setting), ("cache", CacheSettings.outline), ("writer", WriterSettings.outline),
    ("sink", SinkSettings.outline), ("health", Settings.healthOutline)]

namespace Outline

variable {keys : List (String × Outline)} {o : Outline}

/-- **What can be read by an outline**: a mapping where a part is to stand, in which no known key is
given twice, and under each of them what can be read so in its turn. -/
inductive Fits (d : Document) : Outline → Node → Prop where
  | setting {n : Node} : Fits d .setting n
  | part {keys : List (String × Outline)} {n : Node} {es : List (String × Node)} :
      d.entries? n = some es → (∀ k ∈ keys, (es.filter (·.1 = k.1)).length ≤ 1) →
        (∀ k ∈ keys, ∀ m, d.under? k.1 n = some m → Fits d k.2 m) → Fits d (.part keys) n

theorem mem_of_lookup (h : keys.lookup name = some o) : (name, o) ∈ keys := by
  induction keys with
  | nil => cases h
  | cons k keys ih =>
    rw [List.lookup_cons] at h
    split at h
    next hk =>
      obtain rfl := Option.some.inj h
      rw [beq_iff_eq.mp hk]
      exact List.mem_cons_self
    next => exact List.mem_cons_of_mem _ (ih h)

/-- Every known key stands for what is written under it. -/
theorem Fits.given_eq (h : (Outline.part keys).Fits d n) : ∃ es, d.entries? n = some es ∧
    ∀ {α : Type} {name : String} {o : Outline} {read : Document → Node → Option α} {absent : α},
      keys.lookup name = some o →
        d.given es name read absent = d.written (some n) name read absent := by
  cases h with
  | part hn hone _ =>
    exact ⟨_, hn, fun ho => Document.given_eq_written hn (hone _ (mem_of_lookup ho))⟩

theorem Fits.of_under? (h : (Outline.part keys).Fits d n) (ho : keys.lookup name = some o)
    (hm : d.under? name n = some v) : o.Fits d v := by
  cases h with
  | part _ _ hunder => exact hunder _ (mem_of_lookup ho) v hm

/-- Where there are only settings, nothing more is asked than that none is given twice. -/
theorem fits_of_settings (hn : d.entries? n = some es)
    (hone : ∀ k ∈ keys, (es.filter (·.1 = k.1)).length ≤ 1) (hkeys : ∀ k ∈ keys, k.2 = setting) :
    (part keys).Fits d n :=
  .part hn hone fun k hk _ _ => hkeys k hk ▸ .setting

end Outline

/-! ## The defaults, overlaid -/

/-- The settings of a cache with what is written in their place. -/
def CacheSettings.overlaid (s : CacheSettings) (d : Document) (n? : Option Node) :
    Option CacheSettings := do
  return {
    capacity := ← d.written n? "capacity" (·.nat? UInt64.size) s.capacity
    sweepInterval := ← d.written n? "sweep_interval" (·.span?) s.sweepInterval
    persistAggregates := ← d.written n? "persist_aggregates" (·.bool?) s.persistAggregates }

/-- The settings of a writer with what is written in their place. -/
def WriterSettings.overlaid (s : WriterSettings) (d : Document) (n? : Option Node) :
    Option WriterSettings := do
  return {
    queueCapacity := ← d.written n? "queue_capacity" (·.nat? UInt64.size) s.queueCapacity
    batchSize := ← d.written n? "batch_size" (·.nat? UInt64.size) s.batchSize
    flushInterval := ← d.written n? "flush_interval" (·.span?) s.flushInterval
    maxAttempts := ← d.written n? "max_attempts" (·.nat? UInt32.size) s.maxAttempts
    retryBaseDelay := ← d.written n? "retry_base_delay" (·.span?) s.retryBaseDelay
    retryMultiplier := ← d.written n? "retry_multiplier" (·.float?) s.retryMultiplier
    maxRetryDelay := ← d.written n? "max_retry_delay" (·.span?) s.maxRetryDelay
    transactionTimeout := ← d.written n? "transaction_timeout" (·.span?) s.transactionTimeout }

/-- The settings of a ClickHouse server with what is written in their place. -/
def ClickHouseSettings.overlaid (s : ClickHouseSettings) (d : Document) (n? : Option Node) :
    Option ClickHouseSettings := do
  return {
    enabled := ← d.written n? "enabled" (·.bool?) s.enabled
    endpoint := ← d.written n? "endpoint" (·.text?) s.endpoint
    database := ← d.written n? "database" (·.text?) s.database
    table := ← d.written n? "table" (·.text?) s.table
    username := ← d.written n? "username" (·.text?) s.username
    password := ← d.written n? "password" (·.text?) s.password }

/-- The settings of an HTTP service with what is written in their place. -/
def HttpSettings.overlaid (s : HttpSettings) (d : Document) (n? : Option Node) :
    Option HttpSettings := do
  return {
    enabled := ← d.written n? "enabled" (·.bool?) s.enabled
    address := ← d.written n? "address" (·.text?) s.address
    headers := ← d.written n? "headers" readHeaders s.headers
    compression := ← d.written n? "compression" (·.text?) s.compression
    timeout := ← d.written n? "timeout" (·.span?) s.timeout
    keepAlive := ← d.written n? "keep_alive" (·.bool?) s.keepAlive }

/-- The choice of the store with what is written in its place. -/
def SinkSettings.overlaid (s : SinkSettings) (d : Document) (n? : Option Node) :
    Option SinkSettings := do
  return {
    clickHouse := ← s.clickHouse.overlaid d (n?.bind (d.under? "clickhouse"))
    http := ← s.http.overlaid d (n?.bind (d.under? "http")) }

/-- **Settings with what is written in their place**, each at its own path. There is nothing if one
of those that are written cannot be read. -/
def Settings.overlaid (s : Settings) (d : Document) (n : Node) : Option Settings := do
  return {
    logLevel := ← d.written (some n) "log_level" (·.text?) s.logLevel
    cache := ← s.cache.overlaid d (d.under? "cache" n)
    writer := ← s.writer.overlaid d (d.under? "writer" n)
    sink := ← s.sink.overlaid d (d.under? "sink" n)
    healthAddress := ← d.written (d.under? "health" n) "addr" (·.text?) s.healthAddress }

/-- **A part is overlaid as a whole.** It may be left out, and then nothing of it is written. -/
theorem written_part {part : Document → Node → Option α} (overlay : Option Node → Option α)
    (hsome : ∀ v, d.under? name n = some v → part d v = overlay (some v))
    (hnone : overlay none = some absent) :
    d.written (some n) name part absent = overlay (d.under? name n) := by
  rw [Document.written, Option.bind_some]
  cases hentry : d.under? name n with
  | none => exact hnone.symm
  | some v => exact hsome v hentry

theorem CacheSettings.read_eq_overlaid (h : outline.Fits d n) :
    CacheSettings.read d n = CacheSettings.overlaid {} d (some n) := by
  obtain ⟨es, hn, hgiven⟩ := h.given_eq
  simp only [CacheSettings.read, hn, Option.bind_eq_bind, Option.bind_some]
  rw [hgiven rfl, hgiven rfl, hgiven rfl]
  rfl

theorem CacheSettings.fits_of_read {s : CacheSettings} (h : CacheSettings.read d n = some s) :
    outline.Fits d n := by
  simp only [CacheSettings.read, Option.bind_eq_bind, Option.bind_eq_some_iff, Option.pure_def,
    Option.some.injEq] at h
  obtain ⟨es, hn, _, hcapacity, _, hinterval, _, hpersist, -⟩ := h
  refine Outline.fits_of_settings hn ?_ (by simp)
  simp [length_filter_of_given hcapacity, length_filter_of_given hinterval,
    length_filter_of_given hpersist]

theorem WriterSettings.read_eq_overlaid (h : outline.Fits d n) :
    WriterSettings.read d n = WriterSettings.overlaid {} d (some n) := by
  obtain ⟨es, hn, hgiven⟩ := h.given_eq
  simp only [WriterSettings.read, hn, Option.bind_eq_bind, Option.bind_some]
  rw [hgiven rfl, hgiven rfl, hgiven rfl, hgiven rfl, hgiven rfl, hgiven rfl, hgiven rfl,
    hgiven rfl]
  rfl

theorem WriterSettings.fits_of_read {s : WriterSettings} (h : WriterSettings.read d n = some s) :
    outline.Fits d n := by
  simp only [WriterSettings.read, Option.bind_eq_bind, Option.bind_eq_some_iff, Option.pure_def,
    Option.some.injEq] at h
  obtain ⟨es, hn, _, hqueue, _, hbatch, _, hflush, _, hattempts, _, hbase, _, hmultiplier, _,
    hlongest, _, htimeout, -⟩ := h
  refine Outline.fits_of_settings hn ?_ (by simp)
  simp [length_filter_of_given hqueue, length_filter_of_given hbatch, length_filter_of_given hflush,
    length_filter_of_given hattempts, length_filter_of_given hbase,
    length_filter_of_given hmultiplier, length_filter_of_given hlongest,
    length_filter_of_given htimeout]

theorem ClickHouseSettings.read_eq_overlaid (h : outline.Fits d n) :
    ClickHouseSettings.read d n = ClickHouseSettings.overlaid {} d (some n) := by
  obtain ⟨es, hn, hgiven⟩ := h.given_eq
  simp only [ClickHouseSettings.read, hn, Option.bind_eq_bind, Option.bind_some]
  rw [hgiven rfl, hgiven rfl, hgiven rfl, hgiven rfl, hgiven rfl, hgiven rfl]
  rfl

theorem ClickHouseSettings.fits_of_read {s : ClickHouseSettings}
    (h : ClickHouseSettings.read d n = some s) : outline.Fits d n := by
  simp only [ClickHouseSettings.read, Option.bind_eq_bind, Option.bind_eq_some_iff, Option.pure_def,
    Option.some.injEq] at h
  obtain ⟨es, hn, _, henabled, _, hendpoint, _, hdatabase, _, htable, _, husername, _, hpassword,
    -⟩ := h
  refine Outline.fits_of_settings hn ?_ (by simp)
  simp [length_filter_of_given henabled, length_filter_of_given hendpoint,
    length_filter_of_given hdatabase, length_filter_of_given htable,
    length_filter_of_given husername, length_filter_of_given hpassword]

theorem HttpSettings.read_eq_overlaid (h : outline.Fits d n) :
    HttpSettings.read d n = HttpSettings.overlaid {} d (some n) := by
  obtain ⟨es, hn, hgiven⟩ := h.given_eq
  simp only [HttpSettings.read, hn, Option.bind_eq_bind, Option.bind_some]
  rw [hgiven rfl, hgiven rfl, hgiven rfl, hgiven rfl, hgiven rfl, hgiven rfl]
  rfl

theorem HttpSettings.fits_of_read {s : HttpSettings} (h : HttpSettings.read d n = some s) :
    outline.Fits d n := by
  simp only [HttpSettings.read, Option.bind_eq_bind, Option.bind_eq_some_iff, Option.pure_def,
    Option.some.injEq] at h
  obtain ⟨es, hn, _, henabled, _, haddress, _, hheaders, _, hcompression, _, htimeout, _,
    hkeepAlive, -⟩ := h
  refine Outline.fits_of_settings hn ?_ (by simp)
  simp [length_filter_of_given henabled, length_filter_of_given haddress,
    length_filter_of_given hheaders, length_filter_of_given hcompression,
    length_filter_of_given htimeout, length_filter_of_given hkeepAlive]

theorem SinkSettings.read_eq_overlaid (h : outline.Fits d n) :
    SinkSettings.read d n = SinkSettings.overlaid {} d (some n) := by
  obtain ⟨es, hn, hgiven⟩ := h.given_eq
  simp only [SinkSettings.read, hn, Option.bind_eq_bind, Option.bind_some]
  rw [hgiven rfl, hgiven rfl,
    written_part (ClickHouseSettings.overlaid {} d)
      (fun v hv => ClickHouseSettings.read_eq_overlaid (h.of_under? rfl hv)) rfl,
    written_part (HttpSettings.overlaid {} d)
      (fun v hv => HttpSettings.read_eq_overlaid (h.of_under? rfl hv)) rfl]
  rfl

theorem SinkSettings.fits_of_read {s : SinkSettings} (h : SinkSettings.read d n = some s) :
    outline.Fits d n := by
  simp only [SinkSettings.read, Option.bind_eq_bind, Option.bind_eq_some_iff, Option.pure_def,
    Option.some.injEq] at h
  obtain ⟨es, hn, _, hclickHouse, _, hhttp, -⟩ := h
  refine .part hn (by simp [length_filter_of_given hclickHouse, length_filter_of_given hhttp]) ?_
  simp only [List.forall_mem_cons]
  refine ⟨fun m hm => ?_, fun m hm => ?_, by simp⟩
  · exact ClickHouseSettings.fits_of_read (read_of_given hn hclickHouse hm)
  · exact HttpSettings.fits_of_read (read_of_given hn hhttp hm)

theorem Settings.readHealth_eq_written (h : healthOutline.Fits d n) :
    Settings.readHealth d n = d.written (some n) "addr" (·.text?) ":9090" := by
  obtain ⟨es, hn, hgiven⟩ := h.given_eq
  simp only [Settings.readHealth, hn, Option.bind_eq_bind, Option.bind_some]
  exact hgiven rfl

theorem Settings.fits_of_readHealth {address : String}
    (h : Settings.readHealth d n = some address) : healthOutline.Fits d n := by
  simp only [Settings.readHealth, Option.bind_eq_bind, Option.bind_eq_some_iff] at h
  obtain ⟨es, hn, haddress⟩ := h
  exact Outline.fits_of_settings hn (by simp [length_filter_of_given haddress]) (by simp)

theorem Settings.read_eq_overlaid (h : outline.Fits d n) :
    Settings.read d n = Settings.overlaid {} d n := by
  obtain ⟨es, hn, hgiven⟩ := h.given_eq
  simp only [Settings.read, hn, Option.bind_eq_bind, Option.bind_some]
  rw [hgiven rfl, hgiven rfl, hgiven rfl, hgiven rfl, hgiven rfl,
    written_part (CacheSettings.overlaid {} d)
      (fun v hv => CacheSettings.read_eq_overlaid (h.of_under? rfl hv)) rfl,
    written_part (WriterSettings.overlaid {} d)
      (fun v hv => WriterSettings.read_eq_overlaid (h.of_under? rfl hv)) rfl,
    written_part (SinkSettings.overlaid {} d)
      (fun v hv => SinkSettings.read_eq_overlaid (h.of_under? rfl hv)) rfl,
    written_part (fun n? => d.written n? "addr" (·.text?) ":9090")
      (fun v hv => Settings.readHealth_eq_written (h.of_under? rfl hv)) rfl]
  rfl

theorem Settings.fits_of_read {s : Settings} (h : Settings.read d n = some s) :
    outline.Fits d n := by
  simp only [Settings.read, Option.bind_eq_bind, Option.bind_eq_some_iff, Option.pure_def,
    Option.some.injEq] at h
  obtain ⟨es, hn, _, hlevel, _, hcache, _, hwriter, _, hsink, _, hhealth, -⟩ := h
  refine .part hn (by simp [length_filter_of_given hlevel, length_filter_of_given hcache,
    length_filter_of_given hwriter, length_filter_of_given hsink,
    length_filter_of_given hhealth]) ?_
  simp only [List.forall_mem_cons]
  refine ⟨fun m hm => .setting, fun m hm => ?_, fun m hm => ?_, fun m hm => ?_, fun m hm => ?_,
    by simp⟩
  · exact CacheSettings.fits_of_read (read_of_given hn hcache hm)
  · exact WriterSettings.fits_of_read (read_of_given hn hwriter hm)
  · exact SinkSettings.fits_of_read (read_of_given hn hsink hm)
  · exact Settings.fits_of_readHealth (read_of_given hn hhealth hm)

/-- **What is read are the defaults with what is written in their place**, where each of it can be
read and no known key is given twice; and nothing is read elsewhere. -/
theorem Settings.read_eq_some_iff {s : Settings} : Settings.read d n = some s ↔
    outline.Fits d n ∧ Settings.overlaid {} d n = some s := by
  constructor
  · intro h
    have hfits := fits_of_read h
    exact ⟨hfits, read_eq_overlaid hfits ▸ h⟩
  · rintro ⟨hfits, hoverlaid⟩
    exact (read_eq_overlaid hfits).trans hoverlaid

/-! ## Entries that mean nothing -/

namespace Yaml.Document

/-- **A mapping with one more entry**: `n'` has all that `n` has, and `v` at a path, where only the
last key is new. -/
inductive Inserts (d : Document) (v : Node) : List String → Node → Node → Prop where
  | here {n n' : Node} {name : String} (before after : List (String × Node)) :
      d.entries? n = some (before ++ after) → d.entries? n' = some (before ++ (name, v) :: after) →
      d.Inserts v [name] n n'
  | under {n n' m m' : Node} {name : String} {path : List String}
      (before after : List (String × Node)) :
      d.entries? n = some (before ++ (name, m) :: after) →
      d.entries? n' = some (before ++ (name, m') :: after) → d.Inserts v path m m' →
      d.Inserts v (name :: path) n n'

/-- **An entry that means nothing** at its path: no key is known that would be, or it is that of a
part that is not there, and holds nothing itself. -/
def Meaningless (d : Document) (o : Outline) (v : Node) (path : List String) (n : Node) : Prop :=
  match o.find? path with
  | none => True
  | some .setting => False
  | some (.part _) => d.at? path n = none ∧ d.entries? v = some []

end Yaml.Document

open Yaml.Document (Inserts Meaningless)

/-- **A reader that goes by an outline**: it takes no notice of entries that mean nothing. Where it
reads a part and there are none at all, it finds the settings the part has when it is left out. -/
structure Outline.Guides (o : Outline) (read : Document → Node → Option α) (absent : α) : Prop where
  read_inserts : ∀ {d v path n n'}, d.Inserts v path n n' → d.Meaningless o v path n →
    read d n' = read d n
  read_empty : ∀ {keys d n}, o = .part keys → d.entries? n = some [] → read d n = some absent

namespace Outline

variable {keys : List (String × Outline)} {o : Outline} {m m' : Node}
  {before after : List (String × Node)}

/-- What is written for a setting means something, all of it. -/
theorem not_meaningless_setting : ¬ d.Meaningless setting v path n := by
  cases path <;> exact id

theorem guides_setting : setting.Guides read absent where
  read_inserts _ hnothing := absurd hnothing not_meaningless_setting
  read_empty h := by cases h

/-- An entry means nothing in a part, if it means nothing in the part of this that it is put in. -/
theorem meaningless_of_cons (h : d.Meaningless (part keys) v (name :: path) n)
    (ho : keys.lookup name = some o) (hentry : d.under? name n = some m) :
    d.Meaningless o v path m := by
  have hfind : (part keys).find? (name :: path) = o.find? path := by
    rw [find?, ho, Option.bind_some]
  have hat : d.at? (name :: path) n = d.at? path m := by
    rw [Yaml.Document.at?_cons, hentry, Option.bind_some]
  rw [Meaningless, hfind, hat] at h
  exact h

/-- What a key stands for is told by the entries under it. -/
theorem given_congr (h : es.filter (·.1 = name) = es'.filter (·.1 = name)) :
    d.given es name read absent = d.given es' name read absent := by
  rw [Document.given, h, Document.given]

/-- A new entry under a known key, if it means nothing, is the only one there, and is read as what
the key stands for without it. -/
theorem given_of_inserts_here (hnothing : d.Meaningless (part keys) v [name] n)
    (hn : d.entries? n = some (before ++ after)) (ho : keys.lookup name = some o)
    (hguides : o.Guides read absent) :
    d.given (before ++ (name, v) :: after) name read absent =
      d.given (before ++ after) name read absent := by
  rw [Meaningless, find?, ho, Option.bind_some, find?] at hnothing
  cases o with
  | setting => exact hnothing.elim
  | part keys' =>
    obtain ⟨hat, hempty⟩ := hnothing
    have hnil : (before ++ after).filter (·.1 = name) = [] := by
      rw [Yaml.Document.at?_singleton, Document.under?, hn, Option.bind_some,
        Yaml.Document.lookup_eq_head?, Option.map_eq_none_iff, List.head?_eq_none_iff] at hat
      exact hat
    have hone : (before ++ (name, v) :: after).filter (·.1 = name) = [(name, v)] := by
      rw [List.filter_append, List.append_eq_nil_iff] at hnil
      rw [List.filter_append, hnil.1, List.nil_append, List.filter_cons_of_pos (by simp), hnil.2]
    rw [Document.given, hone, Document.given, hnil]
    exact hguides.read_empty rfl hempty

/-- An entry that is put in further down means nothing to the reader of the part it is put in, if
that is the only one under its key. -/
theorem given_of_inserts_under (hnothing : d.Meaningless (part keys) v (name :: path) n)
    (hn : d.entries? n = some (before ++ (name, m) :: after)) (hin : d.Inserts v path m m')
    (ho : keys.lookup name = some o) (hguides : o.Guides read absent) :
    d.given (before ++ (name, m') :: after) name read absent =
      d.given (before ++ (name, m) :: after) name read absent := by
  have hfilter (m : Node) : (before ++ (name, m) :: after).filter (·.1 = name) =
      before.filter (·.1 = name) ++ (name, m) :: after.filter (·.1 = name) := by
    rw [List.filter_append, List.filter_cons_of_pos (by simp)]
  rw [Document.given, Document.given, hfilter, hfilter]
  cases hbefore : before.filter (·.1 = name) with
  | nil =>
    cases hafter : after.filter (·.1 = name) with
    | nil =>
      have hentry : d.under? name n = some m := by
        rw [Document.under?, hn, Option.bind_some, Yaml.Document.lookup_eq_head?, hfilter, hbefore]
        rfl
      exact hguides.read_inserts hin (meaningless_of_cons hnothing ho hentry)
    | cons e rest => rfl
  | cons e rest =>
    -- there are two entries under the key, with the one as with the other
    cases rest <;> rfl

/-- **What a known key stands for is not changed by an entry that means nothing**, wherever that
is put in. -/
theorem given_of_inserts (h : d.Inserts v path n n')
    (hnothing : d.Meaningless (part keys) v path n) :
    ∃ es es', d.entries? n = some es ∧ d.entries? n' = some es' ∧
      ∀ {α : Type} {name : String} {o : Outline} {read : Document → Node → Option α} {absent : α},
        keys.lookup name = some o → o.Guides read absent →
          d.given es' name read absent = d.given es name read absent := by
  cases h with
  | @here n n' key before after hn hn' =>
    refine ⟨_, _, hn, hn', fun {α name o read absent} ho hguides => ?_⟩
    by_cases hkey : key = name
    · subst hkey
      exact given_of_inserts_here hnothing hn ho hguides
    · exact given_congr (by simp [hkey])
  | @under n n' m m' key path before after hn hn' hin =>
    refine ⟨_, _, hn, hn', fun {α name o read absent} ho hguides => ?_⟩
    by_cases hkey : key = name
    · subst hkey
      exact given_of_inserts_under hnothing hn hin ho hguides
    · exact given_congr (by simp [hkey])

/-- Settings in particular, whatever they are read as. -/
theorem settings_of_inserts (h : d.Inserts v path n n')
    (hnothing : d.Meaningless (part keys) v path n) :
    ∃ es es', d.entries? n = some es ∧ d.entries? n' = some es' ∧
      ∀ {α : Type} {name : String} {read : Document → Node → Option α} {absent : α},
        keys.lookup name = some setting →
          d.given es' name read absent = d.given es name read absent := by
  obtain ⟨es, es', hn, hn', hgiven⟩ := given_of_inserts h hnothing
  exact ⟨es, es', hn, hn', fun ho => hgiven ho guides_setting⟩

end Outline

open Outline (settings_of_inserts given_of_inserts)

theorem CacheSettings.guides_outline : outline.Guides CacheSettings.read {} where
  read_inserts h hnothing := by
    obtain ⟨es, es', hn, hn', hgiven⟩ := settings_of_inserts h hnothing
    simp only [CacheSettings.read, hn, hn', Option.bind_eq_bind, Option.bind_some]
    rw [hgiven rfl, hgiven rfl, hgiven rfl]
  read_empty _ h := by
    simp only [CacheSettings.read, h]
    rfl

theorem WriterSettings.guides_outline : outline.Guides WriterSettings.read {} where
  read_inserts h hnothing := by
    obtain ⟨es, es', hn, hn', hgiven⟩ := settings_of_inserts h hnothing
    simp only [WriterSettings.read, hn, hn', Option.bind_eq_bind, Option.bind_some]
    rw [hgiven rfl, hgiven rfl, hgiven rfl, hgiven rfl, hgiven rfl, hgiven rfl, hgiven rfl,
      hgiven rfl]
  read_empty _ h := by
    simp only [WriterSettings.read, h]
    rfl

theorem ClickHouseSettings.guides_outline : outline.Guides ClickHouseSettings.read {} where
  read_inserts h hnothing := by
    obtain ⟨es, es', hn, hn', hgiven⟩ := settings_of_inserts h hnothing
    simp only [ClickHouseSettings.read, hn, hn', Option.bind_eq_bind, Option.bind_some]
    rw [hgiven rfl, hgiven rfl, hgiven rfl, hgiven rfl, hgiven rfl, hgiven rfl]
  read_empty _ h := by
    simp only [ClickHouseSettings.read, h]
    rfl

theorem HttpSettings.guides_outline : outline.Guides HttpSettings.read {} where
  read_inserts h hnothing := by
    obtain ⟨es, es', hn, hn', hgiven⟩ := settings_of_inserts h hnothing
    simp only [HttpSettings.read, hn, hn', Option.bind_eq_bind, Option.bind_some]
    rw [hgiven rfl, hgiven rfl, hgiven rfl, hgiven rfl, hgiven rfl, hgiven rfl]
  read_empty _ h := by
    simp only [HttpSettings.read, h]
    rfl

theorem SinkSettings.guides_outline : outline.Guides SinkSettings.read {} where
  read_inserts h hnothing := by
    obtain ⟨es, es', hn, hn', hgiven⟩ := given_of_inserts h hnothing
    simp only [SinkSettings.read, hn, hn', Option.bind_eq_bind, Option.bind_some]
    rw [hgiven rfl ClickHouseSettings.guides_outline, hgiven rfl HttpSettings.guides_outline]
  read_empty _ h := by
    simp only [SinkSettings.read, h]
    rfl

theorem Settings.guides_healthOutline :
    healthOutline.Guides Settings.readHealth (Settings.healthAddress {}) where
  read_inserts h hnothing := by
    obtain ⟨es, es', hn, hn', hgiven⟩ := settings_of_inserts h hnothing
    simp only [Settings.readHealth, hn, hn', Option.bind_eq_bind, Option.bind_some]
    rw [hgiven rfl]
  read_empty _ h := by
    simp only [Settings.readHealth, h]
    rfl

/-- **The readers of all parts go by the outline of the settings.** -/
theorem Settings.guides_outline : outline.Guides Settings.read {} where
  read_inserts h hnothing := by
    obtain ⟨es, es', hn, hn', hgiven⟩ := given_of_inserts h hnothing
    simp only [Settings.read, hn, hn', Option.bind_eq_bind, Option.bind_some]
    rw [hgiven rfl Outline.guides_setting, hgiven rfl CacheSettings.guides_outline,
      hgiven rfl WriterSettings.guides_outline, hgiven rfl SinkSettings.guides_outline,
      hgiven rfl Settings.guides_healthOutline]
  read_empty _ h := by
    simp only [Settings.read, h]
    rfl

/-! ## Settings and what is written -/

/-- **Settings are the defaults with what is written in their place.** Whenever a text describes
settings, these are the defaults with what its document has at their paths; and it does, whenever no
known key is given twice and all that is written can be read. An entry whose key means nothing, at
any depth, is as good as none; so is one for a part that is not there otherwise, if it holds
nothing. -/
theorem Settings.read?_overlays_defaults :
    (∀ {text : List Char} {s : Settings}, Settings.read? text = some s ↔
      ∃ d, (Document.ofText text).map (·.getD (.ofRoot .absent)) = some d ∧
        outline.Fits d d.root ∧ Settings.overlaid {} d d.root = some s) ∧
    (∀ {d : Document} {v n n' : Node} {path : List String}, d.Inserts v path n n' →
      outline.find? path = none → Settings.read d n' = Settings.read d n) ∧
    ∀ {d : Document} {v n n' : Node} {path : List String} {keys : List (String × Outline)},
      d.Inserts v path n n' → outline.find? path = some (.part keys) → d.at? path n = none →
        d.entries? v = some [] → Settings.read d n' = Settings.read d n := by
  refine ⟨fun {text s} => ?_, fun {d v n n' path} hin hnone => ?_,
    fun {d v n n' path keys} hin hpart hat hempty => ?_⟩
  · simp only [Settings.read?, Option.bind_eq_bind, Option.bind_eq_some_iff,
      Option.map_eq_some_iff, ← read_eq_some_iff]
    exact ⟨fun ⟨d?, htext, hread⟩ => ⟨_, ⟨d?, htext, rfl⟩, hread⟩,
      fun ⟨_, ⟨d?, htext, hd⟩, hread⟩ => ⟨d?, htext, hd ▸ hread⟩⟩
  · have hnothing : d.Meaningless outline v path n := by
      rw [Meaningless, hnone]
      trivial
    exact guides_outline.read_inserts hin hnothing
  · have hnothing : d.Meaningless outline v path n := by
      rw [Meaningless, hpart]
      exact ⟨hat, hempty⟩
    exact guides_outline.read_inserts hin hnothing

/-- A cache with a capacity only, then also with a colour, and a store of which nothing is said. -/
theorem Settings.read?_overlays_capacity :
    let text := "cache:\n  capacity: 5\n".toList
    let key (name : String) : Node := .scalar { text := name.toList }
    let cache (entries : List (Node × Node)) : Node :=
      .mapping [(key "cache", .mapping ((key "capacity", key "5") :: entries))]
    let coloured : Node := cache [(key "colour", key "red")]
    let stored : Node := .mapping
      [(key "cache", .mapping [(key "capacity", key "5")]), (key "sink", .mapping [])]
    let d : Document := .ofRoot (cache [])
    (∃ s d, Settings.read? text = some s ∧
      (Document.ofText text).map (·.getD (.ofRoot .absent)) = some d ∧
      Settings.overlaid {} d d.root = some s ∧ s.cache.capacity = 5) ∧
    Settings.read d coloured = Settings.read d (cache []) ∧
    Settings.read d stored = Settings.read d (cache []) := by
  intro text key cache coloured stored d
  refine ⟨?_, ?_, ?_⟩
  · have hcapacity : (Settings.read? text).map (·.cache.capacity) = some 5 := by decide +kernel
    obtain ⟨s, hs, hfive⟩ := Option.map_eq_some_iff.mp hcapacity
    obtain ⟨d, htext, -, hoverlaid⟩ := Settings.read?_overlays_defaults.1.mp hs
    exact ⟨s, d, hs, htext, hoverlaid, hfive⟩
  · exact Settings.read?_overlays_defaults.2.1
      (.under [] [] rfl rfl (.here [("capacity", key "5")] [] rfl rfl)) rfl
  · exact Settings.read?_overlays_defaults.2.2 (.here [("cache", _)] [] rfl rfl) rfl rfl rfl

end LinkQuality
