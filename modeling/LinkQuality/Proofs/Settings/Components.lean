import LinkQuality.Network
import LinkQuality.Pipeline.Basic
import LinkQuality.Proofs.Settings.Check
import LinkQuality.Proofs.Store.Staging

/-!
# Components of accepted settings

What settings may be is said twice. The check refuses them as a whole; and whoever builds a
component from them looks after it once more, and raises a bound that is zero to one, an interval
to a millisecond, or refuses an HTTP service that has no address. Once the check has passed, the
second look finds nothing to do (`Pipeline.follows_ofSettings`, `HttpSettings.Sound.buildable`), but
for intervals: the check only asks that they are not zero, while timers go by milliseconds.

The choice of the store is made twice as well, since both stores can be described at the same time.
The check counts those that are enabled, while the store is built of a ClickHouse server whenever
that is enabled, and of the HTTP service otherwise. For accepted settings the two agree, and the
store that is built hands every request to the one that is enabled (`Store.Wraps`). What is said of
the other makes no difference, not even to settings that are refused
(`SinkSettings.check_congr_clickHouse`, `SinkSettings.check_congr_http`).
-/

namespace LinkQuality

/-! ## Bounds -/

/-- The interval of a timer: none is shorter than a millisecond. -/
def Span.timed (s : Span) : Span := if s < .ofMillis 1 then .ofMillis 1 else s

theorem Span.timed_eq_max (s : Span) : s.timed = ⟨max s.nanoseconds 1000000⟩ := by
  have hlt : s < .ofMillis 1 ↔ s.nanoseconds < 1000000 := Iff.rfl
  unfold timed
  split
  next h => rw [Nat.max_eq_right (Nat.le_of_lt (hlt.mp h))]; rfl
  next h => rw [Nat.max_eq_left (Nat.not_lt.mp (hlt.not.mp h))]

/-- **A pipeline that goes by its settings as they are**, but for intervals that are shorter than a
millisecond. -/
structure Pipeline.Follows {σ : Type} (p : Pipeline σ) (cache : CacheSettings)
    (writer : WriterSettings) : Prop where
  capacity_cache : p.cache.capacity = cache.capacity
  capacity_history : ∀ node, (p.cache.register node).2.capacity = cache.capacity
  interval_cache : p.cache.interval = cache.sweepInterval.timed
  persists : p.persists = cache.persistAggregates
  capacity_queue : p.writer.limits.capacity = writer.queueCapacity
  batchSize : p.writer.limits.batchSize = writer.batchSize
  interval_writer : p.writer.limits.interval = writer.flushInterval.timed
  timeout : p.writer.limits.timeout = writer.transactionTimeout
  backoff : p.writer.limits.backoff =
    ⟨writer.maxAttempts, writer.retryBaseDelay, writer.retryMultiplier, writer.maxRetryDelay⟩

/-- A history has the room it is asked for, if that is any. -/
theorem History.capacity_empty {capacity : Nat} (h : capacity ≠ 0) :
    (History.empty capacity).capacity = capacity := by
  rw [History.capacity, History.empty, Array.size_replicate]
  exact Nat.max_eq_left (Nat.one_le_iff_ne_zero.mpr h)

/-- The first history of a cache has the room the settings ask for. -/
theorem Cache.capacity_register {c : Cache} (hnodes : c.nodes = []) (h : c.capacity ≠ 0)
    (node : String) : (c.register node).2.capacity = c.capacity := by
  rw [Cache.register, hnodes]
  exact History.capacity_empty h

/-- **Settings that are accepted are kept to.** -/
theorem Pipeline.follows_ofSettings {σ : Type} {cache : CacheSettings} {writer : WriterSettings}
    (hcache : cache.Sound) (hwriter : writer.Sound) (store : Store σ) (state : σ) :
    (Pipeline.ofSettings cache writer store state).Follows cache writer := by
  have hone {n : Nat} (h : n ≠ 0) : max n 1 = n := Nat.max_eq_left (Nat.one_le_iff_ne_zero.mpr h)
  -- a hook of the cache changes none of its bounds
  have hbounds : (Pipeline.ofSettings cache writer store state).cache.capacity = cache.capacity ∧
      (Pipeline.ofSettings cache writer store state).cache.interval = cache.sweepInterval.timed ∧
      (Pipeline.ofSettings cache writer store state).cache.nodes = [] := by
    rw [Pipeline.ofSettings, Span.timed_eq_max]
    split <;> exact ⟨rfl, rfl, rfl⟩
  obtain ⟨hcapacity, hinterval, hnodes⟩ := hbounds
  exact
    { capacity_cache := hcapacity
      capacity_history := fun node =>
        (Cache.capacity_register hnodes (hcapacity ▸ hcache.capacity_ne) node).trans hcapacity
      interval_cache := hinterval
      persists := rfl
      capacity_queue := hone hwriter.queueCapacity_ne
      batchSize := hone hwriter.batchSize_ne
      interval_writer := (Span.timed_eq_max _).symm
      timeout := rfl
      backoff := congrArg (Backoff.mk · _ _ _) (hone hwriter.maxAttempts_ne) }

/-! ## The store -/

/-- Where one store is enabled the other is not. -/
theorem SinkSettings.Sound.http_enabled_eq {s : SinkSettings} (h : s.Sound) :
    s.http.enabled = !s.clickHouse.enabled :=
  Bool.eq_not.mpr h.enabled_ne.symm

/-- **A store that hands every request to another**, whose states it has among its own. -/
structure Store.Wraps {ω σ : Type} (outer : Store ω) (inner : Store σ) (into : σ → ω) : Prop where
  name_eq : outer.name = inner.name
  accept_eq : ∀ s request, outer.accept (into s) request =
    ((inner.accept s request).1, into (inner.accept s request).2)
  answer_eq : ∀ s request, outer.answer (into s) request =
    ((inner.answer s request).1, into (inner.answer s request).2)

/-- **An HTTP service that a store can be built of**: nothing is missing, and what it will be told
about a body is how that is packed. -/
structure HttpSettings.Buildable (s : HttpSettings) : Prop where
  checkStore : s.checkStore = .ok ()
  packing : ∃ packing, Compression.ofCoding? (Compression.coding s.compression) = some packing ∧
    ∀ content, Compression.pack s.compression content = .ok ⟨packing, content⟩

/-- A name that the check lets pass is the name of a packing. -/
theorem HttpSettings.exists_packing {name : String} (h : name ∈ compressions) :
    ∃ packing, Compression.ofName? name = some packing := by
  simp only [compressions, List.mem_cons, List.not_mem_nil, or_false] at h
  rcases h with rfl | rfl | rfl | rfl <;> exact ⟨_, rfl⟩

theorem HttpSettings.Sound.buildable {s : HttpSettings} (h : s.Sound) : s.Buildable := by
  obtain ⟨packing, hname⟩ := exists_packing h.compression_mem
  have hpack (content : List Char) :
      Compression.pack s.compression content = .ok ⟨packing, content⟩ :=
    Compression.pack_eq_ok_iff.mpr ⟨packing, hname, rfl⟩
  refine ⟨?_, packing, Compression.ofCoding?_coding hname, hpack⟩
  rw [checkStore, if_neg h.address_ne, hpack]
  rfl

section
variable {τ : Type} {s : SinkSettings} {n : Network τ} {state : τ}

/-- **The store is built of the HTTP service**, whatever the network is like. -/
def SinkSettings.BuildsHttp (s : SinkSettings) (n : Network τ) (state : τ) : Prop :=
  ∃ store : Store (Export τ), store.Wraps (HttpStore.store s.http n.service) .http ∧
    Export.build s n state = .ok (store, .http { exchange := { state } })

/-- **The store is built of the ClickHouse server**, if that answers. -/
def SinkSettings.BuildsClickHouse (s : SinkSettings) (n : Network τ) (state : τ) : Prop :=
  ∃ store : Store (Export τ),
    store.Wraps (ClickHouseStore.store s.clickHouse n.server) .clickHouse ∧
    Export.build s n state =
      match s.clickHouse.connect n.server state with
      | (.ok _, state) =>
        .ok (store, .clickHouse { state, staged := .into s.clickHouse.qualifiedTable })
      | (.error why, _) => .error (why.during "starting ClickHouse writer")

theorem SinkSettings.buildsHttp (hclickHouse : s.clickHouse.enabled = false)
    (hhttp : s.http.Buildable) : s.BuildsHttp n state := by
  refine ⟨Export.store s n, ⟨?_, fun _ _ => rfl, fun _ _ => rfl⟩, ?_⟩
  · simp [Export.store, hclickHouse, HttpStore.store]
  · simp [Export.build, hclickHouse, hhttp.checkStore]

theorem SinkSettings.buildsClickHouse (hclickHouse : s.clickHouse.enabled = true) :
    s.BuildsClickHouse n state := by
  refine ⟨Export.store s n, ⟨?_, fun _ _ => rfl, fun _ _ => rfl⟩, ?_⟩
  · simp [Export.store, hclickHouse, ClickHouseStore.store]
  · rw [Export.build, if_pos hclickHouse]
    split <;> simp_all

end

/-- Of a ClickHouse server that is not enabled nothing else is looked at. -/
theorem SinkSettings.check_congr_clickHouse {s : SinkSettings} {other : ClickHouseSettings}
    (hs : s.clickHouse.enabled = false) (hother : other.enabled = false) :
    { s with clickHouse := other }.check = s.check := by
  simp only [check, hs, hother]
  cases s.http.enabled <;> rfl

/-- Nor is it of an HTTP service. -/
theorem SinkSettings.check_congr_http {s : SinkSettings} {other : HttpSettings}
    (hs : s.http.enabled = false) (hother : other.enabled = false) :
    { s with http := other }.check = s.check := by
  simp only [check, hs, hother]
  cases s.clickHouse.enabled <;> rfl

/-! ## All components -/

/-- **What is accepted is enough for every component.** The pipeline goes by accepted settings as
they are, but for intervals shorter than a millisecond. Just one store is enabled, and that is the
one which is built; an HTTP service can be built, and is told how a body is packed. Whatever
settings are like, those of a store that is not enabled have no part in whether they are accepted,
nor in the fault that is reported. -/
theorem Settings.components_of_check :
    (∀ s : Settings, s.check = .ok () →
      (∀ {σ : Type} (store : Store σ) (state : σ),
        (Pipeline.ofSettings s.cache s.writer store state).Follows s.cache s.writer) ∧
      (∀ {τ : Type} (n : Network τ) (state : τ),
        s.sink.http.enabled = true ∧ s.sink.clickHouse.enabled = false ∧
            s.sink.BuildsHttp n state ∨
          s.sink.clickHouse.enabled = true ∧ s.sink.http.enabled = false ∧
            s.sink.BuildsClickHouse n state) ∧
      (s.sink.http.enabled = true → s.sink.http.Buildable)) ∧
    (∀ (s : Settings) (other : ClickHouseSettings), s.sink.clickHouse.enabled = false →
      other.enabled = false →
        { s with sink := { s.sink with clickHouse := other } }.check = s.check) ∧
    ∀ (s : Settings) (other : HttpSettings), s.sink.http.enabled = false →
      other.enabled = false → { s with sink := { s.sink with http := other } }.check = s.check := by
  refine ⟨fun s h => ?_, fun s other hs hother => ?_, fun s other hs hother => ?_⟩
  · obtain ⟨hcache, hwriter, hsink⟩ := Settings.check_eq_ok_iff.mp h
    refine ⟨Pipeline.follows_ofSettings hcache hwriter, fun n state => ?_,
      fun hhttp => (hsink.http hhttp).buildable⟩
    cases hclickHouse : s.sink.clickHouse.enabled with
    | false =>
      have hhttp : s.sink.http.enabled = true := by rw [hsink.http_enabled_eq, hclickHouse]; rfl
      exact .inl ⟨hhttp, rfl, SinkSettings.buildsHttp hclickHouse (hsink.http hhttp).buildable⟩
    | true =>
      have hhttp : s.sink.http.enabled = false := by rw [hsink.http_enabled_eq, hclickHouse]; rfl
      exact .inr ⟨rfl, hhttp, SinkSettings.buildsClickHouse hclickHouse⟩
  · rw [check, SinkSettings.check_congr_clickHouse hs hother, check]
  · rw [check, SinkSettings.check_congr_http hs hother, check]

/-- Settings with an HTTP service as the store, swept and written at the shortest intervals there
are, with and without a table for ClickHouse. -/
theorem Settings.components_of_check_shortest :
    let s : Settings :=
      { cache := { sweepInterval := ⟨1⟩ }
        writer := { flushInterval := ⟨1⟩ }
        sink :=
          { http := { enabled := true, address := "http://localhost/", compression := "zlib" } } }
    let p := Pipeline.ofSettings s.cache s.writer
      (Export.store s.sink Network.offline) (.http { exchange := { state := () } })
    s.check = .ok () ∧ p.Follows s.cache s.writer ∧ p.cache.interval = .ofMillis 1 ∧
      s.sink.BuildsHttp Network.offline () ∧ s.sink.http.Buildable ∧
      { s with sink := { s.sink with clickHouse := { table := "" } } }.check = .ok () := by
  intro s p
  have hcheck : s.check = .ok () := by simp only [s]; rfl
  obtain ⟨hfollows, hbuilds, hbuildable⟩ := Settings.components_of_check.1 s hcheck
  have hhttp : s.sink.BuildsHttp Network.offline () := by
    rcases hbuilds Network.offline () with ⟨-, -, h⟩ | ⟨h, -⟩
    · exact h
    · cases h
  exact ⟨hcheck, hfollows _ _, (hfollows _ _).interval_cache, hhttp, hbuildable rfl,
    (Settings.components_of_check.2.1 s { table := "" } rfl rfl).trans hcheck⟩

end LinkQuality
