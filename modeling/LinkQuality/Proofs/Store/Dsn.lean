import LinkQuality.Settings.Check
import LinkQuality.Store.Dsn
import Mathlib.Data.List.TakeWhile

/-!
# What the address of a server says

An address is read by a few rules that know nothing of who has written it (`Url.split`). They undo
the putting together of parts that keep clear of the characters they go by, and only of such parts
(`Url.split_eq_some_iff`). So the address of a ClickHouse server gives back the settings it is made
of just if these keep clear of the same characters (`ClickHouseSettings.Plain`), and then no two
choices of server, database and user have one address (`ClickHouseSettings.split_dsn_iff`). Nothing
in the checks of the settings asks for it.
-/

namespace LinkQuality

namespace Url

variable {c : Char} {t a b : List Char} {a? b? : Option (List Char)}

/-! ## Cutting a text in two -/

/-- A text up to the first of some character, and what follows that, if there is one. -/
def cut (c : Char) (t : List Char) : List Char × Option (List Char) :=
  (t.takeWhile (· ≠ c), (t.dropWhile (· ≠ c)).tail?)

/-- What comes before the last of some character, if there is one, and what follows it. -/
def cutLast (c : Char) (t : List Char) : Option (List Char) × List Char :=
  ((cut c t.reverse).2.map List.reverse, (cut c t.reverse).1.reverse)

/-- Puts a text and one that may follow it together again. -/
def join (c : Char) (a : List Char) : Option (List Char) → List Char
  | none => a
  | some b => a ++ c :: b

/-- Puts a text and one that may come before it together again. -/
def joinLast (c : Char) (a? : Option (List Char)) (b : List Char) : List Char :=
  match a? with
  | none => b
  | some a => a ++ c :: b

/-- The first character is that of the first part or the one between them. -/
theorem mem_head?_join {x : Char} (h : x ∈ (join c a b?).head?) : x ∈ a.head? ∨ x = c := by
  cases b? with
  | none => exact .inl h
  | some b =>
    cases a with
    | nil => exact .inr (Option.some.inj h).symm
    | cons y a => exact .inl h

theorem cut_join (h : c ∉ a) (b? : Option (List Char)) : cut c (join c a b?) = (a, b?) := by
  have hkeep : ∀ x ∈ a, decide (x ≠ c) = true := fun x hx =>
    decide_eq_true fun hxc => h (hxc ▸ hx)
  cases b? with
  | none =>
    rw [join, cut, List.takeWhile_eq_self_iff.mpr hkeep, List.dropWhile_eq_nil_iff.mpr hkeep]
    rfl
  | some b =>
    rw [join, cut, List.takeWhile_append_of_pos hkeep, List.dropWhile_append_of_pos hkeep]
    simp

/-- **Cutting a text is finding what it has been put together from**, where the first part is clear
of the character. -/
theorem cut_eq_iff : cut c t = (a, b?) ↔ c ∉ a ∧ join c a b? = t := by
  refine ⟨fun h => ?_, fun ⟨hclear, ht⟩ => ht ▸ cut_join hclear b?⟩
  obtain ⟨rfl, rfl⟩ := Prod.mk.inj h
  refine ⟨fun hmem => absurd (List.mem_takeWhile_imp hmem) (by simp), ?_⟩
  have hjoin := List.takeWhile_append_dropWhile (p := (· ≠ c)) (l := t)
  cases hrest : t.dropWhile (· ≠ c) with
  | nil =>
    rw [hrest, List.append_nil] at hjoin
    exact hjoin
  | cons d rest =>
    have hd : d = c := by
      have hstop := List.head_dropWhile_not (· ≠ c) (l := t) (hrest ▸ List.cons_ne_nil d rest)
      simpa only [hrest, List.head_cons, decide_eq_false_iff_not, not_not] using hstop
    rw [hrest, hd] at hjoin
    exact hjoin

/-- Cutting at the last of a character asks this of the second part. -/
theorem cutLast_eq_iff : cutLast c t = (a?, b) ↔ c ∉ b ∧ joinLast c a? b = t := by
  have hback (o : Option (List Char)) : o.map List.reverse = a? ↔ o = a?.map List.reverse := by
    cases o <;> cases a? <;> simp [List.reverse_eq_iff]
  have hcut : cutLast c t = (a?, b) ↔ cut c t.reverse = (b.reverse, a?.map List.reverse) := by
    rw [cutLast, Prod.mk.injEq, Prod.ext_iff, and_comm, hback, List.reverse_eq_iff]
  have hjoin : join c b.reverse (a?.map List.reverse) = (joinLast c a? b).reverse := by
    cases a? <;> simp [join, joinLast]
  rw [hcut, cut_eq_iff, hjoin, List.reverse_inj, List.mem_reverse]

theorem notMem_cut (c : Char) (t : List Char) : c ∉ (cut c t).1 := (cut_eq_iff.mp rfl).1

theorem join_cut (c : Char) (t : List Char) : join c (cut c t).1 (cut c t).2 = t :=
  (cut_eq_iff.mp rfl).2

theorem notMem_cutLast (c : Char) (t : List Char) : c ∉ (cutLast c t).2 := (cutLast_eq_iff.mp rfl).1

theorem joinLast_cutLast (c : Char) (t : List Char) :
    joinLast c (cutLast c t).1 (cutLast c t).2 = t := (cutLast_eq_iff.mp rfl).2

/-! ## The parts of an address -/

/-- The characters that end the authority. -/
def ends : List Char := ['/', '?', '#']

/-- **The parts of an address.** -/
structure Parts where
  scheme : List Char
  /-- A user, and a password if there is one. -/
  account? : Option (List Char × Option (List Char))
  /-- Host and port. -/
  server : List Char
  /-- The path with the slash it starts with. -/
  path : List Char
  query? : Option (List Char)
  fragment? : Option (List Char)
  deriving DecidableEq

/-- The parts of what follows the scheme and two slashes. The authority ends at the first of its
`ends`, the user information at the last `@` of the authority, and the user at the first colon of
that. -/
def Parts.read (scheme t : List Char) : Parts :=
  let authority := t.takeWhile (· ∉ ends)
  let rest := t.dropWhile (· ∉ ends)
  { scheme
    account? := (cutLast '@' authority).1.map (cut ':')
    server := (cutLast '@' authority).2
    path := (cut '?' (cut '#' rest).1).1
    query? := (cut '?' (cut '#' rest).1).2
    fragment? := (cut '#' rest).2 }

/-- **Splits an address**, if it is one. -/
def split (t : List Char) : Option Parts :=
  match cut ':' t with
  | (scheme, some ('/' :: '/' :: rest)) => some (.read scheme rest)
  | _ => none

namespace Parts

/-- The authority, put together again. -/
def authority (p : Parts) : List Char :=
  joinLast '@' (p.account?.map fun account => join ':' account.1 account.2) p.server

/-- What follows the authority. -/
def rest (p : Parts) : List Char := join '#' (join '?' p.path p.query?) p.fragment?

/-- The address that parts are put together to. -/
def text (p : Parts) : List Char := join ':' p.scheme (some ('/' :: '/' :: (p.authority ++ p.rest)))

/-- **Parts that keep clear** of the characters by which the next part is found. -/
structure Clear (p : Parts) : Prop where
  scheme : ':' ∉ p.scheme
  user : ∀ account ∈ p.account?, ':' ∉ account.1
  server : '@' ∉ p.server
  authority : ∀ c ∈ p.authority, c ∉ ends
  path_head : ∀ c ∈ p.path.head?, c = '/'
  path : '?' ∉ p.path
  fragment : '#' ∉ join '?' p.path p.query?

variable {p : Parts} {scheme : List Char}

theorem authority_read (scheme t : List Char) :
    (read scheme t).authority = t.takeWhile (· ∉ ends) := by
  have hback : (fun account : List Char × Option (List Char) => join ':' account.1 account.2) ∘
      cut ':' = id := funext (join_cut ':')
  rw [authority, read]
  dsimp only
  rw [Option.map_map, hback, Option.map_id_fun, id, joinLast_cutLast]

theorem rest_read (scheme t : List Char) : (read scheme t).rest = t.dropWhile (· ∉ ends) := by
  rw [rest, read]
  dsimp only
  rw [join_cut, join_cut]

/-- What follows the authority starts with one of its ends, -/
theorem mem_ends_of_mem_head? {x : Char} (t : List Char)
    (hx : x ∈ (t.dropWhile (· ∉ ends)).head?) : x ∈ ends := by
  have hstop := List.head?_dropWhile_not (· ∉ ends) t
  rw [Option.mem_def.mp hx] at hstop
  simpa using hstop

/-- and its path, if it has any, with the slash. -/
theorem eq_slash_of_mem_head? {x : Char} {t : List Char} (h : ∀ y ∈ t.head?, y ∈ ends)
    (hx : x ∈ (cut '?' (cut '#' t).1).1.head?) : x = '/' := by
  cases t with
  | nil => exact absurd hx (by simp [cut])
  | cons y t =>
    have hy : y = '/' ∨ y = '?' ∨ y = '#' := by simpa [ends] using h y rfl
    rcases hy with rfl | rfl | rfl
    · simpa [cut, eq_comm] using hx
    · exact absurd hx (by simp [cut])
    · exact absurd hx (by simp [cut])

/-- What is read is clear. -/
theorem clear_read (hscheme : ':' ∉ scheme) (t : List Char) : (read scheme t).Clear where
  scheme := hscheme
  user account haccount := by
    obtain ⟨info, -, rfl⟩ := Option.map_eq_some_iff.mp haccount
    exact notMem_cut ':' info
  server := notMem_cutLast '@' _
  authority c hc := by
    rw [authority_read] at hc
    simpa using List.mem_takeWhile_imp hc
  path_head c hc := eq_slash_of_mem_head? (fun y => mem_ends_of_mem_head? t) hc
  path := notMem_cut '?' _
  fragment := by
    rw [read]
    dsimp only
    rw [join_cut]
    exact notMem_cut '#' _

/-- What follows the authority starts with one of its ends. -/
theorem Clear.mem_ends_of_mem_head? (h : p.Clear) {x : Char} (hx : x ∈ p.rest.head?) :
    x ∈ ends := by
  rcases mem_head?_join hx with hx | rfl
  · rcases mem_head?_join hx with hx | rfl
    · rw [h.path_head x hx]
      decide
    · decide
  · decide

/-- **Clear parts are read back.** -/
theorem Clear.read_eq (h : p.Clear) : read p.scheme (p.authority ++ p.rest) = p := by
  have hkeep : ∀ x ∈ p.authority, decide (x ∉ ends) = true := fun x hx =>
    decide_eq_true (h.authority x hx)
  have hstop : p.rest.takeWhile (· ∉ ends) = [] ∧ p.rest.dropWhile (· ∉ ends) = p.rest := by
    cases hrest : p.rest with
    | nil => exact ⟨rfl, rfl⟩
    | cons x rest =>
      have hx : x ∈ ends := h.mem_ends_of_mem_head? (by rw [hrest]; rfl)
      simp [hx]
  have hlast := cutLast_eq_iff.mpr ⟨h.server, (rfl : _ = p.authority)⟩
  have hcut : (p.account?.map fun account => join ':' account.1 account.2).map (cut ':') =
      p.account? := by
    cases haccount : p.account? with
    | none => rfl
    | some account => exact congrArg some (cut_join (h.user account haccount) account.2)
  rw [read, List.takeWhile_append_of_pos hkeep, List.dropWhile_append_of_pos hkeep, hstop.1,
    hstop.2, List.append_nil, hlast, rest, cut_join h.fragment, cut_join h.path]
  dsimp only
  rw [hcut]

end Parts

/-- **An address is split into clear parts that make it up, and into no others.** -/
theorem split_eq_some_iff {p : Parts} : split t = some p ↔ p.Clear ∧ p.text = t := by
  constructor
  · intro h
    rw [split] at h
    split at h
    next scheme rest hcut =>
      obtain ⟨hscheme, ht⟩ := cut_eq_iff.mp hcut
      obtain rfl := Option.some.inj h
      refine ⟨Parts.clear_read hscheme rest, ?_⟩
      rw [Parts.text, Parts.authority_read, Parts.rest_read, List.takeWhile_append_dropWhile]
      exact ht
    next => exact absurd h (by simp)
  · rintro ⟨hclear, rfl⟩
    rw [split, Parts.text, cut_join hclear.scheme]
    exact congrArg some hclear.read_eq

end Url

namespace ClickHouseSettings

open Url (Parts ends split)

variable {s t : ClickHouseSettings}

/-! ## The address of a ClickHouse server -/

/-- A text that may be left empty, and is none then. -/
def given? (text : String) : Option (List Char) := if text = "" then none else some text.toList

theorem given?_inj {a b : String} : given? a = given? b ↔ a = b := by
  refine ⟨fun h => ?_, congrArg given?⟩
  rw [given?, given?] at h
  split_ifs at h with ha hb
  · exact ha.trans hb.symm
  · exact String.toList_inj.mp (Option.some.inj h)

/-- **The settings as the parts of an address.** Without a user there is no password either. -/
def parts (s : ClickHouseSettings) : Parts where
  scheme := "tcp".toList
  account? := (given? s.username).map fun user => (user, given? s.password)
  server := s.endpoint.toList
  path := '/' :: s.database.toList
  query? := some query.toList
  fragment? := none

/-- The address is made of these parts. -/
theorem toList_dsn (s : ClickHouseSettings) : s.dsn.toList = s.parts.text := by
  have hscheme : "tcp://".toList = "tcp".toList ++ [':', '/', '/'] := by decide
  rw [dsn, userInfo, Parts.text, Parts.authority, Parts.rest, parts]
  by_cases huser : s.username = ""
  · simp [given?, huser, hscheme, Url.join, Url.joinLast]
  · by_cases hpassword : s.password = "" <;>
      simp [given?, huser, hpassword, hscheme, Url.join, Url.joinLast]

/-- **Settings that keep clear** of the characters an address is split at. The user information is
over at the last `@`, so there it does no harm. -/
structure Plain (s : ClickHouseSettings) : Prop where
  endpoint : ∀ c ∈ s.endpoint.toList, c ≠ '@' ∧ c ∉ ends
  database : ∀ c ∈ s.database.toList, c ≠ '?' ∧ c ≠ '#'
  username : ∀ c ∈ s.username.toList, c ≠ ':' ∧ c ∉ ends
  password : s.username ≠ "" → ∀ c ∈ s.password.toList, c ∉ ends

/-- What the authority is made of. -/
theorem mem_authority_iff {c : Char} :
    c ∈ s.parts.authority ↔
      s.username ≠ "" ∧ (c ∈ s.username.toList ∨
        s.password ≠ "" ∧ (c = ':' ∨ c ∈ s.password.toList) ∨ c = '@') ∨
      c ∈ s.endpoint.toList := by
  rw [Parts.authority, parts]
  by_cases huser : s.username = ""
  · simp [given?, huser, Url.joinLast]
  · by_cases hpassword : s.password = "" <;>
      simp [given?, huser, hpassword, Url.join, Url.joinLast, or_assoc]

/-- A text that has a character is not empty. -/
theorem ne_empty_of_mem {c : Char} {text : String} (h : c ∈ text.toList) : text ≠ "" := by
  rintro rfl
  exact absurd h (by simp)

/-- The parts are clear if the settings are, -/
theorem Plain.clear (h : s.Plain) : s.parts.Clear where
  scheme := (by decide : ':' ∉ "tcp".toList)
  user account haccount hc := by
    obtain ⟨user, huser, rfl⟩ := Option.map_eq_some_iff.mp haccount
    obtain ⟨-, huser⟩ := Option.ite_none_left_eq_some.mp huser
    obtain rfl := Option.some.inj huser
    exact (h.username _ hc).1 rfl
  server hc := (h.endpoint _ hc).1 rfl
  authority c hc := by
    rcases mem_authority_iff.mp hc with ⟨huser, hc | ⟨-, rfl | hc⟩ | rfl⟩ | hc
    · exact (h.username c hc).2
    · decide
    · exact h.password huser c hc
    · decide
    · exact (h.endpoint c hc).2
  path_head c hc := (Option.some.inj hc).symm
  path := by
    rw [parts, List.mem_cons, not_or]
    exact ⟨by decide, fun hc => (h.database _ hc).1 rfl⟩
  fragment := by
    have hquery : '#' ∉ '?' :: query.toList := by decide
    change '#' ∉ '/' :: s.database.toList ++ '?' :: query.toList
    rw [List.mem_append, not_or, List.mem_cons, not_or]
    exact ⟨⟨by decide, fun hc => (h.database _ hc).2 rfl⟩, hquery⟩

/-- and only if they are. -/
theorem plain_of_clear (h : s.parts.Clear) : s.Plain where
  endpoint c hc := by
    refine ⟨?_, h.authority c (mem_authority_iff.mpr (.inr hc))⟩
    rintro rfl
    exact h.server hc
  database c hc := by
    constructor
    · rintro rfl
      exact h.path (List.mem_cons_of_mem _ hc)
    · rintro rfl
      exact h.fragment (List.mem_append_left _ (List.mem_cons_of_mem _ hc))
  username c hc := by
    have huser := ne_empty_of_mem hc
    refine ⟨?_, h.authority c (mem_authority_iff.mpr (.inl ⟨huser, .inl hc⟩))⟩
    rintro rfl
    exact h.user _ (congrArg (Option.map _) (if_neg huser)) hc
  password huser c hc := by
    have hpassword := ne_empty_of_mem hc
    refine h.authority c (mem_authority_iff.mpr (.inl ⟨huser, .inr (.inl ⟨hpassword, ?_⟩)⟩))
    exact .inr hc

/-- The parts tell the settings they are made of, a password apart that no user has. -/
theorem eq_of_parts_eq (h : s.parts = t.parts) :
    s.endpoint = t.endpoint ∧ s.database = t.database ∧ s.username = t.username ∧
      (s.username ≠ "" → s.password = t.password) := by
  simp only [parts, Parts.mk.injEq, List.cons.injEq, String.toList_inj, true_and, and_true] at h
  obtain ⟨haccount, hendpoint, hdatabase⟩ := h
  have huser : s.username = t.username := by
    have hfirst := congrArg (Option.map Prod.fst) haccount
    rw [Option.map_map, Option.map_map] at hfirst
    exact given?_inj.mp (by simpa [Function.comp_def] using hfirst)
  refine ⟨hendpoint, hdatabase, huser, fun hne => ?_⟩
  have hsome : given? s.username = some s.username.toList := if_neg hne
  rw [← huser, hsome] at haccount
  exact given?_inj.mp (Prod.mk.inj (Option.some.inj haccount)).2

/-- **The address gives back the settings just if they keep clear** of the characters it is split
at, and then it tells them from all others that do. -/
theorem split_dsn_iff (s : ClickHouseSettings) :
    (split s.dsn.toList = some s.parts ↔ s.Plain) ∧
      ∀ t : ClickHouseSettings, s.Plain → t.Plain → s.dsn = t.dsn →
        s.endpoint = t.endpoint ∧ s.database = t.database ∧ s.username = t.username ∧
          (s.username ≠ "" → s.password = t.password) := by
  have hiff (s : ClickHouseSettings) : split s.dsn.toList = some s.parts ↔ s.Plain := by
    rw [Url.split_eq_some_iff, and_iff_left s.toList_dsn.symm]
    exact ⟨plain_of_clear, Plain.clear⟩
  refine ⟨hiff s, fun t hs ht heq => eq_of_parts_eq ?_⟩
  have hparts := ((hiff s).mpr hs).symm.trans (heq ▸ (hiff t).mpr ht)
  exact Option.some.inj hparts

/-- A user with a password, and two tables on one server. -/
theorem split_dsn_iff_tables :
    let s : ClickHouseSettings :=
      { endpoint := "ch:9000", database := "netq", username := "ingest", password := "s3cret" }
    let t : ClickHouseSettings := { s with table := "probes" }
    s.Plain ∧ t.Plain ∧ s.dsn = t.dsn ∧ split s.dsn.toList = some s.parts ∧
      s.endpoint = t.endpoint ∧ s.database = t.database ∧ s.username = t.username ∧
        (s.username ≠ "" → s.password = t.password) := by
  intro s t
  have hs : s.Plain :=
    ⟨by simp [s, ends], by simp [s], by simp [s, ends], fun _ => by simp [s, ends]⟩
  have ht : t.Plain := ⟨hs.endpoint, hs.database, hs.username, hs.password⟩
  exact ⟨hs, ht, rfl, (split_dsn_iff s).1.mpr hs, (split_dsn_iff s).2 t hs ht rfl⟩

/-- **A slash in the password ends the authority**: what comes before it is taken for the server,
and there is no user. And a colon in the name of a user is as good as one before the password, so
that two users have one address. The settings are accepted. -/
theorem not_split_dsn_after_slash :
    let s : ClickHouseSettings :=
      { enabled := true, endpoint := "ch:9000", database := "netq", username := "ingest",
        password := "s3/cret" }
    let t : ClickHouseSettings := { s with username := "a:b", password := "c" }
    let u : ClickHouseSettings := { s with username := "a", password := "b:c" }
    (∀ c ∈ [s, t, u], Settings.check { sink := { clickHouse := c } } = .ok ()) ∧
      split s.dsn.toList ≠ some s.parts ∧
      split s.dsn.toList = some
        { scheme := "tcp".toList, account? := none, server := "ingest:s3".toList,
          path := "/cret@ch:9000/netq".toList, query? := some query.toList, fragment? := none } ∧
      t.username ≠ u.username ∧ t.dsn = u.dsn := by
  refine ⟨?_, by decide +kernel, by decide +kernel, by decide, by decide⟩
  simp only [List.forall_mem_cons]
  exact ⟨rfl, rfl, rfl, by simp⟩

end ClickHouseSettings

end LinkQuality
