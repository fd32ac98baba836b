import LinkQuality.Proofs.Feed.Lines
import LinkQuality.Proofs.Json.Quoted
import LinkQuality.Proofs.Json.Reading
import LinkQuality.Proofs.Time.Reading
import LinkQuality.Store.Ndjson

/-!
# Records that were written as lines are read back as samples

Records are written by one program and samples read by another, each with its own idea of the
members of an object. They agree: every member that a sample knows is written under the name it is
read by, with a text that is read back (`FeedSample.read_text`), and the one member a sample does
not know is passed over. So a reader goes through the members of a record one by one
(`FeedSample.readMembers_flatMap`) and ends up with its values.

The main statement, `Record.lines_ndjson`, adds that the records are the lines of the text. Of
numbers it is asked that their text be read as the same number (`NumberLayout.IsExact`); strings are
read back whatever they are. A time is read back as the text shows it (`Timestamp.asShown`). That is
the time of the record, unless a second of it is overlong in the middle of a minute: then the text
shows the second that follows, and cannot be told from the text of that one
(`Record.not_read_back_of_overlong`).
-/

namespace LinkQuality

/-- **The sample a record is read back as.** Whether its values are means is not part of it. -/
def Record.fed (r : Record) : FeedSample :=
  ⟨r.node, r.probe, some r.time.asShown, r.latency, r.loss, r.jitter⟩

/-- **A number that is exact in JSON**: its text is read as this number. -/
def NumberLayout.IsExact (x : Float) : Prop :=
  Json.readNumber (NumberLayout.json.chars x) = some (x, [])

/-- **The values of a record are exact in JSON.** -/
structure Record.Exact (r : Record) : Prop where
  latency : NumberLayout.IsExact r.latency
  loss : NumberLayout.IsExact r.loss
  jitter : NumberLayout.IsExact r.jitter

namespace FeedSample

/-! ## Values -/

/-- Nothing is passed over where something else than white space begins. -/
theorem skipBlanks_cons {c : Char} (h : c ≠ ' ' ∧ c ≠ '\n' ∧ c ≠ '\t' ∧ c ≠ '\r')
    (rest : List Char) : Json.skipBlanks (c :: rest) = c :: rest := by
  simp [Json.skipBlanks, h]

/-- A quoted string in front of something. -/
theorem quoted_append (s rest : List Char) :
    Json.quoted s ++ rest = '"' :: (s.flatMap Json.escaped ++ '"' :: rest) := by
  simp [Json.quoted]

/-- **A string value is read back.** -/
theorem readString_quoted (s : String) (rest : List Char) :
    readString (Json.quoted s.toList ++ rest) = some (s, rest) := by
  rw [readString, quoted_append, skipBlanks_cons (by decide)]
  simp only [Json.readString_flatMap_escaped, Option.map_some, String.ofList_toList]

/-- **A time is read back** as it is shown. -/
theorem readTime_quoted (t : Timestamp) (rest : List Char) :
    readTime (Json.quoted t.rfc3339 ++ rest) = some (some t.asShown, rest) := by
  rw [readTime, quoted_append, skipBlanks_cons (by decide)]
  simp only [Json.readString_flatMap_escaped, Option.bind_eq_bind, Option.bind_some,
    Timestamp.ofText?_rfc3339]

/-- A number is written with characters that are not white space. -/
theorem le_of_mem_chars {x : Float} {c : Char} (h : c ∈ NumberLayout.json.chars x) :
    33 ≤ c.toNat := by
  have hall : "null".toList.all (33 ≤ ·.toNat) = true := by decide
  have hnull (d : Char) (hd : d ∈ "null".toList) : 33 ≤ d.toNat :=
    of_decide_eq_true (List.all_eq_true.1 hall d hd)
  rcases NumberLayout.isNumeral_or_of_mem_chars h with h | h | ⟨s, h⟩
  · exact Nat.le_trans (by decide) (NumberLayout.le_of_isNumeral h)
  · exact hnull c h
  · exact hnull c h

/-- **A number is read back** if it is exact. -/
theorem readNumber_chars {x : Float} (hx : NumberLayout.IsExact x) {rest : List Char}
    (h : Json.Closed rest) :
    readNumber (NumberLayout.json.chars x ++ rest) = some (x, rest) := by
  have hskip : Json.skipBlanks (NumberLayout.json.chars x ++ rest)
      = NumberLayout.json.chars x ++ rest := by
    cases hchars : NumberLayout.json.chars x with
    | nil =>
      rw [NumberLayout.IsExact, hchars] at hx
      cases (hx : none = some (x, []))
    | cons c cs =>
      have hc : 33 ≤ c.toNat := le_of_mem_chars (hchars ▸ List.mem_cons_self)
      refine skipBlanks_cons ⟨?_, ?_, ?_, ?_⟩ _ <;> rintro rfl <;> exact absurd hc (by decide)
  rw [readNumber, hskip]
  exact Json.readNumber_append_of_eq hx h

/-- A truth value is passed over. -/
theorem skipValue_flag (b : Bool) (rest : List Char) :
    Json.skipValue (Record.flag b ++ rest) = some rest := by
  cases b <;> simp [Json.skipValue, Record.flag, Json.skipOpen, Json.skipBlanks, Json.skipScalar,
    Json.readWord]

/-! ## Names -/

/-- A known name is known. -/
theorem find?_name (key : Key) : Key.all.find? (·.name = key.name) = some key := by
  cases key <;> decide

/-- **A known value is read under its name**, if it has not been read yet. -/
theorem readMember_field {d d' : Draft} {key : Key} {value rest : List Char}
    (hnew : d.has key = false) (hread : d.read key (value ++ rest) = some (d', rest)) :
    d.readMember (Record.field key.name value ++ rest) = some (d', rest) := by
  rw [Draft.readMember, Record.field, List.append_assoc, quoted_append, skipBlanks_cons (by decide)]
  simp only [Json.readString_flatMap_escaped, Option.bind_eq_bind, Option.bind_some,
    List.cons_append, skipBlanks_cons (c := ':') (by decide), String.ofList_toList, find?_name,
    hnew, Bool.false_eq_true, if_false, hread]

/-- **A value under a name that is not known is passed over.** -/
theorem readMember_of_unknown {d : Draft} {name : String} {value rest : List Char}
    (hname : Key.all.find? (·.name = name) = none)
    (hskip : Json.skipValue (value ++ rest) = some rest) :
    d.readMember (Record.field name value ++ rest) = some (d, rest) := by
  rw [Draft.readMember, Record.field, List.append_assoc, quoted_append, skipBlanks_cons (by decide)]
  simp only [Json.readString_flatMap_escaped, Option.bind_eq_bind, Option.bind_some,
    List.cons_append, skipBlanks_cons (c := ':') (by decide), String.ofList_toList, hname, hskip,
    Option.map_some]

/-- After a member and a comma come more. -/
theorem readMembers_comma {fuel : Nat} {d d' : Draft} {member rest : List Char}
    (h : d.readMember (member ++ ',' :: rest) = some (d', ',' :: rest)) :
    Draft.readMembers (fuel + 1) d (member ++ ',' :: rest) = Draft.readMembers fuel d' rest := by
  rw [Draft.readMembers, h]
  simp only [Option.bind_eq_bind, Option.bind_some, skipBlanks_cons (c := ',') (by decide)]

/-- After a member and a brace come no more. -/
theorem readMembers_brace {fuel : Nat} {d d' : Draft} {member rest : List Char}
    (h : d.readMember (member ++ '\x7d' :: rest) = some (d', '\x7d' :: rest)) :
    Draft.readMembers (fuel + 1) d (member ++ '\x7d' :: rest) = some (d', rest) := by
  rw [Draft.readMembers, h]
  simp only [Option.bind_eq_bind, Option.bind_some, skipBlanks_cons (c := '\x7d') (by decide)]

/-! ## Records -/

/-- The text of a known value of a record. -/
def Key.text (r : Record) : Key → List Char
  | .node => Json.quoted r.node.toList
  | .probe => Json.quoted r.probe.toList
  | .time => Json.quoted r.time.rfc3339
  | .latency => NumberLayout.json.chars r.latency
  | .loss => NumberLayout.json.chars r.loss
  | .jitter => NumberLayout.json.chars r.jitter

/-- A draft with a known value of a record. -/
def Draft.set (r : Record) (d : Draft) : Key → Draft
  | .node => { d with node := some r.node }
  | .probe => { d with probe := some r.probe }
  | .time => { d with time := some (some r.time.asShown) }
  | .latency => { d with latency := some r.latency }
  | .loss => { d with loss := some r.loss }
  | .jitter => { d with jitter := some r.jitter }

/-- It has that value then, and those it had before. -/
theorem Draft.has_set (r : Record) (d : Draft) (key other : Key) :
    (d.set r key).has other = (decide (key = other) || d.has other) := by
  cases key <;> cases other <;> rfl

/-- **Each known value of a record is read back.** -/
theorem read_text {r : Record} (h : Record.Exact r) (d : Draft) (key : Key) {rest : List Char}
    (hrest : Json.Closed rest) :
    d.read key (key.text r ++ rest) = some (d.set r key, rest) := by
  cases key with
  | node | probe => simp only [Draft.read, Key.text, readString_quoted, Option.map_some, Draft.set]
  | time => simp only [Draft.read, Key.text, readTime_quoted, Option.map_some, Draft.set]
  | latency =>
    simp only [Draft.read, Key.text, readNumber_chars h.latency hrest, Option.map_some, Draft.set]
  | loss =>
    simp only [Draft.read, Key.text, readNumber_chars h.loss hrest, Option.map_some, Draft.set]
  | jitter =>
    simp only [Draft.read, Key.text, readNumber_chars h.jitter hrest, Option.map_some, Draft.set]

/-- A known value with its name, as a member of a record. -/
def Key.member (r : Record) (key : Key) : List Char := Record.field key.name (key.text r)

/-- **Known members are read one after the other**, each under its own name. -/
theorem readMembers_flatMap {r : Record} (h : Record.Exact r) (fuel : Nat) (rest : List Char)
    {keys : List Key} (hnodup : keys.Nodup) {d : Draft} (hnew : ∀ key ∈ keys, d.has key = false) :
    Draft.readMembers (fuel + keys.length) d
        (keys.flatMap (fun key => key.member r ++ [',']) ++ rest)
      = Draft.readMembers fuel (keys.foldl (Draft.set r) d) rest := by
  induction keys generalizing d with
  | nil => rfl
  | cons key keys ih =>
    obtain ⟨hkey, hnodup⟩ := List.nodup_cons.1 hnodup
    have hmember := readMember_field (hnew key List.mem_cons_self)
      (read_text h d key (Json.closed_cons (c := ',') rfl (by decide)
        (keys.flatMap (fun key => key.member r ++ [',']) ++ rest)))
    rw [List.flatMap_cons, List.append_assoc, List.append_assoc, List.singleton_append, Key.member,
      List.length_cons, ← Nat.add_assoc, readMembers_comma hmember, List.foldl_cons]
    refine ih hnodup fun other hother => ?_
    rw [Draft.has_set, hnew other (List.mem_cons_of_mem _ hother), Bool.or_false]
    exact decide_eq_false fun heq => hkey (heq ▸ hother)

/-- The members of a record and the closing brace: the known ones in order, and whether its values
are means. -/
def members (r : Record) : List Char :=
  Key.all.flatMap (fun key => key.member r ++ [',']) ++
    (Record.field "is_aggregated" (Record.flag r.aggregated) ++ ['\x7d'])

/-- A record is written as a brace and its members. -/
theorem json_eq (r : Record) : r.json = '\x7b' :: members r := by
  simp only [Record.json, members, Key.all, List.flatMap_cons, List.flatMap_nil,
    List.append_assoc, List.cons_append, List.nil_append, List.append_nil]
  rfl

/-- The members of a record are read one by one. -/
theorem readMembers_members {r : Record} (h : r.Exact) :
    Draft.readMembers ((members r).length + 1) {} (members r)
      = some (Key.all.foldl (Draft.set r) {}, []) := by
  obtain ⟨fuel, hfuel⟩ : ∃ fuel, (members r).length + 1 = fuel + 1 + Key.all.length := by
    refine ⟨(members r).length - Key.all.length, ?_⟩
    simp only [members, Key.all, List.flatMap_cons, List.flatMap_nil, List.length_append,
      List.length_cons, List.length_nil]
    omega
  rw [hfuel, members, readMembers_flatMap h _ _ (by decide) (by decide)]
  exact readMembers_brace (readMember_of_unknown (by decide) (skipValue_flag _ _))

/-- **A record is read back from its line**, value by value. -/
theorem ofText?_json {r : Record} (h : r.Exact) : ofText? r.json = some r.fed := by
  obtain ⟨cs, hcs⟩ : ∃ cs, members r = '"' :: cs := ⟨_, rfl⟩
  have hvalue : Draft.readValue r.json = some (Key.all.foldl (Draft.set r) {}, []) := by
    have hmembers := readMembers_members h
    rw [json_eq]
    rw [hcs] at hmembers ⊢
    simp only [Draft.readValue, skipBlanks_cons (c := '\x7b') (by decide),
      skipBlanks_cons (c := '"') (by decide), hmembers]
    rfl
  rw [ofText?, hvalue]
  rfl

/-! ## Lines -/

/-- A record is written without control characters, so on one line. -/
theorem le_of_mem_json {r : Record} {c : Char} (h : c ∈ r.json) : 32 ≤ c.toNat := by
  have hfield {name : String} {value : List Char} (hvalue : ∀ d ∈ value, 32 ≤ d.toNat)
      (hc : c ∈ Record.field name value) : 32 ≤ c.toNat := by
    rcases List.mem_append.1 hc with hc | hc
    · exact Json.le_of_mem_quoted hc
    · rcases List.mem_cons.1 hc with rfl | hc
      · decide
      · exact hvalue c hc
  have hnumber (x : Float) : ∀ d ∈ NumberLayout.json.chars x, 32 ≤ d.toNat :=
    fun d hd => Nat.le_trans (by decide) (le_of_mem_chars hd)
  have hquoted (s : List Char) : ∀ d ∈ Json.quoted s, 32 ≤ d.toNat :=
    fun d hd => Json.le_of_mem_quoted hd
  have hflag (b : Bool) : ∀ d ∈ Record.flag b, 32 ≤ d.toNat := by
    have hall : (Record.flag b).all (32 ≤ ·.toNat) = true := by cases b <;> decide
    exact fun d hd => of_decide_eq_true (List.all_eq_true.1 hall d hd)
  rw [json_eq, members] at h
  rcases List.mem_cons.1 h with rfl | h
  · decide
  rcases List.mem_append.1 h with h | h
  · obtain ⟨key, -, h⟩ := List.mem_flatMap.1 h
    rcases List.mem_append.1 h with h | h
    · refine hfield ?_ h
      cases key with
      | node | probe | time => exact hquoted _
      | latency | loss | jitter => exact hnumber _
    · rw [List.mem_singleton.1 h]
      decide
  · rcases List.mem_append.1 h with h | h
    · exact hfield (hflag _) h
    · rw [List.mem_singleton.1 h]
      decide

/-- Nothing is trimmed from the text of a record. -/
theorem trim_json (r : Record) : Text.trim r.json = r.json := by
  obtain ⟨cs, hcs⟩ : ∃ cs, r.json = '\x7b' :: cs := ⟨_, rfl⟩
  obtain ⟨ds, hds⟩ : ∃ ds, r.json = ds ++ ['\x7d'] := ⟨_, rfl⟩
  have hstart : Text.trimStart r.json = r.json := by
    rw [hcs]
    exact Text.trimStart_cons (by decide) cs
  have hend : Text.trimStart r.json.reverse = r.json.reverse := by
    rw [hds, List.reverse_append, List.reverse_singleton, List.singleton_append]
    exact Text.trimStart_cons (by decide) ds.reverse
  rw [Text.trim, hstart, hend, List.reverse_reverse]

end FeedSample

namespace Record

/-- **What a store is sent line by line is what a feed can be given.** The text of any records,
whose values are in range and exact in JSON, has one line for each record, in order, whether or not
more may follow. None of the lines is blank, and each is read as a sample with the node, the probe,
the time as it is shown, and the values of its record, which passes the range check. What is shown
is the time of the record just if it has no overlong second but at the end of a minute. -/
theorem lines_ndjson {records : List Record} (isOpen : Bool)
    (hranges : ∀ r ∈ records, checkRanges r.latency r.loss r.jitter = .ok ())
    (hexact : ∀ r ∈ records, r.Exact) :
    (FeedInput.ofText (String.ofList (records.flatMap ndjson)) isOpen).lines.map FeedInput.text?
        = records.map (fun r => some r.json) ∧
      ∀ r ∈ records, Text.trim r.json ≠ [] ∧
        FeedSample.ofText? (Text.trim r.json) = some r.fed ∧ r.fed.check = .ok () ∧
        (∀ now, r.fed.toSample now = ⟨r.time.asShown, r.latency, r.loss, r.jitter⟩) ∧
        (r.time.asShown = r.time ↔ r.time.IsRegular) := by
  refine ⟨?_, fun r hr => ⟨?_, ?_, hranges r hr, fun now => rfl, Timestamp.asShown_eq_self_iff⟩⟩
  · have htext : records.flatMap ndjson = (records.map json).flatMap (· ++ ['\n']) := by
      rw [List.flatMap_map]
      rfl
    have hbreak : ∀ line ∈ records.map json, '\n' ∉ line := by
      intro line hline hmem
      obtain ⟨r, -, rfl⟩ := List.mem_map.1 hline
      exact absurd (FeedSample.le_of_mem_json hmem) (by decide)
    rw [FeedInput.map_text?_lines, String.toList_ofList, htext, Text.lines_flatMap hbreak,
      List.map_map]
    rfl
  · rw [FeedSample.trim_json, FeedSample.json_eq]
    exact List.cons_ne_nil _ _
  · rw [FeedSample.trim_json]
    exact FeedSample.ofText?_json (hexact r hr)

/-- Two records that try to break their lines: one with line breaks, quotes and backslashes in its
names, in the last second of the year before year 0, a leap second; and one of the year 10000. -/
def unruly : List Record :=
  [⟨"a\"\n\\", "é\t", ⟨-62167219201, 1000000001, by decide, by decide, by decide⟩, 12.5, 0.1, -0.0,
      false⟩,
    ⟨"\n", "", ⟨253402300800, 500000, by decide, by decide, by decide⟩, 1e20, 1, 1e-7, true⟩]

theorem lines_ndjson_unruly :
    (∀ r ∈ unruly, checkRanges r.latency r.loss r.jitter = .ok ()) ∧ (∀ r ∈ unruly, r.Exact) ∧
      (FeedInput.ofText (String.ofList (unruly.flatMap ndjson)) false).lines.map FeedInput.text?
        = unruly.map (fun r => some r.json) ∧
      ∀ r ∈ unruly, FeedSample.ofText? (Text.trim r.json) = some r.fed ∧
        r.time.asShown = r.time := by
  have hranges : ∀ r ∈ unruly, checkRanges r.latency r.loss r.jitter = .ok () :=
    List.forall_mem_cons.2 ⟨rfl, List.forall_mem_singleton.2 rfl⟩
  have hexact : ∀ r ∈ unruly, r.Exact :=
    List.forall_mem_cons.2 ⟨⟨rfl, rfl, rfl⟩, List.forall_mem_singleton.2 ⟨rfl, rfl, rfl⟩⟩
  have hregular : ∀ r ∈ unruly, r.time.IsRegular := by decide +kernel
  obtain ⟨hlines, hread⟩ := lines_ndjson false hranges hexact
  refine ⟨hranges, hexact, hlines, fun r hr => ?_⟩
  obtain ⟨-, htext, -, -, hshown⟩ := hread r hr
  exact ⟨htext, hshown.mpr (hregular r hr)⟩

/-- A record of half past the second after the thirtieth of a minute, counted from the thirtieth. -/
def overlong : Record :=
  ⟨"node-a", "probe-1", ⟨1714557630, 1500000000, by decide, by decide, by decide⟩, 12.5, 1, 2.5,
    false⟩

/-- Its line says that it is of the thirty-first second, and is read so. -/
theorem not_read_back_of_overlong :
    checkRanges overlong.latency overlong.loss overlong.jitter = .ok () ∧ overlong.Exact ∧
      overlong.time.rfc3339 = "2024-05-01T10:00:31.500Z".toList ∧
      ∃ s, FeedSample.ofText? (Text.trim overlong.json) = some s ∧
        s.time = some ⟨1714557631, 500000000, by decide, by decide, by decide⟩ ∧
        s.time ≠ some overlong.time := by
  have hexact : overlong.Exact := ⟨rfl, rfl, rfl⟩
  refine ⟨rfl, hexact, by decide +kernel, overlong.fed, ?_, by decide +kernel, by decide +kernel⟩
  rw [FeedSample.trim_json]
  exact FeedSample.ofText?_json hexact

end Record

end LinkQuality
