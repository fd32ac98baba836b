import LinkQuality.Proofs.Time.Reading
import LinkQuality.Store.Statement

/-!
# A statement cannot be broken by its data

The rows of a statement are read here as a server reads them: a literal is delimited by single
quotes and a backslash in it escapes the character that follows; between literals stand words,
commas and parentheses, and blanks only separate. The reader works in two passes, from characters
to tokens (`Statement.tokens`) and from tokens to rows (`Statement.rowsOf`), and refuses what it
does not understand.

The main statement, `Statement.read_foldl_push`, is that such a reader finds in the statement of
any records just what the records say, row for row. The point of the proof is where a literal ends
(`Statement.tokens_literal`): what a string contributes to the text leaves the reader inside the
literal, whatever was read before, so a string cannot end it nor take the quote that does. For this
the two passes in which strings are escaped are brought to one that takes each character by itself
(`Statement.escaped_eq_flatMap`). Times and numbers are written with characters that separate
nothing, so they end where they should without escapes.
-/

namespace LinkQuality

namespace Statement

/-! ## A reader of rows -/

/-- **How a reader takes escapes**: what the character after a backslash stands for. A backslash
and a quote stand for themselves; the other escapes are the reader's own affair. -/
structure Escapes where
  meaning : Char → Option Char
  backslash : meaning '\\' = some '\\'
  quote : meaning '\'' = some '\''

/-- The escapes of C that are one letter long; what has no meaning of its own stands for itself. -/
def Escapes.ofC : Escapes where
  meaning
    | '0' => some '\x00'
    | 'a' => some '\x07'
    | 'b' => some '\x08'
    | 'f' => some '\x0c'
    | 'n' => some '\n'
    | 'r' => some '\r'
    | 't' => some '\t'
    | 'v' => some '\x0b'
    | c => some c
  backslash := rfl
  quote := rfl

/-- A value of a row, as it is read. -/
inductive Value where
  /-- A string literal, by the string it stands for. -/
  | quoted (s : List Char)
  /-- A run of other characters. -/
  | bare (word : List Char)
  deriving DecidableEq, Repr

/-- What the text of rows is made of. -/
inductive Token where
  | opening
  | closing
  | comma
  | value (v : Value)
  deriving DecidableEq, Repr

/-- The tokens of a single character. -/
def mark? (c : Char) : Option Token :=
  if c = '(' then some .opening
  else if c = ')' then some .closing
  else if c = ',' then some .comma
  else none

/-- Where a reader of characters is. -/
inductive Within where
  /-- In a run of bare characters, of which there may be none yet. -/
  | word (seen : List Char)
  /-- In a string literal. -/
  | string (seen : List Char)
  /-- In a string literal, after a backslash. -/
  | escape (seen : List Char)
  deriving DecidableEq, Repr

/-- The end of a run of bare characters. -/
def ended (word : List Char) (ts : List Token) : List Token :=
  if word.isEmpty then ts else .value (.bare word) :: ts

/-- **The tokens of a text.** A literal is delimited by single quotes, and between literals blanks
only separate. -/
def tokens (e : Escapes) : Within → List Char → Option (List Token)
  | .word w, [] => some (ended w [])
  | .string _, [] => none
  | .escape _, [] => none
  | .word w, c :: rest =>
    if c = '\'' then if w.isEmpty then tokens e (.string []) rest else none
    else if c = '\\' then none
    else if c = ' ' then (tokens e (.word []) rest).map (ended w)
    else match mark? c with
      | some t => (tokens e (.word []) rest).map fun ts => ended w (t :: ts)
      | none => tokens e (.word (w ++ [c])) rest
  | .string s, c :: rest =>
    if c = '\'' then (tokens e (.word []) rest).map (.value (.quoted s) :: ·)
    else if c = '\\' then tokens e (.escape s) rest
    else tokens e (.string (s ++ [c])) rest
  | .escape s, c :: rest =>
    match e.meaning c with
    | some m => tokens e (.string (s ++ [m])) rest
    | none => none

/-- What a reader of tokens has to find next. -/
inductive Expected where
  /-- The first row, or the end of a text without rows. -/
  | start
  /-- A row. -/
  | row
  /-- A value, in a row with some values before it. -/
  | value (before : List Value)
  /-- A comma or the end of the row. -/
  | more (row : List Value)
  /-- A comma or the end of the text. -/
  | next
  deriving DecidableEq, Repr

/-- **The rows of a text**, by its tokens. Nothing may be left over. -/
def rowsOf : Expected → List Token → Option (List (List Value))
  | .start, [] => some []
  | .start, .opening :: ts => rowsOf (.value []) ts
  | .row, .opening :: ts => rowsOf (.value []) ts
  | .value before, .value v :: ts => rowsOf (.more (before ++ [v])) ts
  | .more vs, .comma :: ts => rowsOf (.value vs) ts
  | .more vs, .closing :: ts => (rowsOf .next ts).map (vs :: ·)
  | .next, .comma :: ts => rowsOf .row ts
  | .next, [] => some []
  | _, _ => none

/-- **Reads the rows of a text**, all of it. -/
def Escapes.read (e : Escapes) (cs : List Char) : Option (List (List Value)) :=
  tokens e (.word []) cs >>= rowsOf .start

/-! ## Literals and words -/

/-- What becomes of a character inside a literal. -/
def escapedChar (c : Char) : List Char :=
  if c = '\\' then ['\\', '\\'] else if c = '\'' then ['\\', '\''] else [c]

/-- **The two passes are one.** The second finds no quote in what the first has put in, and the
first none of the backslashes that the second puts in. -/
theorem escaped_eq_flatMap (s : List Char) : escaped s = s.flatMap escapedChar := by
  rw [escaped, replace, replace, List.flatMap_assoc]
  refine congrArg (List.flatMap · s) (funext fun c => ?_)
  by_cases hbackslash : c = '\\'
  · subst hbackslash
    rfl
  · simp [escapedChar, hbackslash]

variable (e : Escapes)

/-- **A literal is read to its own end** and no further, whatever the string: each quote in it
comes after a backslash, and each backslash in it is the second of two or comes before one of
these. -/
theorem tokens_literal (s seen rest : List Char) :
    tokens e (.string seen) (s.flatMap escapedChar ++ '\'' :: rest)
      = (tokens e (.word []) rest).map (.value (.quoted (seen ++ s)) :: ·) := by
  induction s generalizing seen with
  | nil => simp [tokens]
  | cons c s ih =>
    rw [List.flatMap_cons, List.append_assoc]
    by_cases hbackslash : c = '\\'
    · subst hbackslash
      simp [escapedChar, tokens, e.backslash, ih]
    by_cases hquote : c = '\''
    · subst hquote
      simp [escapedChar, tokens, e.quote, ih]
    · simp [escapedChar, tokens, hbackslash, hquote, ih]

/-- A character that stands for itself in a run of bare characters. -/
def isBare (c : Char) : Bool :=
  c ≠ '\'' && c ≠ '\\' && c ≠ ' ' && (mark? c).isNone

/-- A run of bare characters is taken as a whole. -/
theorem tokens_word {w : List Char} (h : ∀ c ∈ w, isBare c = true) (seen rest : List Char) :
    tokens e (.word seen) (w ++ rest) = tokens e (.word (seen ++ w)) rest := by
  induction w generalizing seen with
  | nil => rw [List.nil_append, List.append_nil]
  | cons c w ih =>
    have hc := h c List.mem_cons_self
    simp only [isBare, Bool.and_eq_true, decide_eq_true_eq, Option.isNone_iff_eq_none] at hc
    obtain ⟨⟨⟨hquote, hbackslash⟩, hblank⟩, hmark⟩ := hc
    rw [List.cons_append, tokens, if_neg hquote, if_neg hbackslash, if_neg hblank, hmark]
    have hw := ih (fun d hd => h d (List.mem_cons_of_mem _ hd)) (seen ++ [c])
    rwa [List.append_assoc] at hw

/-- A blank between values only separates. -/
theorem tokens_blank (rest : List Char) :
    tokens e (.word []) (' ' :: rest) = tokens e (.word []) rest := by
  rw [tokens, if_neg (by decide), if_neg (by decide), if_pos rfl]
  cases tokens e (.word []) rest <;> rfl

/-- A mark between values is a token of its own. -/
theorem tokens_mark {c : Char} {t : Token} (hc : mark? c = some t) (rest : List Char) :
    tokens e (.word []) (c :: rest) = (tokens e (.word []) rest).map (t :: ·) := by
  have hquote : c ≠ '\'' := by rintro rfl; cases hc
  have hbackslash : c ≠ '\\' := by rintro rfl; cases hc
  have hblank : c ≠ ' ' := by rintro rfl; cases hc
  rw [tokens, if_neg hquote, if_neg hbackslash, if_neg hblank, hc]
  rfl

/-- A value as it is written. -/
def Value.text : Value → List Char
  | .quoted s => literal s
  | .bare word => word

/-- Can a value be told from what comes after it? A literal always can; other values need a
character, and none that separates. -/
def Value.Clear : Value → Prop
  | .quoted _ => True
  | .bare word => word ≠ [] ∧ ∀ c ∈ word, isBare c = true

/-- **A value is read as it was written**, before any separator. -/
theorem tokens_text {v : Value} (h : v.Clear) {c : Char} {t : Token} (hc : mark? c = some t)
    (rest : List Char) :
    tokens e (.word []) (v.text ++ c :: rest)
      = (tokens e (.word []) rest).map fun ts => .value v :: t :: ts := by
  have hquote : c ≠ '\'' := by rintro rfl; cases hc
  have hbackslash : c ≠ '\\' := by rintro rfl; cases hc
  have hblank : c ≠ ' ' := by rintro rfl; cases hc
  cases v with
  | quoted s =>
    have hliteral := tokens_literal e s [] (c :: rest)
    rw [Value.text, literal, escaped_eq_flatMap, List.cons_append, List.cons_append,
      List.append_assoc, tokens, if_pos rfl, List.isEmpty_nil, if_pos rfl]
    refine hliteral.trans ?_
    rw [tokens, if_neg hquote, if_neg hbackslash, if_neg hblank, hc]
    rw [Option.map_map]
    rfl
  | bare word =>
    obtain ⟨hne, hbare⟩ := h
    rw [Value.text, tokens_word e hbare, List.nil_append, tokens, if_neg hquote,
      if_neg hbackslash, if_neg hblank, hc]
    simp only [ended, List.isEmpty_eq_false_iff.2 hne, Bool.false_eq_true, if_false]

/-! ## Rows -/

/-- The tokens of a row from its first value on. -/
def tokensFrom : List Value → List Token
  | [] => []
  | [v] => [.value v, .closing]
  | v :: vs => .value v :: .comma :: tokensFrom vs

/-- **The values of a row are read one by one**, up to the end of the row. -/
theorem tokens_values {vs : List Value} (hne : vs ≠ []) (h : ∀ v ∈ vs, v.Clear)
    (rest : List Char) :
    tokens e (.word []) (List.intercalate comma (vs.map Value.text) ++ ')' :: rest)
      = (tokens e (.word []) rest).map (tokensFrom vs ++ ·) := by
  induction vs with
  | nil => exact absurd rfl hne
  | cons v vs ih =>
    have hv := h v List.mem_cons_self
    cases vs with
    | nil =>
      rw [List.map_singleton, List.intercalate_singleton]
      exact tokens_text e hv rfl rest
    | cons w vs =>
      have hrest := ih (List.cons_ne_nil _ _) fun u hu => h u (List.mem_cons_of_mem _ hu)
      rw [List.map_cons, List.map_cons, List.intercalate_cons_cons, ← List.map_cons, comma]
      rw [List.append_assoc, List.append_assoc, List.cons_append, List.cons_append,
        List.nil_append, tokens_text e hv rfl, tokens_blank]
      rw [← comma, hrest, Option.map_map]
      rfl

/-- **The row of some values is read as these values.** -/
theorem rowsOf_tokensFrom {vs : List Value} (hne : vs ≠ []) (before : List Value)
    (ts : List Token) :
    rowsOf (.value before) (tokensFrom vs ++ ts) = (rowsOf .next ts).map ((before ++ vs) :: ·) := by
  induction vs generalizing before with
  | nil => exact absurd rfl hne
  | cons v vs ih =>
    cases vs with
    | nil => rfl
    | cons w vs =>
      rw [tokensFrom, List.cons_append, List.cons_append, rowsOf, rowsOf,
        ih (List.cons_ne_nil _ _), List.append_assoc]
      · rfl
      · simp

/-! ## What the row of a record says -/

/-- The word for a number: its plain decimal, or the words for what is no finite number. -/
def numberWord (x : Float) : List Char :=
  match Binary64.ofFloat x with
  | .nan => "nan".toList
  | .infinite negative => if negative then "-inf".toList else "inf".toList
  | .finite .. => NumberLayout.plain.chars x

/-- A number is written in a statement as its word. -/
theorem chars_literal (x : Float) : NumberLayout.literal.chars x = numberWord x := by
  unfold numberWord
  split
  case h_1 h => rw [NumberLayout.chars, h]; rfl
  case h_2 negative h => rw [NumberLayout.chars, h]; cases negative <;> rfl
  case h_3 h => rw [NumberLayout.chars, NumberLayout.chars, h]; rfl

/-- What numbers are written with separates nothing. -/
theorem isBare_of_isNumeral {c : Char} (h : NumberLayout.isNumeral c = true) :
    isBare c = true := by
  have hne (d : Char) (hd : NumberLayout.isNumeral d = false) : c ≠ d := by
    rintro rfl
    exact Bool.noConfusion (h.symm.trans hd)
  simp [isBare, mark?, hne '\'' rfl, hne '\\' rfl, hne ' ' rfl, hne '(' rfl, hne ')' rfl,
    hne ',' rfl]

/-- **The word of a number stands clear** of what comes after it. -/
theorem clear_numberWord (x : Float) : (Value.bare (numberWord x)).Clear := by
  rw [← chars_literal]
  constructor
  · unfold NumberLayout.chars
    split
    · decide
    · next negative _ => cases negative <;> decide
    · exact List.append_ne_nil_of_right_ne_nil _ (NumberLayout.magnitude_ne_nil _ _)
  · intro c hc
    rcases NumberLayout.isNumeral_or_of_mem_chars hc with h | h | ⟨negative, h⟩
    · exact isBare_of_isNumeral h
    · exact List.all_eq_true.1 (show "nan".toList.all isBare = true by decide) c h
    · cases negative
      · exact List.all_eq_true.1 (show "inf".toList.all isBare = true by decide) c h
      · exact List.all_eq_true.1 (show "-inf".toList.all isBare = true by decide) c h

/-- A string without escapes is written between quotes as it is. -/
theorem literal_of_forall {s : List Char} (h : ∀ c ∈ s, escapedChar c = [c]) :
    literal s = '\'' :: s ++ ['\''] := by
  have hs : s.flatMap escapedChar = s := by
    induction s with
    | nil => rfl
    | cons c s ih =>
      rw [List.flatMap_cons, h c List.mem_cons_self, List.singleton_append,
        ih fun d hd => h d (List.mem_cons_of_mem _ hd)]
  rw [literal, escaped_eq_flatMap, hs]

/-- Digits and the marks between the parts of a time need no escape. -/
theorem escapedChar_of_mem_sqlText {t : Timestamp} {c : Char} (h : c ∈ t.sqlText) :
    escapedChar c = [c] := by
  rcases Timestamp.isDigit_or_of_mem_sqlText h with hdigit | hmark
  · have hne (d : Char) (hd : Decimal.isDigit d = false) : c ≠ d := by
      rintro rfl
      exact Bool.noConfusion (hdigit.symm.trans hd)
    rw [escapedChar, if_neg (hne '\\' rfl), if_neg (hne '\'' rfl)]
  · have hmarks : ['-', '+', ' ', ':', '.'].all (fun d => escapedChar d = [d]) = true := by decide
    exact of_decide_eq_true (List.all_eq_true.1 hmarks c hmark)

/-- **What the row of a record says**: node and probe as they are, the time of the measurement,
its values, and whether they are means. -/
def said (r : Record) : List Value :=
  [.quoted r.node.toList, .quoted r.probe.toList, .quoted r.time.sqlText,
    .bare (numberWord r.latency), .bare (numberWord r.loss), .bare (numberWord r.jitter),
    .bare [if r.aggregated then '1' else '0']]

/-- A row says something. -/
theorem said_ne_nil (r : Record) : said r ≠ [] := List.cons_ne_nil _ _

/-- The values of a row are written as they are said. -/
theorem values_eq_map_text (r : Record) : values r = (said r).map Value.text := by
  have htime : literal r.time.sqlText = '\'' :: r.time.sqlText ++ ['\''] :=
    literal_of_forall fun _ hc => escapedChar_of_mem_sqlText hc
  simp only [values, said, List.map_cons, List.map_nil, Value.text, htime, chars_literal]

/-- Each value stands clear of what comes after it. -/
theorem clear_of_mem_said {r : Record} {v : Value} (h : v ∈ said r) : v.Clear := by
  simp only [said, List.mem_cons, List.not_mem_nil, or_false] at h
  rcases h with rfl | rfl | rfl | rfl | rfl | rfl | rfl
  · trivial
  · trivial
  · trivial
  · exact clear_numberWord _
  · exact clear_numberWord _
  · exact clear_numberWord _
  · refine ⟨List.cons_ne_nil _ _, fun c hc => ?_⟩
    rw [List.mem_singleton.1 hc]
    split <;> decide

/-- **A row is read as what it says**, and what follows it is read on its own. -/
theorem tokens_row (r : Record) (rest : List Char) :
    tokens e (.word []) (row r ++ rest)
      = (tokens e (.word []) rest).map fun ts => .opening :: tokensFrom (said r) ++ ts := by
  have hvalues := tokens_values e (said_ne_nil r) (fun _ hv => clear_of_mem_said hv) rest
  rw [row, values_eq_map_text, List.cons_append, List.cons_append, List.append_assoc,
    tokens_mark e rfl, List.singleton_append, hvalues, Option.map_map]
  rfl

/-! ## Statements -/

/-- What a statement holds after some records on top of rows it held before. -/
theorem foldl_push_of_pos {s : Statement} (h : 0 < s.rows) (records : List Record) :
    records.foldl push s
      = ⟨s.sql ++ records.flatMap fun r => comma ++ row r, s.rows + records.length⟩ := by
  induction records generalizing s with
  | nil => simp
  | cons r records ih =>
    rw [List.foldl_cons, ih (s := s.push r) (Nat.succ_pos _), push, if_neg (Nat.ne_of_gt h)]
    simp only [List.flatMap_cons, List.append_assoc, List.length_cons]
    congr 1
    omega

/-- The tokens of rows that come after another. -/
theorem tokens_flatMap_row (records : List Record) :
    tokens e (.word []) (records.flatMap fun r => comma ++ row r)
      = some (records.flatMap fun r => .comma :: .opening :: tokensFrom (said r)) := by
  induction records with
  | nil => rfl
  | cons r records ih =>
    rw [List.flatMap_cons, List.append_assoc, comma, List.cons_append, List.cons_append,
      List.nil_append, tokens_mark e rfl, tokens_blank, tokens_row]
    rw [← comma, ih]
    rfl

/-- Rows that come after another are read in order. -/
theorem rowsOf_flatMap_said (records : List Record) :
    rowsOf .next (records.flatMap fun r => .comma :: .opening :: tokensFrom (said r))
      = some (records.map said) := by
  induction records with
  | nil => rfl
  | cons r records ih =>
    rw [List.flatMap_cons, List.cons_append, List.cons_append, rowsOf, rowsOf,
      rowsOf_tokensFrom (said_ne_nil r), ih]
    rfl

/-- **A statement cannot be broken by its data.** Whatever the table and the records, the text of
their statement is the head of an insertion and then rows, and a reader that ends literals at quotes
and takes a backslash for an escape finds in them one row for each record, in the order of the
records, and nothing else (`said`): node and probe character by character, a time that reads as
that of the record cut to the millisecond, the words of its three values, and 1 or 0. The statement
counts as many rows.

The time is read as a clock shows it, which differs from the timestamp only where that has an
overlong second in the middle of a minute. -/
theorem read_foldl_push (table : String) (records : List Record) :
    ∃ rows,
      (records.foldl push (into table)).sql
          = ("INSERT INTO " ++ table ++ " (" ++ columns ++ ") VALUES ").toList ++ rows ∧
        e.read rows = some (records.map said) ∧
        (∀ t : Timestamp, Timestamp.ofText? (t.sqlText ++ ['Z']) = some t.asShown.toMillis ∧
          (t.IsRegular → t.asShown = t)) ∧
        (records.foldl push (into table)).rows = records.length := by
  have htime (t : Timestamp) : Timestamp.ofText? (t.sqlText ++ ['Z']) = some t.asShown.toMillis ∧
      (t.IsRegular → t.asShown = t) := ⟨t.ofText?_sqlText, Timestamp.asShown_of_isRegular⟩
  cases records with
  | nil => exact ⟨[], (List.append_nil _).symm, rfl, htime, rfl⟩
  | cons r records =>
    have hpush := foldl_push_of_pos (s := (into table).push r) (Nat.succ_pos _) records
    refine ⟨row r ++ records.flatMap fun r => comma ++ row r, ?_, ?_, htime, ?_⟩
    · have hfirst : ((into table).push r).sql = (into table).sql ++ row r :=
        congrArg (· ++ row r) (List.append_nil _)
      rw [List.foldl_cons, hpush, hfirst, List.append_assoc]
      rfl
    · rw [Escapes.read, tokens_row, tokens_flatMap_row, Option.map_some, Option.bind_eq_bind,
        Option.bind_some, List.cons_append, rowsOf, rowsOf_tokensFrom (said_ne_nil r),
        rowsOf_flatMap_said]
      rfl
    · rw [List.foldl_cons, hpush, push, List.length_cons]
      exact Nat.add_comm _ _

/-- A record with a node that tries to end its literal, and a probe that tries to keep it open. -/
def hostile : Record :=
  ⟨"a', 'b'), ('", "\\", .ofSecond 1714557600 (by decide) (by decide), 0, 0, 0, true⟩

/-- Both are read as what they are, twice in one statement. -/
theorem read_foldl_push_hostile :
    let s := [hostile, hostile].foldl push (into "metrics")
    let read : List Value :=
      [.quoted "a', 'b'), ('".toList, .quoted ['\\'],
        .quoted "2024-05-01 10:00:00.000".toList, .bare ['0'], .bare ['0'], .bare ['0'],
        .bare ['1']]
    ∃ rows, s.sql = ("INSERT INTO " ++ "metrics" ++ " (" ++ columns ++ ") VALUES ").toList ++ rows ∧
      Escapes.ofC.read rows = some [read, read] ∧ s.rows = 2 := by
  intro s read
  obtain ⟨rows, hsql, hread, -, hrows⟩ := read_foldl_push Escapes.ofC "metrics" [hostile, hostile]
  have hsaid : said hostile = read := by decide +kernel
  refine ⟨rows, hsql, ?_, hrows⟩
  rw [hread, List.map_cons, List.map_cons, List.map_nil, hsaid]

end Statement

end LinkQuality
