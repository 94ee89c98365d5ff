import DocumentBase.Proofs.Query.Gathering
import DocumentBase.Proofs.Query.Overlay

/-!
# DocumentBase.Proofs.Query.Expressible

Which queries can be written.  A clause needs a path and a value, and a quote cannot be written at
all, for there are no escapes: a name or a value ends before a quote, in quotes as well as without.
That is all.  Every other clause can be written, whatever else its parts hold, by putting all of
them in quotes (`Query.write`).

So parsing leads to exactly the queries of such clauses (`parse_iff_expressible`): the parts of a
parsed clause are tokens of the text, and a token has no quote since it has a spelling.
-/

namespace DocumentBase

/-- A clause that can be written: it has a path and a value, and there is no quote in its parts. -/
structure Clause.IsExpressible (clause : Clause) : Prop where
  complete : clause.IsComplete
  names : ∀ name ∈ clause.path, '"' ∉ name.toList
  literal : '"' ∉ clause.literal.toList

/-! ## Writing -/

/-- A text between quotes. -/
def inQuotes (text : String) : String := "\"" ++ text ++ "\""

/-- The text of a clause with all its parts in quotes. -/
def Clause.write (clause : Clause) : String :=
  display ⟨clause.path.map inQuotes, clause.op, inQuotes clause.literal⟩

/-- The text of a query with all parts of its clauses in quotes. -/
def Query.write (query : Query) : String := " ".intercalate (query.clauses.map Clause.write)

theorem toList_inQuotes (text : String) :
    (inQuotes text).toList = '"' :: (text.toList ++ ['"']) := by
  simp [inQuotes]

/-- An expressible clause is spelled by the text that is written for it. -/
theorem Clause.IsExpressible.spelling {clause : Clause} (h : clause.IsExpressible) :
    ClauseSpelling clause clause.write.toList := by
  have names : ∀ name ∈ clause.path, NameSpelling name (inQuotes name).toList := by
    intro name held
    rw [toList_inQuotes]
    exact .quoted (h.names name held)
  have literal : ValueSpelling clause.op clause.literal (inQuotes clause.literal).toList := by
    rw [toList_inQuotes]
    exact .quoted h.complete.2 h.literal
  exact spelling_displayed h.complete.1 names literal

/-- What is written of clauses is parsed as these clauses. -/
theorem Query.parse_write {query : Query} (h : ∀ clause ∈ query.clauses, clause.IsExpressible) :
    parse query.write = .ok query := by
  obtain ⟨clauses⟩ := query
  cases clauses with
  | nil => rfl
  | cons clause clauses =>
    exact parse_joined (by simp) fun clause held => (h clause held).spelling

/-! ## Parsing -/

/-- The text of a name or of a value. -/
def Token.text? : Token → Option String
  | segment text | value text => some text
  | operator _ | eof => none

/-- A name that can be spelled has no quote in it. -/
theorem NameSpelling.plain {name : String} {chars : List Char} (h : NameSpelling name chars) :
    '"' ∉ name.toList := by
  cases h with
  | bare bare => exact fun held => (bare.2 _ held).2.2.2 rfl
  | quoted plain => exact plain

/-- What has a spelling holds no quote. -/
theorem TokenSpelling.plain {token : Token} {chars : List Char} (h : TokenSpelling token chars) :
    ∀ text ∈ token.text?, '"' ∉ text.toList := by
  cases h with
  | segment spelled =>
    rintro _ ⟨⟩
    exact spelled.plain
  | operator => simp [Token.text?]
  | bareValue _ inside =>
    rintro _ ⟨⟩ held
    exact (inside _ held).2.2 rfl
  | quotedValue plain =>
    rintro _ ⟨⟩
    exact plain

/-- No token that lies over a text has a quote in it: a word ends in front of one, and so does a
quoted text. -/
theorem Overlay.plain {tokens : List Token} {chars : List Char} (h : Overlay tokens chars) :
    ∀ token ∈ tokens, ∀ text ∈ token.text?, '"' ∉ text.toList := by
  induction h with
  | gap => simp
  | token _ spelled _ ih => exact List.forall_mem_cons.2 ⟨spelled.plain, ih⟩

theorem Token.plain_of_ofText {text : String} {tokens : List Token}
    (lexed : ofText text = .ok tokens) :
    ∀ token ∈ tokens, ∀ part ∈ token.text?, '"' ∉ part.toList := by
  obtain ⟨body, rfl, -, overlay⟩ := overlay_of_ofText lexed
  intro token held
  rcases List.mem_append.1 held with held | held
  · exact overlay.plain token held
  · rw [List.mem_singleton.1 held]
    simp [text?]

namespace Clause.GatheredFrom

variable {clause : Clause} {group : List Token}

theorem segment_mem (h : clause.GatheredFrom group) {name : String} (held : name ∈ clause.path) :
    .segment name ∈ group := by
  obtain ⟨-, gathered, -⟩ := h
  next parts =>
  have names : parts.filterMap Token.name? = clause.path := congrArg PartialClause.path gathered
  rw [← names, List.mem_filterMap] at held
  obtain ⟨token, inside, same⟩ := held
  cases token with
  | segment text =>
    cases same
    exact List.mem_append_left _ inside
  | operator | value | eof => cases same

theorem value_mem (h : clause.GatheredFrom group) : .value clause.literal ∈ group := by
  obtain ⟨-, -, -⟩ := h
  exact List.mem_append_right _ List.mem_cons_self

end Clause.GatheredFrom

namespace Query

variable {text : String} {query : Query}

/-- The parts of a parsed clause are tokens of the text. -/
theorem isExpressible_of_parse (parsed : parse text = .ok query) :
    ∀ clause ∈ query.clauses, clause.IsExpressible := by
  intro clause held
  obtain ⟨tokens, lexed, group, within, made⟩ := exists_group parsed held
  have plain := Token.plain_of_ofText lexed
  exact ⟨made.complete, fun name there => plain _ (within (made.segment_mem there)) _ rfl,
    plain _ (within made.value_mem) _ rfl⟩

end Query

/-- Some clauses are what some text is parsed as exactly when each of them has a path and a value
and no quote in its parts; then they are what is parsed of their text in quotes.  Only the empty
text has no clauses, and every text that is not parsed as such clauses is refused as an invalid
query. -/
theorem parse_iff_expressible :
    (∀ query : Query, (∃ text, Query.parse text = .ok query) ↔
      ∀ clause ∈ query.clauses, clause.IsExpressible) ∧
    (∀ query : Query, Query.parse query.write = .ok query ↔
      ∀ clause ∈ query.clauses, clause.IsExpressible) ∧
    (∀ text, Query.parse text = .ok .empty ↔ text = "") ∧
    ∀ text, (∃ query, Query.parse text = .ok query ∧
        ∀ clause ∈ query.clauses, clause.IsExpressible) ∨
      ∃ reason, Query.parse text = .error reason ∧
        (Error.query reason).report.kind = .invalidQuery := by
  refine ⟨fun query => ⟨?_, fun expressible => ⟨_, Query.parse_write expressible⟩⟩,
    fun query => ⟨Query.isExpressible_of_parse, Query.parse_write⟩, fun text => ⟨?_, ?_⟩, ?_⟩
  · rintro ⟨text, parsed⟩
    exact Query.isExpressible_of_parse parsed
  · intro parsed
    by_contra nonempty
    exact Query.ne_nil_of_parse nonempty parsed rfl
  · rintro rfl
    rfl
  · intro text
    cases parsed : Query.parse text with
    | ok query => exact .inl ⟨query, rfl, Query.isExpressible_of_parse parsed⟩
    | error reason => exact .inr ⟨reason, rfl, rfl⟩

/-- An empty name, signs and separators can all be written; a quote cannot. -/
theorem parse_iff_expressible_signs :
    Query.parse "\"\".\"a b.c:\":>\"<1 \" \"x\":\">\""
      = .ok ⟨[⟨["", "a b.c:"], .gt, "<1 "⟩, ⟨["x"], .eq, ">"⟩]⟩ ∧
    ¬ ∃ text, Query.parse text = .ok ⟨[⟨["a"], .eq, "\""⟩]⟩ := by
  obtain ⟨image, written, -⟩ := parse_iff_expressible
  constructor
  · refine (written ⟨[⟨["", "a b.c:"], .gt, "<1 "⟩, ⟨["x"], .eq, ">"⟩]⟩).2 fun clause held => ?_
    simp only [List.mem_cons, List.not_mem_nil, or_false] at held
    rcases held with rfl | rfl
    · exact ⟨by simp [Clause.IsComplete], by simp, by simp⟩
    · exact ⟨by simp [Clause.IsComplete], by simp, by simp⟩
  · intro some_text
    have expressible := (image _).1 some_text _ List.mem_cons_self
    exact expressible.literal (by simp)

end DocumentBase
