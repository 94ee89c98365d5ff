import DocumentBase.Proofs.Query.Lexed

/-!
# DocumentBase.Proofs.Query.Spelling

Every spelling of a query is read as that query.  A name or a value can be written as it is or
between quotes, there can be spaces in front, behind, and as many as one likes between two clauses;
whatever is chosen in each place, parsing gives the clauses in their order (`parse_spelling`).

    query  := spaces clause (space spaces clause)* spaces
    clause := path ":" ("" | "<" | ">") value
    path   := name ("." name)*
-/

namespace DocumentBase

/-! ## Spellings -/

/-- A name that can be written as it is. -/
def IsBareName (name : String) : Prop :=
  name ≠ "" ∧ ∀ c ∈ name.toList, c ≠ ' ' ∧ c ≠ '.' ∧ c ≠ ':' ∧ c ≠ '"'

/-- A value that can be written as it is: after the sign of equality, which is none, it must not be
taken for another comparison. -/
def IsBareValue (op : Operator) (value : String) : Prop :=
  value ≠ "" ∧ (∀ c ∈ value.toList, c ≠ ' ' ∧ c ≠ ':' ∧ c ≠ '"') ∧
    (op = .eq → ∀ c ∈ value.toList.head?, c ≠ '<' ∧ c ≠ '>')

/-- The spellings of a name: as it is, or between quotes. -/
inductive NameSpelling (name : String) : List Char → Prop where
  | bare : IsBareName name → NameSpelling name name.toList
  | quoted : '"' ∉ name.toList → NameSpelling name ('"' :: (name.toList ++ ['"']))

/-- The spellings of a path: its names with a point between neighbours. -/
inductive PathSpelling : List String → List Char → Prop where
  | last {name : String} {chars : List Char} : NameSpelling name chars → PathSpelling [name] chars
  | more {name : String} {names : List String} {chars others : List Char} :
      NameSpelling name chars → PathSpelling names others →
      PathSpelling (name :: names) (chars ++ '.' :: others)

/-- The spellings of a value, which is not empty: as it is, or between quotes. -/
inductive ValueSpelling (op : Operator) (value : String) : List Char → Prop where
  | bare : IsBareValue op value → ValueSpelling op value value.toList
  | quoted : value ≠ "" → '"' ∉ value.toList →
      ValueSpelling op value ('"' :: (value.toList ++ ['"']))

/-- The spellings of a clause. -/
inductive ClauseSpelling (clause : Clause) : List Char → Prop where
  | mk {path value : List Char} : PathSpelling clause.path path →
      ValueSpelling clause.op clause.literal value →
      ClauseSpelling clause (path ++ ':' :: (clause.op.signChars ++ value))

/-- The spellings of some clauses, with one or more spaces between neighbours. -/
inductive ClausesSpelling : List Clause → List Char → Prop where
  | last {clause : Clause} {chars : List Char} :
      ClauseSpelling clause chars → ClausesSpelling [clause] chars
  | more {clause : Clause} {clauses : List Clause} {chars others : List Char} (spaces : Nat) :
      ClauseSpelling clause chars → ClausesSpelling clauses others →
      ClausesSpelling (clause :: clauses) (chars ++ (List.replicate (spaces + 1) ' ' ++ others))

/-- The spellings of a query: those of its clauses, with any number of spaces around them. -/
inductive QuerySpelling (clauses : List Clause) : List Char → Prop where
  | mk {chars : List Char} (front back : Nat) : ClausesSpelling clauses chars →
      QuerySpelling clauses (List.replicate front ' ' ++ (chars ++ List.replicate back ' '))

/-- The tokens of a clause. -/
def Clause.tokens (clause : Clause) : List Token :=
  clause.path.map .segment ++ [.operator clause.op, .value clause.literal]

/-! ## Spellings of a text -/

section Spellings

variable {text : List Char} {op : Operator}

theorem NameSpelling.of_word (nonempty : text ≠ [])
    (inside : ∀ c ∈ text, Mode.path.endsWord c = false) :
    NameSpelling (String.ofList text) text := by
  have bare : IsBareName (String.ofList text) := by
    refine ⟨by simpa using nonempty, fun c held => ?_⟩
    simpa [Mode.endsWord, and_assoc, and_comm, and_left_comm] using inside c (by simpa using held)
  simpa using NameSpelling.bare bare

theorem NameSpelling.of_quoted (plain : '"' ∉ text) :
    NameSpelling (String.ofList text) ('"' :: (text ++ ['"'])) := by
  simpa using @NameSpelling.quoted (String.ofList text) (by simpa using plain)

/-- A word spells itself as a value, if it does not begin as a sign would go on. -/
theorem ValueSpelling.of_word (nonempty : text ≠ [])
    (inside : ∀ c ∈ text, Mode.value.endsWord c = false)
    (plain : op = .eq → ∃ c ∈ text.head?, c ≠ '<' ∧ c ≠ '>') :
    ValueSpelling op (String.ofList text) text := by
  have bare : IsBareValue op (String.ofList text) := by
    refine ⟨by simpa using nonempty, fun c held => ?_, fun equal c first => ?_⟩
    · simpa [Mode.endsWord, and_assoc] using inside c (by simpa using held)
    · obtain ⟨c', first', less, greater⟩ := plain equal
      rw [String.toList_ofList, first'] at first
      cases first
      exact ⟨less, greater⟩
  simpa using ValueSpelling.bare bare

theorem ValueSpelling.of_quoted (nonempty : String.ofList text ≠ "") (plain : '"' ∉ text) :
    ValueSpelling op (String.ofList text) ('"' :: (text ++ ['"'])) := by
  simpa using @ValueSpelling.quoted op (String.ofList text) nonempty (by simpa using plain)

end Spellings

/-! ## Lexing -/

/- Where a piece is written without quotes, it must be ended by what comes behind it.  Each lemma
asks for that, and the spellings provide it: behind a name there is a point or a colon, behind a
value a space or the end. -/

theorem toList_ne_nil {text : String} (h : text ≠ "") : text.toList ≠ [] :=
  mt String.toList_eq_nil_iff.1 h

theorem IsBareName.inside {name : String} (h : IsBareName name) :
    ∀ c ∈ name.toList, Mode.path.endsWord c = false := by
  intro c hc
  obtain ⟨space, point, colon, quote⟩ := h.2 c hc
  simp [Mode.endsWord, space, point, colon, quote]

theorem IsBareValue.inside {op : Operator} {value : String} (h : IsBareValue op value) :
    ∀ c ∈ value.toList, Mode.value.endsWord c = false := by
  intro c hc
  obtain ⟨space, colon, quote⟩ := h.2.1 c hc
  simp [Mode.endsWord, space, colon, quote]

/-- Whether a name that is written in front of a text ends there: by its closing quote, or by the
next character. -/
def EndsBefore (name rest : List Char) : Prop :=
  name.head? = some '"' ∨ ∀ c ∈ rest.head?, Mode.path.endsWord c = true

section Lexing

variable {chars rest : List Char} {tokens : List Token} {name value : String} {op : Operator}

/-- A spelled name is lexed as itself, if it ends where the next piece begins. -/
theorem NameSpelling.lexes (spelled : NameSpelling name chars) (ends : EndsBefore chars rest)
    (tail : Lexes .path rest tokens) :
    Lexes .path (chars ++ rest) (.segment name :: tokens) := by
  cases spelled with
  | bare bare =>
    have stop : ∀ c ∈ rest.head?, Mode.path.endsWord c = true := by
      refine ends.resolve_left fun first => ?_
      exact (bare.2 '"' (List.mem_of_head? first)).2.2.2 rfl
    simpa [Mode.token] using Lexes.word (toList_ne_nil bare.1) bare.inside stop tail
  | quoted plain => simpa [Mode.token] using Lexes.quoted plain tail

theorem PathSpelling.lexes {path : List String} (spelled : PathSpelling path chars)
    (tail : Lexes .path (':' :: rest) tokens) :
    Lexes .path (chars ++ ':' :: rest) (path.map .segment ++ tokens) := by
  induction spelled with
  | last name => exact name.lexes (.inr (by simp [Mode.endsWord])) tail
  | more name _ ih =>
    have front := name.lexes (.inr (by simp [Mode.endsWord])) (.point ih)
    simpa using front

theorem ValueSpelling.lexes (spelled : ValueSpelling op value chars)
    (ends : ∀ c ∈ rest.head?, Mode.value.endsWord c = true) (tail : Lexes .value rest tokens) :
    Lexes .value (chars ++ rest) (.value value :: tokens) := by
  cases spelled with
  | bare bare => simpa [Mode.token] using Lexes.word (toList_ne_nil bare.1) bare.inside ends tail
  | quoted _ plain => simpa [Mode.token] using Lexes.quoted plain tail

/-- A value is never empty, and after the sign of equality it is not taken for a comparison. -/
theorem ValueSpelling.head (spelled : ValueSpelling op value chars) :
    ∃ first more, chars = first :: more ∧ (op = .eq → first ≠ '<' ∧ first ≠ '>') := by
  cases spelled with
  | bare bare =>
    obtain ⟨first, more, split⟩ := List.exists_cons_of_ne_nil (toList_ne_nil bare.1)
    exact ⟨first, more, split, fun equal => bare.2.2 equal first (by simp [split])⟩
  | quoted _ _ => exact ⟨'"', value.toList ++ ['"'], rfl, by simp⟩

/-- A colon with its sign, and the value that is compared with. -/
theorem ValueSpelling.lexes_comparison (spelled : ValueSpelling op value chars)
    (ends : ∀ c ∈ rest.head?, Mode.value.endsWord c = true) (tail : Lexes .value rest tokens) :
    Lexes .path (':' :: (op.signChars ++ (chars ++ rest)))
      (.operator op :: .value value :: tokens) := by
  obtain ⟨first, more, split, plain⟩ := spelled.head
  exact .colon (by simpa [split] using plain) (spelled.lexes ends tail)

/-- A spelled clause is lexed as its names, its operator and its value. -/
theorem ClauseSpelling.lexes {clause : Clause} (spelled : ClauseSpelling clause chars)
    (ends : ∀ c ∈ rest.head?, Mode.value.endsWord c = true) (tail : Lexes .value rest tokens) :
    Lexes .path (chars ++ rest) (clause.tokens ++ tokens) := by
  obtain ⟨path, value⟩ := spelled
  have front := path.lexes (value.lexes_comparison ends tail)
  simpa [Clause.tokens] using front

/-- Spelled clauses are lexed as the tokens of each, for the spaces between them make none. -/
theorem ClausesSpelling.lexes {clauses : List Clause} (spelled : ClausesSpelling clauses chars)
    (ends : ∀ c ∈ rest.head?, Mode.value.endsWord c = true) (tail : Lexes .value rest tokens) :
    Lexes .path (chars ++ rest) (clauses.flatMap Clause.tokens ++ tokens) := by
  induction spelled with
  | last clause => simpa using clause.lexes ends tail
  | more spaces clause _ ih =>
    have front := clause.lexes (by simp [List.replicate_succ, Mode.endsWord]) (ih.of_spaces spaces)
    simpa using front

end Lexing

/-- The tokens of a spelling are those of its clauses, and the end. -/
theorem Token.ofText_spelling {clauses : List Clause} {text : String}
    (h : QuerySpelling clauses text.toList) :
    Token.ofText text = .ok (clauses.flatMap Clause.tokens ++ [.eof]) := by
  generalize split : text.toList = all at h
  obtain ⟨front, back, spelled⟩ := h
  have tail : Lexes .value (List.replicate back ' ') [.eof] := by
    cases back with
    | zero => exact .done
    | succ back => simpa using (@Lexes.done .path).of_spaces back
  have ends : ∀ c ∈ (List.replicate back ' ').head?, Mode.value.endsWord c = true := by
    cases back <;> simp [List.replicate_succ, Mode.endsWord]
  have lexes := spelled.lexes ends tail
  exact ofText_of_lexes split lexes.head_ne_space lexes

/-! ## Assembling -/

/-- A clause that has a path and a value. -/
def Clause.IsComplete (clause : Clause) : Prop := clause.path ≠ [] ∧ clause.literal ≠ ""

/-- The names of a path are gathered one after the other. -/
theorem Clause.assemble_path (gathered : PartialClause) (path : List String)
    (rest : List Token) :
    assemble gathered (path.map .segment ++ rest)
      = assemble { gathered with path := gathered.path ++ path } rest := by
  induction path generalizing gathered with
  | nil => simp
  | cons name path ih =>
    rw [List.map_cons, List.cons_append, assemble, ih]
    simp

/-- The tokens of a complete clause are assembled to it. -/
theorem Clause.assemble_tokens {clause : Clause} (complete : clause.IsComplete)
    (rest : List Token) :
    assemble {} (clause.tokens ++ rest) = (assemble {} rest).map (clause :: ·) := by
  obtain ⟨path, value⟩ := complete
  have finish : PartialClause.finish ⟨clause.path, some clause.op⟩ clause.literal
      = .ok clause := by
    simp [PartialClause.finish, path, value]
  rw [tokens, List.append_assoc, assemble_path]
  simp [assemble, finish]

theorem Clause.ofTokens_tokens {clauses : List Clause}
    (complete : ∀ clause ∈ clauses, clause.IsComplete) :
    ofTokens (clauses.flatMap tokens ++ [.eof]) = .ok clauses := by
  unfold ofTokens
  induction clauses with
  | nil => rfl
  | cons clause clauses ih =>
    have tail := ih fun clause hc => complete clause (List.mem_cons_of_mem _ hc)
    rw [List.flatMap_cons, List.append_assoc, assemble_tokens (complete clause List.mem_cons_self),
      tail]
    rfl

theorem PathSpelling.ne_nil {path : List String} {chars : List Char} (h : PathSpelling path chars) :
    path ≠ [] := by
  cases h <;> simp

/-- No spelling is one of the empty value. -/
theorem ValueSpelling.nonempty {op : Operator} {value : String} {chars : List Char}
    (h : ValueSpelling op value chars) : value ≠ "" := by
  cases h with
  | bare bare => exact bare.1
  | quoted nonempty _ => exact nonempty

/-- Only complete clauses have spellings. -/
theorem ClauseSpelling.complete {clause : Clause} {chars : List Char}
    (h : ClauseSpelling clause chars) : clause.IsComplete := by
  cases h with
  | mk path_ok value_ok => exact ⟨path_ok.ne_nil, value_ok.nonempty⟩

/-- Clauses that can be spelled are complete, and there is at least one. -/
theorem ClausesSpelling.complete {clauses : List Clause} {chars : List Char}
    (h : ClausesSpelling clauses chars) :
    clauses ≠ [] ∧ ∀ clause ∈ clauses, clause.IsComplete := by
  induction h with
  | last clause => simpa using clause.complete
  | more spaces clause _ ih => simpa using ⟨clause.complete, ih.2⟩

/-! ## Parsing -/

/-- A spelling is never empty, and has clauses, all complete. -/
theorem QuerySpelling.complete {clauses : List Clause} {chars : List Char}
    (h : QuerySpelling clauses chars) :
    chars ≠ [] ∧ clauses ≠ [] ∧ ∀ clause ∈ clauses, clause.IsComplete := by
  cases h with
  | @mk chars front back clauses_ok =>
    have inside : chars ≠ [] := by
      cases clauses_ok with
      | last clause =>
        cases clause
        simp
      | more spaces clause _ => simp [List.replicate_succ]
    exact ⟨by simp [inside], clauses_ok.complete⟩

/-- A text that spells some clauses is parsed to them. -/
theorem Query.parse_of_spelling {clauses : List Clause} {text : String}
    (h : QuerySpelling clauses text.toList) : parse text = .ok ⟨clauses⟩ := by
  obtain ⟨some_char, some_clause, complete⟩ := h.complete
  have nonempty : ¬ text.isEmpty := by simpa [String.isEmpty_iff] using some_char
  have tokens := Token.ofText_spelling h
  obtain ⟨clause, others, rfl⟩ := List.exists_cons_of_ne_nil some_clause
  rw [parse, if_neg nonempty, tokens]
  dsimp only
  rw [Clause.ofTokens_tokens complete]

/-! ## Displayed clauses -/

/-- A clause all of whose parts can be written as they are. -/
def Clause.IsBare (clause : Clause) : Prop :=
  clause.path ≠ [] ∧ (∀ name ∈ clause.path, IsBareName name) ∧ IsBareValue clause.op clause.literal

/-- Names that are spelled in some way, with a point between neighbours. -/
theorem pathSpelling_pathKey {path : List String} (nonempty : path ≠ []) {write : String → String}
    (spelled : ∀ name ∈ path, NameSpelling name (write name).toList) :
    PathSpelling path (pathKey (path.map write)).toList := by
  induction path with
  | nil => exact absurd rfl nonempty
  | cons name path ih =>
    have first := spelled name List.mem_cons_self
    cases path with
    | nil => exact .last first
    | cons next path =>
      have others := ih (by simp) fun name hn => spelled name (List.mem_cons_of_mem _ hn)
      simpa [pathKey] using PathSpelling.more first others

/-- What is displayed of a clause, its names and its value being spelled in some way. -/
theorem Clause.spelling_displayed {clause : Clause} (nonempty : clause.path ≠ [])
    {write : String → String} {value : String}
    (names : ∀ name ∈ clause.path, NameSpelling name (write name).toList)
    (literal : ValueSpelling clause.op clause.literal value.toList) :
    ClauseSpelling clause (display ⟨clause.path.map write, clause.op, value⟩).toList := by
  have spelling := ClauseSpelling.mk (pathSpelling_pathKey nonempty names) literal
  have text : (display ⟨clause.path.map write, clause.op, value⟩).toList
      = (pathKey (clause.path.map write)).toList ++
        ':' :: (clause.op.signChars ++ value.toList) := by
    unfold display
    cases clause.op <;> simp [Operator.signChars, Operator.symbol]
  rw [text]
  exact spelling

/-- What is displayed of a clause that can be written as it is. -/
theorem Clause.spelling_display {clause : Clause} (bare : clause.IsBare) :
    ClauseSpelling clause clause.display.toList := by
  obtain ⟨nonempty, names, value⟩ := bare
  have spelling := @spelling_displayed clause nonempty id clause.literal
    (fun name hn => .bare (names name hn)) (.bare value)
  rwa [List.map_id] at spelling

/-- Clauses that are spelled in some way, with a space between neighbours. -/
theorem Clause.spelling_joined {clauses : List Clause} (nonempty : clauses ≠ [])
    {write : Clause → String}
    (spelled : ∀ clause ∈ clauses, ClauseSpelling clause (write clause).toList) :
    ClausesSpelling clauses (" ".intercalate (clauses.map write)).toList := by
  induction clauses with
  | nil => exact absurd rfl nonempty
  | cons clause clauses ih =>
    have first := spelled clause List.mem_cons_self
    cases clauses with
    | nil => simpa using ClausesSpelling.last first
    | cons next clauses =>
      have others := ih (by simp) fun clause hc => spelled clause (List.mem_cons_of_mem _ hc)
      simpa [String.intercalate_cons_cons] using ClausesSpelling.more 0 first others

/-- Clauses joined by spaces are parsed as these clauses, however they are spelled. -/
theorem Query.parse_joined {clauses : List Clause} (nonempty : clauses ≠ [])
    {write : Clause → String}
    (spelled : ∀ clause ∈ clauses, ClauseSpelling clause (write clause).toList) :
    parse (" ".intercalate (clauses.map write)) = .ok ⟨clauses⟩ := by
  have spelling := QuerySpelling.mk 0 0 (Clause.spelling_joined nonempty spelled)
  exact parse_of_spelling (by simpa using spelling)

/-- Every spelling of some clauses is parsed as these clauses; and so is what is displayed of them
with a space between neighbours, if their parts can be written as they are. -/
theorem parse_spelling :
    (∀ (clauses : List Clause) (text : String), QuerySpelling clauses text.toList →
      Query.parse text = .ok ⟨clauses⟩) ∧
    (∀ clauses : List Clause, clauses ≠ [] → (∀ clause ∈ clauses, clause.IsBare) →
      Query.parse (" ".intercalate (clauses.map Clause.display)) = .ok ⟨clauses⟩) := by
  refine ⟨fun clauses text => Query.parse_of_spelling, fun clauses nonempty bare => ?_⟩
  exact Query.parse_joined nonempty fun clause hc => Clause.spelling_display (bare clause hc)

/-- A query in which every freedom is used: spaces around and between, names and values with quotes
and without, an empty name, a sign inside a quoted value, and one that is part of a bare one. -/
theorem parse_spelling_mixed :
    Query.parse "  a.\"b c\".\"\":\"<x\"   n:>>1  "
        = .ok ⟨[⟨["a", "b c", ""], .eq, "<x"⟩, ⟨["n"], .gt, ">1"⟩]⟩ ∧
      Query.parse (" ".intercalate [Clause.display ⟨["n"], .lt, "2"⟩])
        = .ok ⟨[⟨["n"], .lt, "2"⟩]⟩ := by
  constructor
  · refine parse_spelling.1 _ _ ?_
    have path : PathSpelling ["a", "b c", ""] _ :=
      .more (.bare (by simp [IsBareName]))
        (.more (.quoted (by simp)) (.last (.quoted (by simp))))
    have clause : ClauseSpelling ⟨["a", "b c", ""], .eq, "<x"⟩ _ :=
      .mk path (.quoted (by simp) (by simp))
    have other : ClauseSpelling ⟨["n"], .gt, ">1"⟩ _ :=
      .mk (.last (.bare (by simp [IsBareName]))) (.bare (by simp [IsBareValue]))
    have spelling := QuerySpelling.mk 2 2 (.more 2 clause (.last other))
    simpa [Operator.signChars, List.replicate] using spelling
  · exact parse_spelling.2 [⟨["n"], .lt, "2"⟩] (by simp)
      (by simp [Clause.IsBare, IsBareName, IsBareValue])

end DocumentBase
