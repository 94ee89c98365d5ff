import DocumentBase.Proofs.Query.Gathering

/-!
# DocumentBase.Proofs.Query.Accepted

Exactly the texts that are accepted (`Query.parse_eq_ok_iff`).  They are more than the spellings of
queries, in two ways:

1. A point ends a name without quotes and means nothing else.  So there can be any number of points
   before and behind the names of a path, and none where a quote tells one name from the next.
2. A colon without a value can stand wherever a name can, with spaces behind it.

    query  := spaces clause (space spaces clause)* ("" | space spaces points)
    clause := part* points ":" ("" | "<" | ">") value
    part   := points name | points ":" ("" | "<" | ">") space spaces
-/

namespace DocumentBase

/-! ## Loose spellings -/

/-- A colon ends a name, so it is of no account that one follows. -/
theorem endsBefore_append {name chars rest : List Char} :
    EndsBefore name (chars ++ ':' :: rest) ↔ EndsBefore name chars := by
  refine or_congr_right ?_
  cases chars with
  | nil => simp [Mode.endsWord]
  | cons c chars => rfl

/-- The texts of some names and of comparisons without a value, and of points behind them. -/
inductive LooseParts : List Token → List Char → Prop where
  | points (points : Nat) : LooseParts [] (List.replicate points '.')
  | name {name : String} {chars others : List Char} {parts : List Token} (points : Nat) :
      NameSpelling name chars → EndsBefore chars others → LooseParts parts others →
      LooseParts (.segment name :: parts) (List.replicate points '.' ++ (chars ++ others))
  | comparison {op : Operator} {others : List Char} {parts : List Token} (points spaces : Nat) :
      LooseParts parts others →
      LooseParts (.operator op :: parts)
        (List.replicate points '.' ++
          ':' :: (op.signChars ++ (List.replicate (spaces + 1) ' ' ++ others)))

/-- The texts that are read as a clause. -/
inductive LooseClause (clause : Clause) : List Char → Prop where
  | mk {parts : List Token} {path value : List Char} :
      LooseParts parts path → parts.filterMap Token.name? = clause.path → clause.path ≠ [] →
      ValueSpelling clause.op clause.literal value →
      LooseClause clause (path ++ ':' :: (clause.op.signChars ++ value))

/-- The texts that are read as nothing, behind a value. -/
inductive LooseEnd : List Char → Prop where
  | nothing : LooseEnd []
  | spaces (spaces points : Nat) :
      LooseEnd (List.replicate (spaces + 1) ' ' ++ List.replicate points '.')

/-- The texts that are read as some clauses. -/
inductive LooseClauses : List Clause → List Char → Prop where
  | last {clause : Clause} {chars rest : List Char} :
      LooseClause clause chars → LooseEnd rest → LooseClauses [clause] (chars ++ rest)
  | more {clause : Clause} {clauses : List Clause} {chars others : List Char} (spaces : Nat) :
      LooseClause clause chars → LooseClauses clauses others →
      LooseClauses (clause :: clauses) (chars ++ (List.replicate (spaces + 1) ' ' ++ others))

/-- The texts that are read as a query with some clauses. -/
inductive LooseQuery (clauses : List Clause) : List Char → Prop where
  | mk {chars : List Char} (front : Nat) : LooseClauses clauses chars →
      LooseQuery clauses (List.replicate front ' ' ++ chars)

/-- Loose parts are the names of a path and comparisons without a value. -/
theorem LooseParts.isPart {parts : List Token} {chars : List Char} (h : LooseParts parts chars) :
    ∀ token ∈ parts, token.IsPart := by
  induction h with
  | points => simp
  | name _ _ _ _ ih | comparison _ _ _ ih => simpa [Token.IsPart] using ih

theorem LooseEnd.head {chars : List Char} (h : LooseEnd chars) :
    ∀ c ∈ chars.head?, Mode.value.endsWord c = true := by
  cases h with
  | nothing => simp
  | spaces => simp [List.replicate_succ, Mode.endsWord]

/-- A group does not begin with its value. -/
theorem Clause.GatheredFrom.head {clause : Clause} {group : List Token}
    (h : clause.GatheredFrom group) : ∃ token rest, group = token :: rest ∧ token.IsPart := by
  obtain ⟨parts_ok, gathered, complete⟩ := h
  next parts =>
  cases parts with
  | nil =>
    simp only [PartialClause.ofParts, PartialClause.mk.injEq] at gathered
    exact absurd gathered.1.symm complete.1
  | cons token parts => exact ⟨token, _, rfl, parts_ok token List.mem_cons_self⟩

namespace Lexes

variable {chars rest others : List Char} {token : Token} {tokens parts : List Token}
  {name value : String} {op : Operator}

/-! ## The front of an accepted text -/

/- The first token tells what the text begins with.  Points leave no token behind, so they are split
off first, and then the text does not begin with one. -/

/-- In front of anything else in a path there may be points. -/
theorem split_points (h : Lexes .path chars tokens) :
    ∃ points rest, chars = List.replicate points '.' ++ rest ∧ rest.head? ≠ some '.' ∧
      Lexes .path rest tokens := by
  generalize path : Mode.path = mode at h
  induction h with
  | done => exact ⟨0, [], rfl, by simp, .done⟩
  | quoted plain tail =>
    subst path
    exact ⟨0, _, rfl, by simp, .quoted plain tail⟩
  | word nonempty inside stop tail =>
    subst path
    exact ⟨0, _, rfl, head_word nonempty inside (by decide), .word nonempty inside stop tail⟩
  | colon plain tail => exact ⟨0, _, rfl, by simp, .colon plain tail⟩
  | point _ ih =>
    obtain ⟨points, rest, rfl, first, tail⟩ := ih path
    exact ⟨points + 1, rest, rfl, first, tail⟩
  | spaces => cases path

/-- What is read as a name spells it, and ends there. -/
theorem split_name (h : Lexes .path chars (.segment name :: tokens))
    (first : chars.head? ≠ some '.') :
    ∃ text rest, chars = text ++ rest ∧ NameSpelling name text ∧ EndsBefore text rest ∧
      Lexes .path rest tokens := by
  -- Cases can only be told apart when the mode and the tokens are variables.
  generalize path : Mode.path = mode at h
  generalize same : Token.segment name :: tokens = all at h
  cases h with
  | done | colon => cases same
  | spaces => cases path
  | point => exact absurd rfl first
  | @quoted _ text rest tokens plain tail =>
    subst path
    cases same
    exact ⟨_, rest, by simp, .of_quoted plain, .inl rfl, tail⟩
  | @word _ text rest tokens nonempty inside stop tail =>
    subst path
    cases same
    exact ⟨text, rest, rfl, .of_word nonempty inside, .inr stop, tail⟩

theorem split_comparison (h : Lexes .path chars (.operator op :: tokens))
    (first : chars.head? ≠ some '.') :
    ∃ rest, chars = ':' :: (op.signChars ++ rest) ∧
      (op = .eq → ∃ c ∈ rest.head?, c ≠ '<' ∧ c ≠ '>') ∧ Lexes .value rest tokens := by
  generalize path : Mode.path = mode at h
  generalize same : Token.operator op :: tokens = all at h
  cases h with
  | done => cases same
  | quoted | word => subst path; cases same
  | spaces => cases path
  | point => exact absurd rfl first
  | colon plain tail =>
    cases same
    exact ⟨_, rfl, plain, tail⟩

/-- Points apart, nothing stands before the end in a path without names. -/
theorem nil_of_eof (h : Lexes .path chars (.eof :: tokens)) (first : chars.head? ≠ some '.') :
    chars = [] := by
  generalize path : Mode.path = mode at h
  generalize same : Token.eof :: tokens = all at h
  cases h with
  | done => rfl
  | quoted | word => subst path; cases same
  | colon => cases same
  | point => exact absurd rfl first
  | spaces => cases path

theorem split_value (h : Lexes .value chars (.value value :: tokens)) (nonempty : value ≠ "")
    (plain : op = .eq → ∃ c ∈ chars.head?, c ≠ '<' ∧ c ≠ '>') :
    ∃ text rest, chars = text ++ rest ∧ ValueSpelling op value text ∧ Lexes .value rest tokens := by
  generalize mode_eq : Mode.value = mode at h
  generalize same : Token.value value :: tokens = all at h
  cases h with
  | done => cases same
  | colon | point => cases mode_eq
  | spaces _ _ tail =>
    subst same
    cases tail.head_path
  | @quoted _ text rest tokens inside tail =>
    subst mode_eq
    cases same
    exact ⟨_, rest, by simp, .of_quoted nonempty inside, tail⟩
  | @word _ text rest tokens some_char inside _ tail =>
    subst mode_eq
    cases same
    refine ⟨text, rest, rfl, .of_word some_char inside fun equal => ?_, tail⟩
    obtain ⟨c, front, less, greater⟩ := plain equal
    obtain ⟨c', text, rfl⟩ := List.exists_cons_of_ne_nil some_char
    cases front
    exact ⟨c, rfl, less, greater⟩

/-- Where a value could be read and none comes, the text has ended or goes on with spaces. -/
theorem split_spaces (h : Lexes .value chars tokens)
    (none : tokens.head?.any Token.isValue = false) :
    (chars = [] ∧ tokens = [.eof]) ∨
      ∃ spaces rest, chars = List.replicate (spaces + 1) ' ' ++ rest ∧ Lexes .path rest tokens := by
  generalize mode_eq : Mode.value = mode at h
  cases h with
  | done => exact .inl ⟨rfl, rfl⟩
  | colon | point => cases mode_eq
  | spaces count _ tail => exact .inr ⟨count, _, rfl, tail⟩
  | quoted | word =>
    subst mode_eq
    cases none

/-! ## Loose spellings are what is accepted -/

/- The text is taken apart token by token, which is an induction on the parts of a group, and then
group by group. -/

/-- In front of a comparison there are names, comparisons without a value, and points. -/
theorem split_parts (h : Lexes .path chars (parts ++ .operator op :: tokens))
    (parts_ok : ∀ token ∈ parts, token.IsPart) :
    ∃ path rest, chars = path ++ ':' :: (op.signChars ++ rest) ∧ LooseParts parts path ∧
      (op = .eq → ∃ c ∈ rest.head?, c ≠ '<' ∧ c ≠ '>') ∧ Lexes .value rest tokens := by
  -- Each part takes the points in front of it; those in front of the colon are left for the end.
  induction parts generalizing chars with
  | nil =>
    obtain ⟨points, rest, rfl, first, tail⟩ := h.split_points
    obtain ⟨others, rfl, plain, tail⟩ := tail.split_comparison first
    exact ⟨_, others, rfl, .points points, plain, tail⟩
  | cons token parts ih =>
    have others_ok : ∀ other ∈ parts, other.IsPart :=
      fun other held => parts_ok other (List.mem_cons_of_mem _ held)
    obtain ⟨points, rest, rfl, first, tail⟩ := h.split_points
    cases token with
    | segment name =>
      obtain ⟨text, others, rfl, spelled, ends, tail⟩ := tail.split_name first
      obtain ⟨path, rest, rfl, loose, plain, tail⟩ := ih tail others_ok
      have ends' := endsBefore_append.1 ends
      exact ⟨_, rest, by simp, .name points spelled ends' loose, plain, tail⟩
    | operator other =>
      obtain ⟨others, rfl, _, tail⟩ := tail.split_comparison first
      have none := Token.head?_parts others_ok op tokens
      rcases tail.split_spaces none with ⟨-, last⟩ | ⟨spaces, rest, rfl, behind⟩
      · cases parts <;> simp at last
      · obtain ⟨path, rest, rfl, loose, plain, tail⟩ := ih behind others_ok
        exact ⟨_, rest, by simp, .comparison points spaces loose, plain, tail⟩
    | value | eof => exact absurd (parts_ok _ List.mem_cons_self) id

/-- What is read as a group is written as its clause. -/
theorem split_clause {clause : Clause} {group : List Token} (made : clause.GatheredFrom group)
    (ordered : Token.Ordered group) (h : Lexes .path chars (group ++ tokens)) :
    ∃ text rest, chars = text ++ rest ∧ LooseClause clause text ∧ Lexes .value rest tokens := by
  have complete := made.complete
  obtain ⟨front, rfl, parts, names⟩ := made.split ordered
  rw [List.append_assoc] at h
  obtain ⟨path, rest, rfl, loose, plain, tail⟩ := h.split_parts parts
  obtain ⟨value, rest, rfl, spelled, tail⟩ := tail.split_value complete.2 plain
  exact ⟨_, rest, by simp, .mk loose names complete.1 spelled, tail⟩

/-- Behind the last value there are points at most, behind spaces. -/
theorem split_end (h : Lexes .value chars [.eof]) : LooseEnd chars := by
  rcases h.split_spaces rfl with ⟨rfl, -⟩ | ⟨spaces, rest, rfl, tail⟩
  · exact .nothing
  · obtain ⟨points, rest, rfl, first, tail⟩ := tail.split_points
    rw [tail.nil_of_eof first, List.append_nil]
    exact .spaces spaces points

theorem split_clauses {clause : Clause} {clauses : List Clause} {group : List Token}
    {groups : List (List Token)} (first : clause.GatheredFrom group)
    (made : List.Forall₂ Clause.GatheredFrom clauses groups)
    (ordered : Token.Ordered (group ++ groups.flatten))
    (h : Lexes .path chars (group ++ groups.flatten ++ [.eof])) :
    LooseClauses (clause :: clauses) chars := by
  induction made generalizing clause group chars with
  | nil =>
    rw [List.flatten_nil, List.append_nil] at ordered h
    obtain ⟨text, rest, rfl, loose, tail⟩ := h.split_clause first ordered
    exact .last loose tail.split_end
  | @cons next other clauses groups second _ ih =>
    rw [List.flatten_cons] at ordered h
    rw [List.append_assoc] at h
    obtain ⟨text, rest, rfl, loose, tail⟩ :=
      h.split_clause first (ordered.of_infix (List.prefix_append _ _).isInfix)
    obtain ⟨token, more, rfl, part⟩ := second.head
    rcases tail.split_spaces part.isValue with ⟨-, last⟩ | ⟨spaces, rest, rfl, behind⟩
    · simp at last
    · have ordered' := ordered.of_infix (List.suffix_append _ _).isInfix
      exact .more spaces loose (ih second ordered' behind)

/-! ## Loose spellings are accepted -/

/- Here the induction is on the spelling.  What comes behind it is lexed already, in the mode that
the spelling leaves. -/

theorem of_points (points : Nat) (h : Lexes .path rest tokens) :
    Lexes .path (List.replicate points '.' ++ rest) tokens := by
  induction points with
  | zero => exact h
  | succ points ih => exact .point ih

/-- Loose parts in front of a comparison are lexed as they stand there. -/
theorem of_parts {front : List Char} (loose : LooseParts parts front)
    (h : Lexes .path (':' :: rest) tokens) :
    Lexes .path (front ++ ':' :: rest) (parts ++ tokens) := by
  induction loose with
  | points points => exact h.of_points points
  | @name name text others parts points spelled ends _ ih =>
    have named := spelled.lexes (endsBefore_append.2 ends) ih
    simpa using named.of_points points
  | @comparison op others parts points spaces _ ih =>
    have comparison := @Lexes.colon op _ _ (by simp [List.replicate_succ])
      (ih.of_spaces spaces)
    simpa using comparison.of_points points

/-- What is read as a clause has the tokens of a group. -/
theorem of_clause {clause : Clause} {front : List Char} (loose : LooseClause clause front)
    (ends : ∀ c ∈ rest.head?, Mode.value.endsWord c = true) (h : Lexes .value rest tokens) :
    ∃ group, clause.GatheredFrom group ∧ Lexes .path (front ++ rest) (group ++ tokens) := by
  obtain ⟨path, names, nonempty, spelled⟩ := loose
  next parts _ _ =>
  have comparison := spelled.lexes_comparison ends h
  have gathered : PartialClause.ofParts (parts ++ [.operator clause.op])
      = ⟨clause.path, some clause.op⟩ := by
    rw [PartialClause.ofParts_operator, PartialClause.ofParts, names]
  have parts_ok : ∀ token ∈ parts ++ [.operator clause.op], token.IsPart := by
    intro token held
    rcases List.mem_append.1 held with held | held
    · exact path.isPart token held
    · rw [List.mem_singleton.1 held]
      trivial
  exact ⟨_, .mk parts_ok gathered ⟨nonempty, spelled.nonempty⟩,
    by simpa using comparison.of_parts path⟩

theorem of_end (h : LooseEnd rest) : Lexes .value rest [.eof] := by
  cases h with
  | nothing => exact .done
  | spaces spaces points =>
    have behind := (@Lexes.done .path).of_points points
    rw [List.append_nil] at behind
    exact behind.of_spaces spaces

/-- What is read as clauses has the tokens of groups, one for each clause. -/
theorem of_clauses {clauses : List Clause} (loose : LooseClauses clauses chars) :
    ∃ groups, List.Forall₂ Clause.GatheredFrom clauses groups ∧
      Lexes .path chars (groups.flatten ++ [.eof]) := by
  induction loose with
  | last loose ends =>
    obtain ⟨group, made, lexes⟩ := (of_end ends).of_clause loose ends.head
    exact ⟨[group], .cons made .nil, by simpa using lexes⟩
  | more spaces loose _ ih =>
    obtain ⟨groups, made, others⟩ := ih
    have behind := others.of_spaces spaces
    obtain ⟨group, first, lexes⟩ :=
      behind.of_clause loose (by simp [List.replicate_succ, Mode.endsWord])
    exact ⟨group :: groups, .cons first made, by simpa using lexes⟩

end Lexes

/-! ## Parsing -/

/-- Names and comparisons are gathered. -/
theorem Clause.assemble_parts {front parts : List Token} (rest : List Token)
    (parts_ok : ∀ token ∈ parts, token.IsPart) :
    assemble (.ofParts front) (parts ++ rest) = assemble (.ofParts (front ++ parts)) rest := by
  induction parts generalizing front with
  | nil => simp
  | cons token parts ih =>
    have others_ok : ∀ other ∈ parts, other.IsPart :=
      fun other held => parts_ok other (List.mem_cons_of_mem _ held)
    have others := @ih (front ++ [token]) others_ok
    rw [List.append_assoc, List.singleton_append] at others
    rw [← others, List.cons_append]
    cases token with
    | segment text => rw [assemble, PartialClause.ofParts_segment]
    | operator op => rw [assemble, PartialClause.ofParts_operator]
    | value | eof => exact absurd (parts_ok _ List.mem_cons_self) id

/-- Parts are gathered as long as no value comes. -/
theorem Clause.assemble_start {parts : List Token} (parts_ok : ∀ token ∈ parts, token.IsPart)
    (rest : List Token) : assemble {} (parts ++ rest) = assemble (.ofParts parts) rest := by
  have start : ({} : PartialClause) = .ofParts [] := rfl
  rw [start, assemble_parts rest parts_ok, List.nil_append]

/-- A group is finished before anything behind it is looked at. -/
theorem Clause.assemble_group {parts : List Token} (parts_ok : ∀ token ∈ parts, token.IsPart)
    (value : String) (rest : List Token) :
    assemble {} (parts ++ .value value :: rest) =
      match (PartialClause.ofParts parts).finish value with
      | .error e => .error e
      | .ok clause => (assemble {} rest).map (clause :: ·) := by
  rw [assemble_start parts_ok]
  cases finished : (PartialClause.ofParts parts).finish value <;> simp [assemble, finished]

/-- Groups of tokens are assembled to their clauses, whatever comes behind them. -/
theorem Clause.assemble_groups {clauses : List Clause} {groups : List (List Token)}
    (made : List.Forall₂ GatheredFrom clauses groups) (rest : List Token) :
    assemble {} (groups.flatten ++ rest) = (assemble {} rest).map (clauses ++ ·) := by
  induction made with
  | nil => cases others : assemble {} rest <;> simp [Except.map, others]
  | @cons clause _ _ groups first _ ih =>
    obtain ⟨parts_ok, gathered, complete⟩ := first
    have finished := PartialClause.finish_eq_ok_iff.2 ⟨gathered, rfl, complete⟩
    rw [List.flatten_cons, List.append_assoc, List.append_assoc, List.singleton_append,
      assemble_group parts_ok, finished]
    dsimp only
    rw [ih]
    cases assemble {} rest <;> rfl

/-- Groups of tokens are assembled to their clauses, one by one. -/
theorem Clause.ofTokens_groups {clauses : List Clause} {groups : List (List Token)}
    (made : List.Forall₂ GatheredFrom clauses groups) :
    ofTokens (groups.flatten ++ [.eof]) = .ok clauses := by
  rw [ofTokens, assemble_groups made]
  simp [assemble, PartialClause.isStarted, Except.map]

namespace Query

variable {text : String} {clauses : List Clause}

/-- Groups of tokens are parsed as their clauses, if there are any. -/
theorem parse_of_groups {groups : List (List Token)} (nonempty : clauses ≠ [])
    (lexed : Token.ofText text = .ok (groups.flatten ++ [.eof]))
    (made : List.Forall₂ Clause.GatheredFrom clauses groups) :
    parse text = .ok ⟨clauses⟩ := by
  have some_char : ¬ text.isEmpty := by
    intro blank
    have none : Token.ofText "" = .ok [.eof] := Token.ofText_eq_ok_iff.2 .done
    rw [String.isEmpty_iff.1 blank, none] at lexed
    cases made with
    | nil => exact nonempty rfl
    | cons first =>
      obtain ⟨token, rest, rfl, -⟩ := first.head
      simp at lexed
  obtain ⟨clause, others, rfl⟩ := List.exists_cons_of_ne_nil nonempty
  rw [parse, if_neg some_char, lexed]
  dsimp only
  rw [Clause.ofTokens_groups made]

/-- A text is read as some clauses, and not as none, exactly when it is a loose spelling of them. -/
theorem parse_eq_ok_iff :
    parse text = .ok ⟨clauses⟩ ∧ clauses ≠ [] ↔ LooseQuery clauses text.toList := by
  constructor
  · rintro ⟨parsed, nonempty⟩
    obtain ⟨groups, lexed, made⟩ := groups_of_parse parsed
    have ordered := ordered_of_ofText lexed
    have lexes := Token.ofText_eq_ok_iff.1 lexed
    obtain ⟨front, split⟩ := dropWhile_spaces text.toList
    cases made with
    | nil => exact absurd rfl nonempty
    | cons first others =>
      rw [List.flatten_cons] at ordered lexes
      rw [split]
      exact .mk front (lexes.split_clauses first others ordered)
  · intro loose
    generalize text_eq : text.toList = chars at loose
    obtain ⟨front, loose⟩ := loose
    next chars =>
    obtain ⟨groups, made, lexes⟩ := Lexes.of_clauses loose
    have nonempty : clauses ≠ [] := by
      cases loose <;> simp
    have lexed := Token.ofText_of_lexes text_eq lexes.head_ne_space lexes
    exact ⟨parse_of_groups nonempty lexed made, nonempty⟩

end Query

end DocumentBase
