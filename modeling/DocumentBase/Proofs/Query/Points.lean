import DocumentBase.Proofs.Query.Accepted

/-!
# DocumentBase.Proofs.Query.Points

Where the points of an accepted text stand.  In a path as it is meant to be written there is one
point between neighbours and none anywhere else.  But lexing passes over a point without a trace, so
points can be doubled, stand at either end of a path or behind the last value, and be left out
beside a quote.

Whether that has happened can be seen in the text: `Query.misjoined` counts the places in its paths
where something stands beside what it must not.  An accepted text is a spelling of its query exactly
when there are none of them, and no bare colons (`points_join_names`).
-/

namespace DocumentBase

/-! ## Neighbours -/

/- The count needs no tokens: it goes along the text and compares each character with what stands in
front of it.  Inside a name nothing clashes, so only the ends of names, points and colons count. -/

/-- What can stand on one side of a place in a path. -/
inductive Neighbour where
  /-- The end of the path. -/
  | edge
  | point
  /-- A name without quotes. -/
  | bare
  | quoted
deriving DecidableEq

namespace Neighbour

/-- What begins, or ends, with a character. -/
def ofChar (c : Char) : Neighbour :=
  if c = '.' then point else if c = '"' then quoted else if c = ' ' ∨ c = ':' then edge else bare

/-- Whether the first must not stand beside the second: a point has to have names on both sides, and
two names need a point between them. -/
def clashes : Neighbour → Neighbour → Bool
  | edge, point | point, edge | point, point => true
  | bare, quoted | quoted, bare | quoted, quoted => true
  | _, _ => false

/-- How a name begins and ends that is written in some way. -/
def ofName (chars : List Char) : Neighbour := if chars.head? = some '"' then quoted else bare

end Neighbour

namespace Query

open Neighbour

/-- How many places there are in the paths of a text where neighbours clash, behind `before`; what
stands in quotes has been left out. -/
def misfits : Mode → Neighbour → List Char → Nat
  | .path, before, [] => (before.clashes edge).toNat
  | .path, before, c :: rest => (before.clashes (ofChar c)).toNat +
      misfits (if c = ':' then .value else .path) (ofChar c) rest
  | .value, _, [] => 0
  | .value, _, c :: rest => misfits (if c = ' ' then .path else .value) edge rest

/-- How many places there are in the paths of a text where neighbours clash. -/
def misjoined (text : String) : Nat := misfits .path edge (unquoted false text.toList)

variable {text rest : List Char} {before : Neighbour} {name value : String}

/-- A colon is a misfit behind a point, and the value behind it starts anew. -/
theorem misfits_colon (op : Operator) :
    misfits .path before (unquoted false (':' :: (op.signChars ++ rest)))
      = (before.clashes edge).toNat + misfits .value edge (unquoted false rest) := by
  rw [unquoted_colon]
  cases op <;> simp [Operator.signChars, misfits, ofChar]

/-- A point is a misfit where no name stands in front of it. -/
theorem misfits_point :
    misfits .path before (unquoted false ('.' :: rest))
      = (before.clashes point).toNat + misfits .path point (unquoted false rest) := by
  simp [unquoted, misfits, ofChar]

/-- Of several points each but the first is beside another one. -/
theorem misfits_points (points : Nat) :
    misfits .path before (unquoted false (List.replicate (points + 1) '.' ++ rest))
      = (before.clashes point).toNat + points + misfits .path point (unquoted false rest) := by
  induction points generalizing before with
  | zero => simpa using misfits_point
  | succ points ih =>
    rw [List.replicate_succ, List.cons_append, misfits_point, ih]
    simp only [clashes, Bool.toNat_true]
    omega

/-- Spaces in front of a path are no misfits, and the path begins behind them. -/
theorem misfits_spaces (spaces : Nat) :
    misfits .path edge (unquoted false (List.replicate spaces ' ' ++ rest))
      = misfits .path edge (unquoted false rest) := by
  induction spaces with
  | zero => rfl
  | succ spaces ih =>
    rw [← ih]
    simp [List.replicate_succ, unquoted, misfits, ofChar, clashes]

/-- Spaces behind a value are no misfits, and a path begins behind them. -/
theorem misfits_spaces_value (spaces : Nat) :
    misfits .value edge (unquoted false (List.replicate (spaces + 1) ' ' ++ rest))
      = misfits .path edge (unquoted false rest) := by
  rw [← misfits_spaces spaces]
  simp [List.replicate_succ, unquoted, misfits]

/-- A bare name clashes with what stands in front of it, or not at all. -/
theorem misfits_word (nonempty : text ≠ []) (inside : ∀ c ∈ text, Mode.path.endsWord c = false) :
    misfits .path before (text ++ rest)
      = (before.clashes bare).toNat + misfits .path bare rest := by
  induction text generalizing before with
  | nil => exact absurd rfl nonempty
  | cons c text ih =>
    have others : ∀ c ∈ text, Mode.path.endsWord c = false :=
      fun c held => inside c (List.mem_cons_of_mem _ held)
    have first := inside c List.mem_cons_self
    simp only [Mode.endsWord, Bool.or_eq_false_iff, beq_eq_false_iff_ne, beq_self_eq_true,
      Bool.and_true] at first
    obtain ⟨⟨⟨space, colon⟩, quote⟩, point⟩ := first
    have begins : ofChar c = bare := by simp [ofChar, space, colon, quote, point]
    rw [List.cons_append, misfits, begins, if_neg colon]
    by_cases last : text = []
    · rw [last, List.nil_append]
    · rw [ih last others]
      simp [clashes]

/-- A name in a path. -/
theorem misfits_name (spelled : NameSpelling name text) :
    misfits .path before (unquoted false (text ++ rest))
      = (before.clashes (ofName text)).toNat
        + misfits .path (ofName text) (unquoted false rest) := by
  cases spelled with
  | bare spelled =>
    have quotes : '"' ∉ name.toList := fun held => (spelled.2 _ held).2.2.2 rfl
    have begins : ofName name.toList = bare :=
      if_neg fun first => quotes (List.mem_of_head? first)
    rw [unquoted_append quotes, misfits_word (toList_ne_nil spelled.1) spelled.inside, begins]
  | quoted plain =>
    have begins : ofName ('"' :: (name.toList ++ ['"'])) = quoted := rfl
    rw [List.cons_append, List.append_assoc, List.singleton_append, unquoted_quoted plain, begins]
    simp [misfits, ofChar]

/-- A value has no misfits up to the space that ends it. -/
theorem misfits_append (plain : ' ' ∉ text) :
    misfits .value edge (text ++ rest) = misfits .value edge rest := by
  induction text with
  | nil => rfl
  | cons c text ih =>
    simp only [List.mem_cons, not_or] at plain
    rw [List.cons_append, misfits, if_neg (Ne.symm plain.1), ih plain.2]

/-- A spelled value has no misfits, for a point in it is the value's own. -/
theorem misfits_value {op : Operator} (spelled : ValueSpelling op value text) :
    misfits .value edge (unquoted false (text ++ rest))
      = misfits .value edge (unquoted false rest) := by
  cases spelled with
  | bare spelled =>
    have quotes : '"' ∉ value.toList := fun held => (spelled.2.1 _ held).2.2 rfl
    have spaces : ' ' ∉ value.toList := fun held => (spelled.2.1 _ held).1 rfl
    rw [unquoted_append quotes, misfits_append spaces]
  | quoted nonempty plain =>
    rw [List.cons_append, List.append_assoc, List.singleton_append, unquoted_quoted plain]
    simp [misfits]

/-! ## Spellings have no misfits -/

/-- A name fits to the edge of its path and to a point. -/
theorem clashes_ofName (fits : before = edge ∨ before = point) (chars : List Char) :
    before.clashes (ofName chars) = false ∧ (ofName chars).clashes before = false := by
  unfold ofName
  rcases fits with rfl | rfl <;> split <;> decide

/-- A spelled path has no misfits: each of its points stands between two names. -/
theorem misfits_path {path : List String} {op : Operator} (spelled : PathSpelling path text)
    (fits : before = edge ∨ before = point) :
    misfits .path before (unquoted false (text ++ ':' :: (op.signChars ++ rest)))
      = misfits .value edge (unquoted false rest) := by
  induction spelled generalizing before with
  | @last _ chars spelled =>
    rw [misfits_name spelled, misfits_colon, (clashes_ofName fits chars).1,
      (clashes_ofName (.inl rfl) chars).2]
    simp
  | @more _ _ chars others spelled _ ih =>
    rw [List.append_assoc, List.cons_append, misfits_name spelled, misfits_point, ih (.inr rfl),
      (clashes_ofName fits chars).1, (clashes_ofName (.inr rfl) chars).2]
    simp

theorem misfits_clause {clause : Clause} (spelled : ClauseSpelling clause text) :
    misfits .path edge (unquoted false (text ++ rest))
      = misfits .value edge (unquoted false rest) := by
  obtain ⟨path, value⟩ := spelled
  rw [List.append_assoc, List.cons_append, List.append_assoc, misfits_path path (.inl rfl),
    misfits_value value]

/-- Spelled clauses have no misfits, nor have the spaces between them. -/
theorem misfits_clauses {clauses : List Clause} (spelled : ClausesSpelling clauses text) :
    misfits .path edge (unquoted false (text ++ rest))
      = misfits .value edge (unquoted false rest) := by
  induction spelled with
  | last clause => exact misfits_clause clause
  | more spaces clause _ ih =>
    rw [List.append_assoc, List.append_assoc, misfits_clause clause, misfits_spaces_value, ih]

/-- A text that spells a query has no misfits. -/
theorem misjoined_of_spelling {text : String} {clauses : List Clause}
    (spelled : QuerySpelling clauses text.toList) : misjoined text = 0 := by
  unfold misjoined
  generalize text.toList = chars at spelled
  obtain ⟨front, back, spelled⟩ := spelled
  rw [misfits_spaces, misfits_clauses spelled]
  cases back with
  | zero => rfl
  | succ back =>
    rw [← List.append_nil (List.replicate (back + 1) ' '), misfits_spaces_value]
    rfl

end Query

/-! ## Texts without misfits are spellings -/

/- A count of zero is a count of zero at every place.  The text is taken apart as in any accepted
text, and at each place that would not be part of a spelling the neighbours clash. -/

section Lexing

open Query Neighbour

variable {chars : List Char} {tokens : List Token} {names : List String} {op : Operator}
  {beside : Neighbour}

/-- What has been read in front of a text when it is behind a name: the name had quotes, or is over
because of how the text begins. -/
def BehindName (beside : Neighbour) (chars : List Char) : Prop :=
  beside = .quoted ∨ beside = .bare ∧ ∀ c ∈ chars.head?, Mode.path.endsWord c = true

/-- What stands where a name ends is behind that name. -/
theorem EndsBefore.behindName {text rest : List Char} (ends : EndsBefore text rest) :
    BehindName (ofName text) rest := by
  unfold ofName
  split
  · exact .inl rfl
  · next bare => exact .inr ⟨rfl, ends.resolve_left bare⟩

/-- A name cannot stand right behind another one. -/
theorem clashes_of_behindName {name : String} {text rest : List Char}
    (spelled : NameSpelling name text) (behind : BehindName beside (text ++ rest)) :
    beside.clashes (ofName text) = true := by
  rcases behind with rfl | ⟨rfl, stop⟩
  · unfold ofName
    split <;> rfl
  · cases spelled with
    | bare spelled =>
      obtain ⟨c, more, split⟩ := List.exists_cons_of_ne_nil (toList_ne_nil spelled.1)
      have inside := spelled.inside c (by simp [split])
      rw [stop c (by simp [split])] at inside
      cases inside
    | quoted => rfl

namespace Lexes

/-- Behind a name of a path every further name comes behind one point, and the colon at once. -/
theorem spelled_names (h : Lexes .path chars (names.map .segment ++ .operator op :: tokens))
    (fits : misfits .path beside (unquoted false chars) = 0) (behind : BehindName beside chars) :
    ∃ others rest, chars = others ++ ':' :: (op.signChars ++ rest) ∧
      (∀ {name text}, NameSpelling name text → PathSpelling (name :: names) (text ++ others)) ∧
      (op = .eq → ∃ c ∈ rest.head?, c ≠ '<' ∧ c ≠ '>') ∧ Lexes .value rest tokens ∧
      misfits .value .edge (unquoted false rest) = 0 := by
  induction names generalizing chars beside with
  | nil =>
    obtain ⟨points, rest, rfl, first, tail⟩ := h.split_points
    obtain ⟨rest, rfl, plain, tail⟩ := tail.split_comparison first
    cases points with
    | zero =>
      rw [List.replicate_zero, List.nil_append, misfits_colon, Nat.add_eq_zero_iff] at fits
      exact ⟨[], rest, rfl, fun spelled => by simpa using PathSpelling.last spelled, plain, tail,
        fits.2⟩
    | succ points =>
      rw [misfits_points, misfits_colon] at fits
      simp [clashes] at fits
  | cons name names ih =>
    obtain ⟨points, rest, rfl, first, tail⟩ := h.split_points
    obtain ⟨text, rest, rfl, spelled, ends, tail⟩ := tail.split_name first
    match points with
    | 0 =>
      rw [List.replicate_zero, List.nil_append] at fits behind
      rw [misfits_name spelled, clashes_of_behindName spelled behind] at fits
      simp at fits
    | 1 =>
      rw [misfits_points, misfits_name spelled] at fits
      obtain ⟨others, rest, rfl, path, plain, tail, fits'⟩ := ih tail (by omega) ends.behindName
      exact ⟨'.' :: (text ++ others), rest, by simp, fun first => .more first (path spelled), plain,
        tail, fits'⟩
    | points + 2 =>
      rw [misfits_points] at fits
      omega

/-- A lexed path without misfits is spelled by the front of its text. -/
theorem spelled_path {path : List String} (nonempty : path ≠ [])
    (h : Lexes .path chars (path.map .segment ++ .operator op :: tokens))
    (fits : misfits .path .edge (unquoted false chars) = 0) :
    ∃ front rest, chars = front ++ ':' :: (op.signChars ++ rest) ∧ PathSpelling path front ∧
      (op = .eq → ∃ c ∈ rest.head?, c ≠ '<' ∧ c ≠ '>') ∧ Lexes .value rest tokens ∧
      misfits .value .edge (unquoted false rest) = 0 := by
  obtain ⟨name, names, rfl⟩ := List.exists_cons_of_ne_nil nonempty
  obtain ⟨points, rest, rfl, first, tail⟩ := h.split_points
  obtain ⟨text, rest, rfl, spelled, ends, tail⟩ := tail.split_name first
  cases points with
  | zero =>
    rw [List.replicate_zero, List.nil_append, misfits_name spelled, Nat.add_eq_zero_iff] at fits
    obtain ⟨others, rest, rfl, path, plain, tail, fits'⟩ :=
      tail.spelled_names fits.2 ends.behindName
    exact ⟨text ++ others, rest, by simp, path spelled, plain, tail, fits'⟩
  | succ points =>
    rw [misfits_points] at fits
    simp [clashes] at fits

/-- A lexed clause without misfits is spelled by the front of its text. -/
theorem spelled_clause {clause : Clause} (complete : clause.IsComplete)
    (h : Lexes .path chars (clause.tokens ++ tokens))
    (fits : misfits .path .edge (unquoted false chars) = 0) :
    ∃ front rest, chars = front ++ rest ∧ ClauseSpelling clause front ∧ Lexes .value rest tokens ∧
      misfits .value .edge (unquoted false rest) = 0 := by
  rw [Clause.tokens, List.append_assoc] at h
  obtain ⟨path, rest, rfl, spelled, plain, tail, fits⟩ := h.spelled_path complete.1 fits
  obtain ⟨value, rest, rfl, literal, tail⟩ := tail.split_value complete.2 plain
  rw [misfits_value literal] at fits
  exact ⟨_, rest, by simp, .mk spelled literal, tail, fits⟩

/-- Behind the last clause only spaces fit. -/
theorem spaces_of_end (ends : LooseEnd chars)
    (fits : misfits .value .edge (unquoted false chars) = 0) :
    ∃ back, chars = List.replicate back ' ' := by
  cases ends with
  | nothing => exact ⟨0, rfl⟩
  | spaces spaces points =>
    cases points with
    | zero => exact ⟨spaces + 1, by simp⟩
    | succ points =>
      rw [misfits_spaces_value, ← List.append_nil (List.replicate (points + 1) '.'),
        misfits_points] at fits
      simp [clashes] at fits

/-- Lexed clauses without misfits are spelled by the text, up to the spaces at its end. -/
theorem spelled_clauses {clause : Clause} {clauses : List Clause}
    (complete : ∀ other ∈ clause :: clauses, other.IsComplete)
    (h : Lexes .path chars ((clause :: clauses).flatMap Clause.tokens ++ [.eof]))
    (fits : misfits .path .edge (unquoted false chars) = 0) :
    ∃ front back, chars = front ++ List.replicate back ' ' ∧
      ClausesSpelling (clause :: clauses) front := by
  induction clauses generalizing clause chars with
  | nil =>
    rw [List.flatMap_singleton] at h
    obtain ⟨front, rest, rfl, spelled, tail, fits⟩ :=
      h.spelled_clause (complete clause List.mem_cons_self) fits
    obtain ⟨back, rfl⟩ := spaces_of_end tail.split_end fits
    exact ⟨front, back, rfl, .last spelled⟩
  | cons next clauses ih =>
    rw [List.flatMap_cons, List.append_assoc] at h
    obtain ⟨front, rest, rfl, spelled, tail, fits⟩ :=
      h.spelled_clause (complete clause List.mem_cons_self) fits
    obtain ⟨name, names, path⟩ := List.exists_cons_of_ne_nil (complete next (by simp)).1
    have none : ((next :: clauses).flatMap Clause.tokens ++ [Token.eof]).head?.any Token.isValue
        = false := by simp [Clause.tokens, path, Token.isValue]
    rcases tail.split_spaces none with ⟨-, last⟩ | ⟨spaces, rest, rfl, behind⟩
    · simp [Clause.tokens, path] at last
    · rw [misfits_spaces_value] at fits
      obtain ⟨others, back, rfl, spelled'⟩ :=
        ih (fun other held => complete other (List.mem_cons_of_mem _ held)) behind fits
      exact ⟨_, back, by simp, .more spaces spelled spelled'⟩

end Lexes

end Lexing

/-! ## Queries -/

namespace Query

variable {text : String} {clauses : List Clause}

/-- A text that spells a query has no bare colons: each comparison has its value behind it. -/
theorem bareColons_of_spelling (spelled : QuerySpelling clauses text.toList) :
    bareColons text = 0 :=
  (bareColons_eq_zero_iff (parse_of_spelling spelled)).2 (Token.ofText_spelling spelled)

/-- An accepted text without misfits and bare colons is a spelling. -/
theorem spelling_of_parse (parsed : parse text = .ok ⟨clauses⟩) (nonempty : clauses ≠ [])
    (fits : misjoined text = 0) (answered : bareColons text = 0) :
    QuerySpelling clauses text.toList := by
  have lexes := Token.ofText_eq_ok_iff.1 ((bareColons_eq_zero_iff parsed).1 answered)
  obtain ⟨front, split⟩ := dropWhile_spaces text.toList
  rw [misjoined, split, misfits_spaces] at fits
  obtain ⟨clause, others, rfl⟩ := List.exists_cons_of_ne_nil nonempty
  obtain ⟨chars, back, behind, spelled⟩ := lexes.spelled_clauses (complete_of_parse parsed) fits
  rw [split, behind]
  exact .mk front back spelled

end Query

/-- A text is read as some clauses exactly when it is a loose spelling of them, and is refused as an
invalid query where it is one of none.  It is a spelling, so that each point of its paths stands
between two names and each two neighbours have one between them, exactly when besides nothing in it
is misjoined and no colon is bare. -/
theorem points_join_names (text : String) :
    (∀ clauses, Query.parse text = .ok ⟨clauses⟩ ∧ clauses ≠ [] ↔
      LooseQuery clauses text.toList) ∧
    (∀ clauses, QuerySpelling clauses text.toList ↔
      LooseQuery clauses text.toList ∧ Query.misjoined text = 0 ∧ Query.bareColons text = 0) ∧
    (text ≠ "" → (∀ clauses, ¬ LooseQuery clauses text.toList) →
      ∃ reason, Query.parse text = .error reason ∧
        (Error.query reason).report.kind = .invalidQuery) := by
  refine ⟨fun clauses => Query.parse_eq_ok_iff, fun clauses => ?_, fun nonempty foreign => ?_⟩
  · rw [← Query.parse_eq_ok_iff]
    constructor
    · intro spelled
      exact ⟨⟨Query.parse_of_spelling spelled, spelled.complete.2.1⟩,
        Query.misjoined_of_spelling spelled, Query.bareColons_of_spelling spelled⟩
    · rintro ⟨⟨parsed, nonempty⟩, fits, answered⟩
      exact Query.spelling_of_parse parsed nonempty fits answered
  · cases parsed : Query.parse text with
    | error reason => exact ⟨reason, rfl, rfl⟩
    | ok query =>
      have loose := Query.parse_eq_ok_iff.1 ⟨parsed, Query.ne_nil_of_parse nonempty parsed⟩
      exact absurd loose (foreign query.clauses)

/-- A clause whose path has two names. -/
def twoNames : Clause := ⟨["a", "b"], .eq, "1"⟩

theorem LooseQuery.of_twoNames {path : List Char}
    (names : LooseParts [.segment "a", .segment "b"] path) :
    LooseQuery [twoNames] (path ++ [':', '1']) := by
  have value : ValueSpelling .eq "1" ['1'] :=
    @ValueSpelling.of_word ['1'] .eq (by simp) (by simp [Mode.endsWord]) (by simp)
  have clause : LooseClause twoNames (path ++ [':', '1']) := .mk names rfl (by decide) value
  simpa using LooseQuery.mk 0 (.last clause .nothing)

/-- Two points are as good as one. -/
theorem looseQuery_doubled : LooseQuery [twoNames] "a..b:1".toList := by
  have first : NameSpelling "a" ['a'] :=
    @NameSpelling.of_word ['a'] (by simp) (by simp [Mode.endsWord])
  have second : NameSpelling "b" ['b'] :=
    @NameSpelling.of_word ['b'] (by simp) (by simp [Mode.endsWord])
  have names := LooseParts.name 0 first (.inr (by simp [Mode.endsWord]))
    (.name 2 second (.inr (by simp)) (.points 0))
  exact .of_twoNames names

/-- Between quotes none is needed. -/
theorem looseQuery_adjoining : LooseQuery [twoNames] "\"a\"\"b\":1".toList := by
  have first : NameSpelling "a" ['"', 'a', '"'] := @NameSpelling.of_quoted ['a'] (by decide)
  have second : NameSpelling "b" ['"', 'b', '"'] := @NameSpelling.of_quoted ['b'] (by decide)
  have names := LooseParts.name 0 first (.inl rfl) (.name 0 second (.inl rfl) (.points 0))
  exact .of_twoNames names

/-- A doubled point, and one that is left out between quotes, are accepted, though these texts are
no spellings. -/
theorem parse_misjoined :
    (Query.parse "a..b:1" = .ok ⟨[twoNames]⟩ ∧
      ∀ clauses, ¬ QuerySpelling clauses "a..b:1".toList) ∧
    Query.parse "\"a\"\"b\":1" = .ok ⟨[twoNames]⟩ ∧
      ∀ clauses, ¬ QuerySpelling clauses "\"a\"\"b\":1".toList := by
  refine ⟨⟨(Query.parse_eq_ok_iff.2 looseQuery_doubled).1, fun clauses spelled => ?_⟩,
    (Query.parse_eq_ok_iff.2 looseQuery_adjoining).1, fun clauses spelled => ?_⟩
  all_goals exact absurd (Query.misjoined_of_spelling spelled) (by decide)

/-- One place is misjoined where a point is doubled.  A point alone is read as nothing, and
refused. -/
theorem points_join_names_doubled :
    (Query.parse "a..b:1" = .ok ⟨[twoNames]⟩ ∧ Query.misjoined "a..b:1" = 1 ∧
      ¬ QuerySpelling [twoNames] "a..b:1".toList) ∧
    ∃ reason, Query.parse "." = .error reason ∧
      (Error.query reason).report.kind = .invalidQuery := by
  obtain ⟨accepted, spelled, -⟩ := points_join_names "a..b:1"
  have misjoined : Query.misjoined "a..b:1" = 1 := by decide
  have point : Token.ofText "." = .ok [.eof] := Token.ofText_eq_ok_iff.2 (.point .done)
  have refused : Query.parse "." = .error (.noClauses ".") := by
    rw [Query.parse, if_neg (by decide), point]
    rfl
  refine ⟨⟨((accepted _).2 looseQuery_doubled).1, misjoined, fun spelling => ?_⟩,
    (points_join_names ".").2.2 (by decide) fun clauses loose => ?_⟩
  · have none := ((spelled _).1 spelling).2.1
    rw [misjoined] at none
    cases none
  · have parsed := (Query.parse_eq_ok_iff.2 loose).1
    rw [refused] at parsed
    cases parsed

end DocumentBase
