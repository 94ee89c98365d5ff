import DocumentBase.Error
import DocumentBase.Proofs.Query.Spelling
import Mathlib.Data.List.Forall2

/-!
# DocumentBase.Proofs.Query.Gathering

Which tokens make a clause.  The tokens of a query fall into groups that each end with a value, and
each group makes one clause: of all its names, of its last comparison and of its value.

A clause is meant to be written with one colon.  But a space behind a colon leads back to a path
even where no value has been read, so a colon can be left without a value, a *bare* one, and the
names before it are taken into the next clause.  Every colon outside quotes makes a clause or is
bare (`parse_gathers`), and the groups of a query are clauses as they are meant to be written
exactly when none is.
-/

namespace DocumentBase

/-! ## Groups of tokens -/

/- What has been gathered is given by the tokens that it was gathered from
(`PartialClause.ofParts`).  So the induction along the tokens carries a list of them, and where a
value comes that list is the group. -/

namespace Token

/-- The name that a token is. -/
def name? : Token → Option String
  | segment text => some text
  | _ => none

/-- The comparison that a token is. -/
def comparison? : Token → Option Operator
  | operator op => some op
  | _ => none

def isValue : Token → Bool
  | value _ => true
  | _ => false

/-- Whether a token is gathered until a value comes. -/
def IsPart : Token → Prop
  | segment _ | operator _ => True
  | value _ | eof => False

/-- The comparisons of some tokens. -/
def comparisons (tokens : List Token) : List Operator := tokens.filterMap comparison?

/-- How many comparisons have no value right behind them. -/
def unanswered : List Token → Nat
  | [] => 0
  | .operator _ :: rest => (if rest.head?.any isValue then 0 else 1) + unanswered rest
  | _ :: rest => unanswered rest

theorem IsPart.isValue {token : Token} (part : token.IsPart) : token.isValue = false := by
  cases token with
  | value => exact absurd part id
  | _ => rfl

/-- Where parts come, and then a comparison, no value comes first. -/
theorem head?_parts {front : List Token} (parts : ∀ token ∈ front, token.IsPart) (op : Operator)
    (rest : List Token) : (front ++ .operator op :: rest).head?.any isValue = false := by
  cases front with
  | nil => rfl
  | cons token front => exact (parts token List.mem_cons_self).isValue

end Token

/-- What is gathered of some names and comparisons. -/
def PartialClause.ofParts (parts : List Token) : PartialClause :=
  ⟨parts.filterMap Token.name?, (Token.comparisons parts).getLast?⟩

/-- The groups of tokens that a clause is made of: names, comparisons and a value. -/
inductive Clause.GatheredFrom (clause : Clause) : List Token → Prop where
  | mk {parts : List Token} : (∀ token ∈ parts, token.IsPart) →
      PartialClause.ofParts parts = ⟨clause.path, some clause.op⟩ → clause.IsComplete →
      GatheredFrom clause (parts ++ [.value clause.literal])

theorem Clause.GatheredFrom.complete {clause : Clause} {group : List Token}
    (h : clause.GatheredFrom group) : clause.IsComplete := by
  obtain ⟨-, -, complete⟩ := h
  exact complete

namespace PartialClause

/-- A value finishes a clause that has a path and an operator, unless the value is empty. -/
theorem finish_eq_ok_iff {gathered : PartialClause} {value : String} {clause : Clause} :
    gathered.finish value = .ok clause ↔
      gathered = ⟨clause.path, some clause.op⟩ ∧ clause.literal = value ∧ clause.IsComplete := by
  obtain ⟨path, op⟩ := gathered
  obtain ⟨clausePath, clauseOp, literal⟩ := clause
  cases op with
  | none => by_cases h : path = [] <;> simp [finish, h]
  | some op =>
    by_cases h : path = []
    · simp [finish, h, Clause.IsComplete]
      grind
    · by_cases h' : value = "" <;> simp [finish, h, h', Clause.IsComplete] <;> grind

/-- Where nothing has been gathered there were no parts. -/
theorem isStarted_ofParts {parts : List Token} (parts_ok : ∀ token ∈ parts, token.IsPart)
    (idle : ¬ (ofParts parts).isStarted) : parts = [] := by
  cases parts with
  | nil => rfl
  | cons token rest =>
    have first := parts_ok token List.mem_cons_self
    cases token <;> simp_all [ofParts, isStarted, Token.IsPart, Token.name?, Token.comparisons,
      Token.comparison?]

theorem ofParts_segment (parts : List Token) (text : String) :
    ofParts (parts ++ [.segment text]) =
      { ofParts parts with path := (ofParts parts).path ++ [text] } := by
  simp [ofParts, Token.comparisons, Token.name?, Token.comparison?]

/-- An operator that is gathered takes the place of the one before it. -/
theorem ofParts_operator (parts : List Token) (op : Operator) :
    ofParts (parts ++ [.operator op]) = { ofParts parts with op := some op } := by
  simp [ofParts, Token.comparisons, Token.name?, Token.comparison?]

end PartialClause

/-- Tokens that are assembled fall into groups, of each of which one clause is made. -/
theorem Clause.groups_of_assemble {parts body : List Token} {clauses : List Clause}
    (parts_ok : ∀ token ∈ parts, token.IsPart) (inside : .eof ∉ body)
    (h : assemble (.ofParts parts) (body ++ [.eof]) = .ok clauses) :
    ∃ groups, parts ++ body = groups.flatten ∧ List.Forall₂ GatheredFrom clauses groups := by
  induction body generalizing parts clauses with
  | nil =>
    simp only [List.nil_append, assemble] at h
    split at h
    · cases h
    · next idle =>
      cases h
      have none := PartialClause.isStarted_ofParts parts_ok idle
      exact ⟨[], by simp [none], .nil⟩
  | cons token body ih =>
    have inside' : .eof ∉ body := fun held => inside (List.mem_cons_of_mem _ held)
    have more (part : token.IsPart) : ∀ other ∈ parts ++ [token], other.IsPart := by
      simp only [List.mem_append, List.mem_singleton]
      rintro other (held | rfl)
      · exact parts_ok other held
      · exact part
    cases token with
    | segment text =>
      rw [List.cons_append, assemble, ← PartialClause.ofParts_segment] at h
      simpa using ih (more trivial) inside' h
    | operator op =>
      rw [List.cons_append, assemble, ← PartialClause.ofParts_operator] at h
      simpa using ih (more trivial) inside' h
    | value text =>
      rw [List.cons_append, assemble] at h
      split at h
      · cases h
      · next clause finished =>
        obtain ⟨others, assembled, rfl⟩ := Collecting.map_eq_ok_iff.1 h
        obtain ⟨gathered, rfl, complete⟩ := PartialClause.finish_eq_ok_iff.1 finished
        obtain ⟨groups, split, made⟩ := @ih [] others (by simp) inside' assembled
        rw [List.nil_append] at split
        exact ⟨(parts ++ [.value clause.literal]) :: groups, by simp [split],
          .cons (.mk parts_ok gathered complete) made⟩
    | eof => exact absurd List.mem_cons_self inside

/-! ## Colons -/

/- Bare colons are counted in the text and not among its tokens.  The count goes from front to back,
and there is one lemma for each piece that a text can begin with. -/

namespace Query

/-- A text without what stands in quotes; of each quoted text the opening quote is left. -/
def unquoted (inside : Bool) : List Char → List Char
  | [] => []
  | c :: rest =>
    if inside then unquoted (c != '"') rest else c :: unquoted (c == '"') rest

/-- Whether a text begins with a space, or has ended. -/
def isBlank (chars : List Char) : Bool := chars.head?.all (· == ' ')

/-- Whether no value comes where a colon has been read, neither at once nor behind its sign. -/
def lacksValue : List Char → Bool
  | '<' :: rest | '>' :: rest => isBlank rest
  | rest => isBlank rest

/-- How many colons there are where no value comes. -/
def countBare : List Char → Nat
  | [] => 0
  | c :: rest => (if c = ':' ∧ lacksValue rest then 1 else 0) + countBare rest

/-- How many colons a text has outside quotes. -/
def colons (text : String) : Nat := (unquoted false text.toList).count ':'

/-- How many of them are bare. -/
def bareColons (text : String) : Nat := countBare (unquoted false text.toList)

variable {text rest : List Char}

theorem unquoted_append (plain : '"' ∉ text) :
    unquoted false (text ++ rest) = text ++ unquoted false rest := by
  induction text with
  | nil => rfl
  | cons c text ih =>
    simp only [List.mem_cons, not_or] at plain
    have outside : (c == '"') = false := by simpa using Ne.symm plain.1
    simp [unquoted, outside, ih plain.2]

/-- Of a quoted text the opening quote stays. -/
theorem unquoted_quoted (plain : '"' ∉ text) :
    unquoted false ('"' :: (text ++ '"' :: rest)) = '"' :: unquoted false rest := by
  suffices unquoted true (text ++ '"' :: rest) = unquoted false rest by simp [unquoted, this]
  induction text with
  | nil => simp [unquoted]
  | cons c text ih =>
    simp only [List.mem_cons, not_or] at plain
    have inside : (c != '"') = true := by simpa using Ne.symm plain.1
    simp [unquoted, inside, ih plain.2]

theorem head?_unquoted : (unquoted false text).head? = text.head? := by
  cases text <;> simp [unquoted]

/-- A comparison has no quotes. -/
theorem unquoted_colon (op : Operator) :
    unquoted false (':' :: (op.signChars ++ rest))
      = ':' :: (op.signChars ++ unquoted false rest) := by
  cases op <;> simp [unquoted, Operator.signChars]

/-- A text without colons has no bare ones. -/
theorem countBare_append (plain : ':' ∉ text) : countBare (text ++ rest) = countBare rest := by
  induction text with
  | nil => rfl
  | cons c text ih =>
    simp only [List.mem_cons, not_or] at plain
    simp [countBare, Ne.symm plain.1, ih plain.2]

/-- A sign belongs to its comparison, so what stands behind it decides whether there is a value. -/
theorem lacksValue_sign {op : Operator} (plain : op = .eq → ∃ c ∈ rest.head?, c ≠ '<' ∧ c ≠ '>') :
    lacksValue (op.signChars ++ rest) = isBlank rest := by
  cases op with
  | eq =>
    obtain ⟨c, first, less, greater⟩ := plain rfl
    obtain ⟨behind, rfl⟩ := List.head?_eq_some_iff.1 first
    simp [Operator.signChars, lacksValue, less, greater]
  | lt => rfl
  | gt => rfl

/-- A comparison is bare if a space or the end of the text stands behind its sign. -/
theorem countBare_colon {op : Operator}
    (plain : op = .eq → ∃ c ∈ rest.head?, c ≠ '<' ∧ c ≠ '>') :
    countBare (':' :: (op.signChars ++ rest))
      = (if isBlank rest then 1 else 0) + countBare rest := by
  have sign : ':' ∉ op.signChars := by cases op <;> simp [Operator.signChars]
  simp [countBare, lacksValue_sign plain, countBare_append sign]

end Query

/-! ## What lexing reads -/

/- Comparisons are the colons outside quotes, and those without a value right behind them are the
bare ones.  Both go by induction on the rules, with the counts of the rest as they are there. -/

namespace Lexes

variable {mode : Mode} {chars : List Char} {tokens : List Token}

/-- In a path the first token is no value. -/
theorem head_path (h : Lexes .path chars tokens) : tokens.head?.any Token.isValue = false := by
  generalize same : Mode.path = mode at h
  induction h with
  | done => rfl
  | quoted | word => subst same; rfl
  | colon => rfl
  | point _ ih => exact ih same
  | spaces => cases same

/-- Where a value is to be read the first token is one, unless a space comes or the text ends. -/
theorem head_value (h : Lexes .value chars tokens) :
    tokens.head?.any Token.isValue = !Query.isBlank chars := by
  cases h with
  | done => rfl
  | quoted => simp [Mode.token, Token.isValue, Query.isBlank]
  | @word _ text rest tokens nonempty inside =>
    obtain ⟨c, text, rfl⟩ := List.exists_cons_of_ne_nil nonempty
    have visible := inside c List.mem_cons_self
    simp_all [Mode.endsWord, Mode.token, Token.isValue, Query.isBlank]
  | spaces count stop tail =>
    rw [head_path tail]
    simp [Query.isBlank, List.replicate_succ]

/-- Inside a word there is no quote and no colon, whatever the mode is. -/
theorem plain_word {text : List Char} (inside : ∀ c ∈ text, mode.endsWord c = false) :
    '"' ∉ text ∧ ':' ∉ text := by
  constructor <;> intro held <;> have := inside _ held <;> simp [Mode.endsWord] at this

/-- Each colon outside quotes is read as a comparison. -/
theorem length_comparisons (h : Lexes mode chars tokens) :
    (Token.comparisons tokens).length = (Query.unquoted false chars).count ':' := by
  have other (mode : Mode) (text : String) : (mode.token text).comparison? = none := by
    cases mode <;> rfl
  induction h with
  | done => rfl
  | quoted plain _ ih =>
    rw [Query.unquoted_quoted plain, List.count_cons_of_ne (by decide), ← ih]
    simp [Token.comparisons, other]
  | word _ inside _ _ ih =>
    obtain ⟨quotes, colons⟩ := plain_word inside
    rw [Query.unquoted_append quotes, List.count_append, List.count_eq_zero.2 colons, ← ih]
    simp [Token.comparisons, other]
  | @colon op rest tokens _ _ ih =>
    have sign : ':' ∉ op.signChars := by cases op <;> simp [Operator.signChars]
    rw [Query.unquoted_colon, List.count_cons_self, List.count_append, List.count_eq_zero.2 sign,
      ← ih]
    simp [Token.comparisons, Token.comparison?]
  | point _ ih => simpa [Query.unquoted] using ih
  | @spaces rest tokens count _ _ ih =>
    rw [Query.unquoted_append (by simp), List.count_append, List.count_eq_zero.2 (by simp), ← ih,
      Nat.zero_add]

/-- The comparisons that have no value right behind them are those of the bare colons. -/
theorem unanswered_eq (h : Lexes mode chars tokens) :
    Token.unanswered tokens = Query.countBare (Query.unquoted false chars) := by
  have other (mode : Mode) (text : String) (rest : List Token) :
      Token.unanswered (mode.token text :: rest) = Token.unanswered rest := by
    cases mode <;> rfl
  induction h with
  | done => rfl
  | quoted plain _ ih => simp [Query.unquoted_quoted plain, other, ih, Query.countBare]
  | word _ inside _ _ ih =>
    obtain ⟨quotes, colons⟩ := plain_word inside
    rw [Query.unquoted_append quotes, Query.countBare_append colons, other, ih]
  | @colon op rest tokens plain tail ih =>
    have plain' : op = .eq → ∃ c ∈ (Query.unquoted false rest).head?, c ≠ '<' ∧ c ≠ '>' := by
      rw [Query.head?_unquoted]
      exact plain
    have blank : Query.isBlank (Query.unquoted false rest) = Query.isBlank rest := by
      simp only [Query.isBlank, Query.head?_unquoted]
    rw [Query.unquoted_colon, Query.countBare_colon plain', Token.unanswered, head_value tail, ih,
      blank]
    cases Query.isBlank rest <;> rfl
  | point _ ih => simpa [Query.unquoted, Query.countBare] using ih
  | spaces count _ _ ih =>
    rw [Query.unquoted_append (by simp), Query.countBare_append (by simp), ih]

/-- A value never stands right behind a name. -/
theorem no_name_value (h : Lexes mode chars tokens) (name value : String) :
    ¬ [.segment name, .value value] <:+: tokens := by
  have first {token : Token} {tokens : List Token}
      (h : [.segment name, .value value] <+: token :: tokens) :
      token = .segment name ∧ tokens.head?.any Token.isValue := by
    obtain ⟨back, same⟩ := h
    simp only [List.cons_append, List.cons.injEq] at same
    obtain ⟨rfl, rfl⟩ := same
    exact ⟨rfl, rfl⟩
  induction h with
  | done => simp [List.infix_cons_iff]
  | @quoted mode _ _ tokens _ tail ih | @word mode _ _ tokens _ _ _ tail ih =>
    intro inside
    rcases List.infix_cons_iff.1 inside with front | inside
    · obtain ⟨name, value⟩ := first front
      cases mode with
      | path => simp [tail.head_path] at value
      | value => cases name
    · exact ih inside
  | colon _ _ ih =>
    intro inside
    rcases List.infix_cons_iff.1 inside with front | inside
    · cases (first front).1
    · exact ih inside
  | point _ ih => exact ih
  | spaces _ _ _ ih => exact ih

end Lexes

/-! ## Groups with a value behind their comparison -/

/- In a text without bare colons each comparison has its value.  So a group has one comparison, it
comes behind all names, and the group is what a clause is meant to be. -/

/-- Whether no value stands right behind a name. -/
def Token.Ordered (tokens : List Token) : Prop :=
  ∀ name value, ¬ [.segment name, .value value] <:+: tokens

theorem Token.Ordered.of_infix {part tokens : List Token} (h : Ordered tokens)
    (inside : part <:+: tokens) : Ordered part :=
  fun name value found => h name value (found.trans inside)

namespace Token

variable {front rest : List Token}

/-- All comparisons of a group but the last stay without a value. -/
theorem unanswered_front (parts : ∀ token ∈ front, token.IsPart) (op : Operator) (value : String) :
    unanswered (front ++ [.operator op, .value value] ++ rest)
      = (comparisons front).length + unanswered rest := by
  rw [List.append_assoc]
  induction front with
  | nil => simp [unanswered, comparisons, isValue]
  | cons token front ih =>
    have tail := ih fun other held => parts other (List.mem_cons_of_mem _ held)
    cases token with
    | segment text => simpa [unanswered, comparisons, comparison?, List.filterMap_cons] using tail
    | operator other =>
      have next : (front ++ ([operator op, .value value] ++ rest)).head?.any isValue = false :=
        head?_parts (fun other held => parts other (List.mem_cons_of_mem _ held)) op _
      rw [List.cons_append, unanswered, next, tail]
      simp only [Bool.false_eq_true, if_false, comparisons, List.filterMap_cons, comparison?,
        List.length_cons]
      omega
    | value text => exact absurd (parts _ List.mem_cons_self) id
    | eof => exact absurd (parts _ List.mem_cons_self) id

/-- Parts without a comparison are names. -/
theorem eq_names (parts : ∀ token ∈ front, token.IsPart) (none : comparisons front = []) :
    front = (front.filterMap name?).map .segment := by
  induction front with
  | nil => rfl
  | cons token front ih =>
    have others : ∀ other ∈ front, other.IsPart :=
      fun other held => parts other (List.mem_cons_of_mem _ held)
    cases token with
    | segment text =>
      have tail := ih others (by simpa [comparisons, comparison?] using none)
      simpa [name?] using tail
    | operator op => simp [comparisons, comparison?] at none
    | value text => exact absurd (parts _ List.mem_cons_self) id
    | eof => exact absurd (parts _ List.mem_cons_self) id

end Token

namespace Clause

variable {clause : Clause} {clauses : List Clause} {group : List Token} {groups : List (List Token)}

/-- Where no value stands right behind a name, the comparison that counts stands before the
value. -/
theorem GatheredFrom.split (h : clause.GatheredFrom group) (ordered : Token.Ordered group) :
    ∃ front : List Token, group = front ++ [.operator clause.op, .value clause.literal] ∧
      (∀ token ∈ front, token.IsPart) ∧ front.filterMap Token.name? = clause.path := by
  obtain ⟨parts_ok, gathered, complete⟩ := h
  next parts =>
  simp only [PartialClause.ofParts, PartialClause.mk.injEq] at gathered
  obtain ⟨names, last⟩ := gathered
  rcases List.eq_nil_or_concat parts with rfl | ⟨front, token, rfl⟩
  · exact absurd names.symm complete.1
  · rw [List.concat_eq_append] at parts_ok names last ordered ⊢
    have part := parts_ok token (by simp)
    cases token with
    | segment text => exact absurd ⟨front, [], by simp⟩ (ordered text clause.literal)
    | operator op =>
      obtain rfl : op = clause.op := by
        simpa [Token.comparisons, Token.comparison?] using last
      refine ⟨front, by simp, fun other held => parts_ok other (List.mem_append_left _ held), ?_⟩
      simpa [Token.name?, List.filterMap_cons] using names
    | value text => exact absurd part id
    | eof => exact absurd part id

/-- Of the comparisons of some groups one is answered for each clause. -/
theorem length_comparisons (made : List.Forall₂ GatheredFrom clauses groups)
    (ordered : Token.Ordered groups.flatten) :
    (Token.comparisons (groups.flatten ++ [.eof])).length
      = clauses.length + Token.unanswered (groups.flatten ++ [.eof]) := by
  induction made with
  | nil => rfl
  | @cons clause group clauses groups first _ ih =>
    rw [List.flatten_cons] at ordered ⊢
    obtain ⟨front, rfl, parts, -⟩ := first.split (ordered.of_infix (List.prefix_append _ _).isInfix)
    have tail := ih (ordered.of_infix (List.suffix_append _ _).isInfix)
    rw [List.append_assoc _ groups.flatten, Token.unanswered_front parts]
    simp only [Token.comparisons, List.filterMap_append, List.filterMap_cons, List.filterMap_nil,
      Token.comparison?, List.length_append, List.length_cons, List.length_nil] at tail ⊢
    omega

/-- If all comparisons are answered, the groups are the tokens of the clauses. -/
theorem flatten_eq_tokens (made : List.Forall₂ GatheredFrom clauses groups)
    (ordered : Token.Ordered groups.flatten)
    (answered : Token.unanswered (groups.flatten ++ [.eof]) = 0) :
    groups.flatten = clauses.flatMap tokens := by
  induction made with
  | nil => rfl
  | @cons clause group clauses groups first _ ih =>
    rw [List.flatten_cons] at ordered answered ⊢
    obtain ⟨front, rfl, parts, names⟩ :=
      first.split (ordered.of_infix (List.prefix_append _ _).isInfix)
    rw [List.append_assoc _ groups.flatten, Token.unanswered_front parts,
      Nat.add_eq_zero_iff] at answered
    have tail := ih (ordered.of_infix (List.suffix_append _ _).isInfix) answered.2
    have front_eq := Token.eq_names parts (List.length_eq_zero_iff.1 answered.1)
    rw [names] at front_eq
    rw [List.flatMap_cons, ← tail, tokens, front_eq]

/-- The comparisons of clauses as they are meant to be written are answered. -/
theorem unanswered_tokens (clauses : List Clause) :
    Token.unanswered (clauses.flatMap tokens ++ [.eof]) = 0 := by
  induction clauses with
  | nil => rfl
  | cons clause clauses ih =>
    have parts : ∀ token ∈ clause.path.map Token.segment, token.IsPart := by
      simp [Token.IsPart]
    have none : Token.comparisons (clause.path.map .segment) = [] := by
      simp [Token.comparisons, Token.comparison?]
    rw [List.flatMap_cons, List.append_assoc, tokens, Token.unanswered_front parts, none, ih]
    rfl

end Clause

/-! ## Queries -/

namespace Query

variable {text : String} {query : Query}

/-- The tokens of an accepted text fall into groups, one for each clause. -/
theorem groups_of_parse (parsed : parse text = .ok query) :
    ∃ groups, Token.ofText text = .ok (groups.flatten ++ [.eof]) ∧
      List.Forall₂ Clause.GatheredFrom query.clauses groups := by
  obtain ⟨body, lexed, inside, assembled⟩ := assembled_of_parse parsed
  obtain ⟨groups, rfl, made⟩ := @Clause.groups_of_assemble [] body _ (by simp) inside assembled
  exact ⟨groups, lexed, made⟩

/-- The tokens of a text are in order: no value stands right behind a name. -/
theorem ordered_of_ofText {tokens : List Token}
    (lexed : Token.ofText text = .ok (tokens ++ [.eof])) :
    Token.Ordered tokens :=
  Token.Ordered.of_infix (Token.ofText_eq_ok_iff.1 lexed).no_name_value
    (List.prefix_append _ _).isInfix

/-- Spaces in front are of no account for the colons. -/
theorem unquoted_dropWhile (chars : List Char) :
    (unquoted false (chars.dropWhile (· == ' '))).count ':' = (unquoted false chars).count ':' ∧
      countBare (unquoted false (chars.dropWhile (· == ' ')))
        = countBare (unquoted false chars) := by
  induction chars with
  | nil => exact ⟨rfl, rfl⟩
  | cons c chars ih =>
    by_cases blank : c = ' '
    · subst blank
      simpa [unquoted, countBare] using ih
    · simp [blank]

/-- The comparisons of a text are its colons, those without a value its bare colons. -/
theorem comparisons_ofText {tokens : List Token} (lexed : Token.ofText text = .ok tokens) :
    (Token.comparisons tokens).length = colons text ∧
      Token.unanswered tokens = bareColons text := by
  have lexes := Token.ofText_eq_ok_iff.1 lexed
  obtain ⟨colons_eq, bare_eq⟩ := unquoted_dropWhile text.toList
  exact ⟨lexes.length_comparisons.trans colons_eq, lexes.unanswered_eq.trans bare_eq⟩

/-- Every colon of an accepted text makes a clause or is bare. -/
theorem length_clauses (parsed : parse text = .ok query) :
    query.clauses.length + bareColons text = colons text := by
  obtain ⟨groups, lexed, made⟩ := groups_of_parse parsed
  have counted := Clause.length_comparisons made (ordered_of_ofText lexed)
  obtain ⟨colons_eq, bare_eq⟩ := comparisons_ofText lexed
  rw [colons_eq, bare_eq] at counted
  exact counted.symm

/-- The tokens of an accepted text are those of its clauses exactly when no colon is bare. -/
theorem bareColons_eq_zero_iff (parsed : parse text = .ok query) :
    bareColons text = 0 ↔
      Token.ofText text = .ok (query.clauses.flatMap Clause.tokens ++ [.eof]) := by
  obtain ⟨groups, lexed, made⟩ := groups_of_parse parsed
  constructor
  · intro none
    rw [← (comparisons_ofText lexed).2] at none
    rw [lexed, Clause.flatten_eq_tokens made (ordered_of_ofText lexed) none]
  · intro shape
    rw [← (comparisons_ofText shape).2]
    exact Clause.unanswered_tokens query.clauses

/-- Each clause of an accepted text is made of some tokens of the text. -/
theorem exists_group (parsed : parse text = .ok query) {clause : Clause}
    (held : clause ∈ query.clauses) :
    ∃ tokens, Token.ofText text = .ok tokens ∧ ∃ group ⊆ tokens, clause.GatheredFrom group := by
  obtain ⟨groups, lexed, made⟩ := groups_of_parse parsed
  refine ⟨_, lexed, ?_⟩
  clear lexed
  generalize query.clauses = clauses at held made
  induction made with
  | nil => cases held
  | @cons _ group _ groups first _ ih =>
    rcases List.mem_cons.1 held with rfl | held
    · exact ⟨group, by simp, first⟩
    · obtain ⟨other, within, made⟩ := ih held
      refine ⟨other, fun token inside => ?_, made⟩
      rw [List.flatten_cons, List.append_assoc]
      exact List.mem_append_right _ (within inside)

/-- Each clause of a parsed query has a path and a value. -/
theorem complete_of_parse (parsed : parse text = .ok query) :
    ∀ clause ∈ query.clauses, clause.IsComplete := by
  intro clause held
  obtain ⟨_, _, _, _, made⟩ := exists_group parsed held
  exact made.complete

end Query

/-- Of an accepted text the tokens fall into groups of names, comparisons and a value, each of which
makes one clause; every colon outside quotes makes a clause or is bare; and the groups are a path, a
comparison and a value each exactly when no colon is bare.  A text without bare colons whose tokens
do not fall into such groups is refused as an invalid query. -/
theorem parse_gathers (text : String) :
    (∀ query : Query, Query.parse text = .ok query →
      (∃ groups, Token.ofText text = .ok (groups.flatten ++ [.eof]) ∧
        List.Forall₂ Clause.GatheredFrom query.clauses groups) ∧
      query.clauses.length + Query.bareColons text = Query.colons text ∧
      (Query.bareColons text = 0 ↔
        Token.ofText text = .ok (query.clauses.flatMap Clause.tokens ++ [.eof]))) ∧
    (Query.bareColons text = 0 →
      (∀ clauses : List Clause, (∀ clause ∈ clauses, clause.IsComplete) →
        Token.ofText text ≠ .ok (clauses.flatMap Clause.tokens ++ [.eof])) →
      ∃ reason, Query.parse text = .error reason ∧
        (Error.query reason).report.kind = .invalidQuery) := by
  constructor
  · intro query parsed
    exact ⟨Query.groups_of_parse parsed, Query.length_clauses parsed,
      Query.bareColons_eq_zero_iff parsed⟩
  · intro none foreign
    cases parsed : Query.parse text with
    | error reason => exact ⟨reason, rfl, rfl⟩
    | ok query =>
      have shape := (Query.bareColons_eq_zero_iff parsed).1 none
      exact absurd shape (foreign query.clauses (Query.complete_of_parse parsed))

/-- A text with a bare colon. -/
theorem ofText_bare_colon : Token.ofText "a: b:1"
    = .ok [.segment "a", .operator .eq, .segment "b", .operator .eq, .value "1", .eof] := by
  have value : Lexes .value ['1'] [.value "1", .eof] := @Lexes.word _ ['1'] [] _
    (by simp) (by simp [Mode.endsWord]) (by simp) .done
  have second : Lexes .path ['b', ':', '1'] _ := @Lexes.word _ ['b'] [':', '1'] _
    (by simp) (by simp [Mode.endsWord]) (by simp [Mode.endsWord])
    (@Lexes.colon .eq ['1'] _ (by simp) value)
  have first : Lexes .path ['a', ':', ' ', 'b', ':', '1'] _ := @Lexes.word _ ['a'] _ _
    (by simp) (by simp [Mode.endsWord]) (by simp [Mode.endsWord])
    (@Lexes.colon .eq _ _ (by simp) (@Lexes.spaces ['b', ':', '1'] _ 0 (by simp) second))
  exact Token.ofText_eq_ok_iff.2 first

/-- A clause without a value is not refused when another one follows: its name becomes the first
name of the other clause, and the tokens are not those of clauses. -/
theorem parse_bare_colon :
    Query.parse "a: b:1" = .ok ⟨[⟨["a", "b"], .eq, "1"⟩]⟩ ∧
    ∀ clauses : List Clause,
      Token.ofText "a: b:1" ≠ .ok (clauses.flatMap Clause.tokens ++ [.eof]) := by
  refine ⟨?_, fun clauses shape => ?_⟩
  · rw [Query.parse, if_neg (by decide), ofText_bare_colon]
    rfl
  · have answered := Clause.unanswered_tokens clauses
    rw [ofText_bare_colon] at shape
    rw [← Except.ok.inj shape] at answered
    exact absurd answered (by decide)

/-- Of the two colons one makes a clause and one is bare.  A text of one name has no colon, and is
refused. -/
theorem gathers_bare_colon :
    (∃ query, Query.parse "a: b:1" = .ok query ∧
      query.clauses.length + Query.bareColons "a: b:1" = Query.colons "a: b:1" ∧
      Query.bareColons "a: b:1" = 1 ∧ Query.colons "a: b:1" = 2) ∧
    Query.bareColons "a" = 0 ∧ ∃ reason, Query.parse "a" = .error reason ∧
      (Error.query reason).report.kind = .invalidQuery := by
  have parsed : Query.parse "a: b:1" = .ok ⟨[⟨["a", "b"], .eq, "1"⟩]⟩ := by
    rw [Query.parse, if_neg (by decide), ofText_bare_colon]
    rfl
  have name : Token.ofText "a" = .ok [.segment "a", .eof] :=
    Token.ofText_eq_ok_iff.2 (@Lexes.word _ ['a'] [] _ (by simp) (by simp [Mode.endsWord])
      (by simp) .done)
  refine ⟨⟨_, parsed, ((parse_gathers _).1 _ parsed).2.1, by decide, by decide⟩, by decide,
    (parse_gathers "a").2 (by decide) fun clauses _ shape => ?_⟩
  rw [name] at shape
  have lengths := congrArg List.length (Except.ok.inj shape)
  cases clauses with
  | nil => simp at lengths
  | cons clause clauses =>
    simp [Clause.tokens] at lengths
    omega

end DocumentBase
