import DocumentBase.Proofs.Document.Codec
import DocumentBase.Proofs.Execution
import DocumentBase.Proofs.Query.Accepted

/-!
# DocumentBase.Proofs.Query.Conjunction

A space between two queries means that both have to hold.  For texts: where an accepted text ends a
space and another text can follow, and what is read is the clauses of the one and then those of the
other (`Query.parse_append_space`); lexing has come to the end of a value by then, and nothing is
left gathered.  Only a point at the end of a text is in the way, since no space may come behind it.
For answers: the hits of two lists of clauses together are the hits that both have
(`Engine.execute_append`), so neither order nor repetition of clauses is seen in the hits.
-/

namespace DocumentBase

/-! ## Lexing on behind a value -/

/- The induction is on the rules of the first text.  Where it ends, a value has been read, and a
space leads from there to a path, which is where the other text is lexed from. -/

/-- Whether some tokens end with a value, apart from the end of the text. -/
def Token.EndInValue (tokens : List Token) : Prop :=
  ∀ token ∈ tokens.dropLast.getLast?, ∃ text, token = .value text

namespace Lexes

variable {mode : Mode} {chars others : List Char} {tokens more : List Token}

/-- Behind spaces a path begins. -/
theorem spaces_dropWhile (count : Nat) (tail : Lexes .path (others.dropWhile (· == ' ')) more) :
    Lexes .value (List.replicate (count + 1) ' ' ++ others) more := by
  obtain ⟨further, split⟩ := dropWhile_spaces others
  rw [split, ← List.append_assoc, List.replicate_append_replicate, Nat.add_right_comm]
  exact .spaces _ (fun first => by simpa using Cursor.of_mem_head?_dropWhile first) tail

theorem ne_nil (h : Lexes mode chars tokens) : tokens ≠ [] := by
  obtain ⟨body, rfl, -⟩ := h.split_eof
  simp

/-- The empty text has no tokens but the end. -/
theorem eq_eof (h : Lexes mode [] tokens) : tokens = [.eof] := by
  generalize empty : [] = chars at h
  cases h with
  | done => rfl
  | word nonempty =>
    rw [List.nil_eq, List.append_eq_nil_iff] at empty
    exact absurd empty.1 nonempty
  | quoted | colon | point | spaces => cases empty

/-- The tokens behind the first one end as all do. -/
theorem endInValue_tail (h : Lexes mode chars tokens) {token : Token}
    (closed : Token.EndInValue (token :: tokens)) : Token.EndInValue tokens := by
  intro last held
  refine closed last ?_
  rw [List.dropLast_cons_of_ne_nil h.ne_nil, List.getLast?_cons, Option.mem_def.1 held]
  rfl

/-- A name that ends a text is not followed by a value. -/
theorem rest_ne_nil (h : Lexes .path chars tokens) {text : String}
    (closed : Token.EndInValue (.segment text :: tokens)) : chars ≠ [] := by
  rintro rfl
  rw [h.eq_eof] at closed
  obtain ⟨value, same⟩ := closed (.segment text) rfl
  cases same

/-- What ends otherwise than in a point still does when its front is taken away. -/
theorem getLast?_rest {front rest : List Char} (h : (front ++ rest).getLast? ≠ some '.') :
    rest.getLast? ≠ some '.' := by
  intro last
  rw [List.getLast?_append, last] at h
  exact h rfl

/-- Behind a text that ends with a value, and not with a point, a space and another text can
follow. -/
theorem append_space (h : Lexes mode chars tokens) (nonempty : mode = .path → chars ≠ [])
    (point : chars.getLast? ≠ some '.') (closed : Token.EndInValue tokens)
    (tail : Lexes .path (others.dropWhile (· == ' ')) more) :
    Lexes mode (chars ++ ' ' :: others) (tokens.dropLast ++ more) := by
  induction h with
  | @done mode =>
    cases mode with
    | path => exact absurd rfl (nonempty rfl)
    | value => exact spaces_dropWhile 0 tail
  | @quoted mode text rest tokens plain lexed ih =>
    have going : mode = .path → rest ≠ [] := by
      rintro rfl
      exact lexed.rest_ne_nil closed
    have point' : rest.getLast? ≠ some '.' := by
      refine @getLast?_rest ('"' :: (text ++ ['"'])) rest ?_
      simpa using point
    have back := ih going point' (lexed.endInValue_tail closed)
    rw [List.dropLast_cons_of_ne_nil lexed.ne_nil]
    simpa using Lexes.quoted plain back
  | @word mode text rest tokens some inside stop lexed ih =>
    have going : mode = .path → rest ≠ [] := by
      rintro rfl
      exact lexed.rest_ne_nil closed
    have back := ih going (getLast?_rest point) (lexed.endInValue_tail closed)
    have stop' : ∀ c ∈ (rest ++ ' ' :: others).head?, mode.endsWord c = true := by
      cases rest with
      | nil => simp [Mode.endsWord]
      | cons c rest => exact stop
    rw [List.dropLast_cons_of_ne_nil lexed.ne_nil, List.append_assoc]
    exact .word some inside stop' back
  | @colon op rest tokens plain lexed ih =>
    have point' : rest.getLast? ≠ some '.' := @getLast?_rest (':' :: op.signChars) rest point
    have back := ih (by simp) point' (lexed.endInValue_tail closed)
    have plain' : op = .eq → ∃ c ∈ (rest ++ ' ' :: others).head?, c ≠ '<' ∧ c ≠ '>' := by
      cases rest with
      | nil => simp
      | cons c rest => exact plain
    rw [List.dropLast_cons_of_ne_nil lexed.ne_nil, List.cons_append, List.append_assoc]
    exact .colon plain' back
  | @point rest tokens lexed ih =>
    have going : rest ≠ [] := by
      rintro rfl
      exact point rfl
    exact .point (ih (fun _ => going) (@getLast?_rest ['.'] rest point) closed)
  | @spaces rest tokens count _ lexed ih =>
    by_cases ended : rest = []
    · subst ended
      have blanks : List.replicate (count + 1) ' ' ++ ' ' :: others
          = List.replicate (count + 1 + 1) ' ' ++ others := by
        rw [List.append_cons, ← List.replicate_succ']
      rw [lexed.eq_eof, List.append_nil, blanks]
      exact spaces_dropWhile (count + 1) tail
    · have back := ih (fun _ => ended) (getLast?_rest point) closed
      rw [List.append_assoc]
      exact back.of_spaces count

end Lexes

/-! ## Assembling on behind a clause -/

/-- After the clauses of some tokens nothing is left gathered, so what follows is assembled as if it
stood alone. -/
theorem Clause.assemble_append {body rest : List Token} {clauses : List Clause}
    (inside : .eof ∉ body) (h : assemble {} (body ++ [.eof]) = .ok clauses) :
    assemble {} (body ++ rest) = (assemble {} rest).map (clauses ++ ·) := by
  obtain ⟨groups, split, made⟩ := @groups_of_assemble [] body clauses (by simp) inside h
  rw [List.nil_append] at split
  rw [split, assemble_groups made]

/-- The last token that is assembled is a value. -/
theorem Clause.endInValue_of_assemble {gathered : PartialClause} {body : List Token}
    {clauses : List Clause} (inside : .eof ∉ body)
    (h : assemble gathered (body ++ [.eof]) = .ok clauses) :
    ∀ token ∈ body.getLast?, ∃ text, token = .value text := by
  -- With a name or a comparison at the end a clause would have been started.
  induction body generalizing gathered clauses with
  | nil => simp
  | cons token body ih =>
    have inside' : .eof ∉ body := fun held => inside (List.mem_cons_of_mem _ held)
    cases token with
    | segment text =>
      cases body with
      | nil => simp [assemble, PartialClause.isStarted] at h
      | cons next body => rw [List.getLast?_cons_cons]; exact ih inside' h
    | operator op =>
      cases body with
      | nil => simp [assemble, PartialClause.isStarted] at h
      | cons next body => rw [List.getLast?_cons_cons]; exact ih inside' h
    | value text =>
      simp only [List.cons_append, assemble] at h
      split at h
      · cases h
      · obtain ⟨others, assembled, -⟩ := Collecting.map_eq_ok_iff.1 h
        cases body with
        | nil => simp
        | cons next body => rw [List.getLast?_cons_cons]; exact ih inside' assembled
    | eof => exact absurd List.mem_cons_self inside

/-! ## Parsing one text behind another -/

namespace Query

/-- A text in which spaces are dropped in front ends as before. -/
theorem getLast?_dropWhile {text : List Char} (visible : text.dropWhile (· == ' ') ≠ []) :
    (text.dropWhile (· == ' ')).getLast? = text.getLast? := by
  obtain ⟨count, split⟩ := dropWhile_spaces text
  conv => rhs; rw [split, List.getLast?_append]
  rw [List.getLast?_eq_some_getLast visible]
  rfl

/-- Between two accepted texts a space can stand, unless the first one ends with a point; what is
read is the clauses of the first and then those of the second. -/
theorem parse_append_space {text other : String} {query next : Query}
    (parsed : parse text = .ok query) (nonempty : query.clauses ≠ [])
    (point : text.toList.getLast? ≠ some '.') (parsed_next : parse other = .ok next) :
    parse (text ++ " " ++ other) = .ok ⟨query.clauses ++ next.clauses⟩ := by
  obtain ⟨body, lexed, inside, assembled⟩ := assembled_of_parse parsed
  obtain ⟨more, lexed_next, -, assembled_next⟩ := assembled_of_parse parsed_next
  have lexes := Token.ofText_eq_ok_iff.1 lexed
  have visible : text.toList.dropWhile (· == ' ') ≠ [] := by
    intro blank
    rw [blank] at lexes
    obtain rfl : body = [] := by simpa using lexes.eq_eof
    exact nonempty (Except.ok.inj assembled).symm
  have closed : Token.EndInValue (body ++ [.eof]) := by
    rw [Token.EndInValue, List.dropLast_concat]
    exact Clause.endInValue_of_assemble inside assembled
  have joined := lexes.append_space (fun _ => visible)
    (by rw [getLast?_dropWhile visible]; exact point) closed
    (Token.ofText_eq_ok_iff.1 lexed_next)
  rw [List.dropLast_concat] at joined
  have tokens : Token.ofText (text ++ " " ++ other) = .ok (body ++ (more ++ [.eof])) := by
    refine Token.ofText_eq_ok_iff.2 ?_
    have chars : (text ++ " " ++ other).toList = text.toList ++ ' ' :: other.toList := by simp
    rw [chars, List.dropWhile_append, if_neg (by simpa using visible)]
    exact joined
  have clauses : Clause.ofTokens (body ++ (more ++ [.eof]))
      = .ok (query.clauses ++ next.clauses) := by
    rw [Clause.ofTokens, Clause.assemble_append inside assembled, assembled_next]
    rfl
  obtain ⟨clause, clauses', some_clause⟩ := List.exists_cons_of_ne_nil nonempty
  rw [parse, if_neg (by simp), tokens]
  dsimp only
  rw [clauses, some_clause]
  rfl

end Query

/-! ## Answering one list of clauses behind another -/

/- A clause more can only take hits away, and so can a key more that is looked up.  What the two
lists propose together is what both propose. -/

namespace Engine

variable {engine : Engine} {now : Instant} {clauses others : List Clause} {hits : List Hit}

/-- More clauses have an answer where fewer have one: what more clauses propose is proposed by
fewer, so no unreadable document comes up. -/
theorem execute_ok_of_subset (subset : clauses ⊆ others) (nonempty : clauses ≠ [])
    (executed : engine.execute now ⟨clauses⟩ = .ok hits) :
    ∃ fewer, engine.execute now ⟨others⟩ = .ok fewer := by
  cases h : engine.execute now ⟨others⟩ with
  | ok fewer => exact ⟨fewer, rfl⟩
  | error e =>
    have nonempty' : others ≠ [] := fun none => nonempty (List.subset_nil.1 (none ▸ subset))
    obtain ⟨id, proposed, unreadable⟩ := (@execute_error_iff _ _ ⟨others⟩ nonempty').1 ⟨e, h⟩
    have fails : ∃ e, engine.execute now ⟨clauses⟩ = .error e :=
      (@execute_error_iff _ _ ⟨clauses⟩ nonempty).2
        ⟨id, fun clause held => proposed clause (subset held), unreadable⟩
    rw [executed] at fails
    simp at fails

/-- The hits of more clauses are those hits of fewer that are proposed and satisfy the others. -/
theorem hits_subset (subset : clauses ⊆ others) (nonempty : clauses ≠ []) {fewer : List Hit}
    (executed : engine.execute now ⟨clauses⟩ = .ok hits)
    (executed' : engine.execute now ⟨others⟩ = .ok fewer) : fewer ⊆ hits := by
  have nonempty' : others ≠ [] := fun none => nonempty (List.subset_nil.1 (none ▸ subset))
  intro hit held
  obtain ⟨proposed, got, holds⟩ :=
    (@mem_of_execute_eq_ok _ _ ⟨others⟩ nonempty' _ executed' _).1 held
  exact (@mem_of_execute_eq_ok _ _ ⟨clauses⟩ nonempty _ executed _).2
    ⟨fun clause hc => proposed clause (subset hc), got, fun clause hc => holds clause (subset hc)⟩

/-- Two lists of clauses together have the hits that both have. -/
theorem execute_append (nonempty : clauses ≠ []) (nonempty' : others ≠ []) {hits' : List Hit}
    (executed : engine.execute now ⟨clauses⟩ = .ok hits)
    (executed' : engine.execute now ⟨others⟩ = .ok hits') :
    ∃ both, engine.execute now ⟨clauses ++ others⟩ = .ok both ∧ (both.map (·.id)).Nodup ∧
      ∀ hit, hit ∈ both ↔ hit ∈ hits ∧ hit ∈ hits' := by
  have joined : clauses ++ others ≠ [] := by simp [nonempty]
  obtain ⟨both, h⟩ :=
    execute_ok_of_subset (List.subset_append_left clauses others) nonempty executed
  refine ⟨both, h, @nodup_of_execute_eq_ok _ _ ⟨_⟩ joined _ h, fun hit => ?_⟩
  constructor
  · intro held
    exact ⟨hits_subset (List.subset_append_left _ _) nonempty executed h held,
      hits_subset (List.subset_append_right _ _) nonempty' executed' h held⟩
  · intro ⟨held, held'⟩
    rw [@mem_of_execute_eq_ok _ _ ⟨_⟩ nonempty _ executed] at held
    rw [@mem_of_execute_eq_ok _ _ ⟨_⟩ nonempty' _ executed'] at held'
    rw [@mem_of_execute_eq_ok _ _ ⟨_⟩ joined _ h]
    exact ⟨List.forall_mem_append.2 ⟨held.1, held'.1⟩, held.2.1,
      List.forall_mem_append.2 ⟨held.2.2, held'.2.2⟩⟩

/-- Neither the order of clauses nor how often they come makes a difference. -/
theorem sameAnswer_of_same_clauses (same : ∀ clause, clause ∈ clauses ↔ clause ∈ others) :
    SameAnswer (engine.execute now ⟨clauses⟩) (engine.execute now ⟨others⟩) := by
  have subset : clauses ⊆ others := fun clause => (same clause).1
  have subset' : others ⊆ clauses := fun clause => (same clause).2
  by_cases none : clauses = []
  · subst none
    obtain rfl := List.subset_nil.1 subset'
    exact .refl []
  · have none' : others ≠ [] := fun none' => none (List.subset_nil.1 (none' ▸ subset))
    cases h : engine.execute now ⟨clauses⟩ with
    | ok hits =>
      obtain ⟨hits', h'⟩ := execute_ok_of_subset subset none h
      rw [h']
      refine (List.perm_ext_iff_of_nodup (@nodup_of_execute_eq_ok _ _ ⟨_⟩ none _ h).of_map
        (@nodup_of_execute_eq_ok _ _ ⟨_⟩ none' _ h').of_map).2 fun hit => ?_
      exact ⟨fun held => hits_subset subset' none' h' h held,
        fun held => hits_subset subset none h h' held⟩
    | error e =>
      cases h' : engine.execute now ⟨others⟩ with
      | ok hits =>
        obtain ⟨hits', h''⟩ := execute_ok_of_subset subset' none' h'
        rw [h] at h''
        cases h''
      | error e' =>
        exact (@internal_of_execute_eq_error _ _ ⟨_⟩ none _ h).trans
          (@internal_of_execute_eq_error _ _ ⟨_⟩ none' _ h').symm

end Engine

/-- A space between queries means that both have to hold.  Two accepted texts with a space between
them are read as the clauses of both, unless the first ends with a point.  The hits of two lists of
clauses together are those that both have; neither order nor repetition of clauses makes a
difference, and with more clauses there are no more hits. -/
theorem space_conjoins :
    (∀ (text other : String) (query next : Query), Query.parse text = .ok query →
      query.clauses ≠ [] → text.toList.getLast? ≠ some '.' → Query.parse other = .ok next →
      Query.parse (text ++ " " ++ other) = .ok ⟨query.clauses ++ next.clauses⟩) ∧
    (∀ (engine : Engine) (now : Instant) (clauses others : List Clause) (hits hits' : List Hit),
      clauses ≠ [] → others ≠ [] → engine.execute now ⟨clauses⟩ = .ok hits →
      engine.execute now ⟨others⟩ = .ok hits' →
      ∃ both, engine.execute now ⟨clauses ++ others⟩ = .ok both ∧ (both.map (·.id)).Nodup ∧
        ∀ hit, hit ∈ both ↔ hit ∈ hits ∧ hit ∈ hits') ∧
    (∀ (engine : Engine) (now : Instant) (clauses others : List Clause),
      (∀ clause, clause ∈ clauses ↔ clause ∈ others) →
      Engine.SameAnswer (engine.execute now ⟨clauses⟩) (engine.execute now ⟨others⟩)) ∧
    (∀ (engine : Engine) (now : Instant) (clauses others : List Clause) (hits : List Hit),
      clauses ≠ [] → engine.execute now ⟨clauses⟩ = .ok hits →
      ∃ fewer, engine.execute now ⟨clauses ++ others⟩ = .ok fewer ∧ fewer ⊆ hits) := by
  refine ⟨?_, ?_, ?_, ?_⟩
  · intro text other query next parsed nonempty point parsed_next
    exact Query.parse_append_space parsed nonempty point parsed_next
  · intro engine now clauses others hits hits' nonempty nonempty' executed executed'
    exact Engine.execute_append nonempty nonempty' executed executed'
  · intro engine now clauses others same
    exact Engine.sameAnswer_of_same_clauses same
  · intro engine now clauses others hits nonempty executed
    have subset := List.subset_append_left clauses others
    obtain ⟨fewer, h⟩ := Engine.execute_ok_of_subset subset nonempty executed
    exact ⟨fewer, h, Engine.hits_subset subset nonempty executed h⟩

/-- A document of two fields. -/
def twoFields : Document := .ofFields [("a", .string "1"), ("b", .string "x y")]

/-- An engine that has the document and knows it under both of its equality keys. -/
def twoKeys : Engine where
  documents := ⟨⟨none, [(⟨"only"⟩, ⟨twoFields.encode, none⟩)], by simp⟩⟩
  index := ⟨⟨none, [("a=1", ⟨⟨[⟨"only"⟩], by decide⟩, none⟩),
    ("b=x y", ⟨⟨[⟨"only"⟩], by decide⟩, none⟩)], by decide⟩⟩

theorem execute_twoKeys {clause : Clause}
    (proposed : twoKeys.candidates 0 [clause] = [⟨"only"⟩]) (holds : clause.holds twoFields) :
    twoKeys.execute 0 ⟨[clause]⟩ = .ok [⟨⟨"only"⟩, twoFields⟩] := by
  have decoded : Document.decode twoFields.encode = .ok twoFields := by
    rw [Document.decode_encode (by decide), if_pos (by decide)]
  have got : twoKeys.documents.get 0 ⟨"only"⟩ = .ok twoFields :=
    DocumentStore.get_eq_ok_iff.2 ⟨twoFields.encode, rfl, decoded⟩
  have good : Query.matches ⟨[clause]⟩ twoFields = true := by
    simpa [Engine.matches_iff] using holds
  have verified : twoKeys.verify 0 ⟨[clause]⟩ ⟨"only"⟩ = .ok (some ⟨⟨"only"⟩, twoFields⟩) :=
    Engine.verify_eq_some_iff.2 ⟨rfl, got, good⟩
  rw [Engine.execute_eq _ _ (by simp), proposed, Engine.hitsAmong]
  rw [Collecting.mapM_cons, verified]
  rfl

/-- Two texts with spaces around them, joined by one more: the document is found by both, so it is
found by both together, in either order. -/
theorem space_conjoins_twoKeys :
    Query.parse ("a:1 " ++ " " ++ " b:\"x y\"")
      = .ok ⟨[⟨["a"], .eq, "1"⟩] ++ [⟨["b"], .eq, "x y"⟩]⟩ ∧
    (∃ both, twoKeys.execute 0 ⟨[⟨["a"], .eq, "1"⟩] ++ [⟨["b"], .eq, "x y"⟩]⟩ = .ok both ∧
      ⟨⟨"only"⟩, twoFields⟩ ∈ both) ∧
    Engine.SameAnswer (twoKeys.execute 0 ⟨[⟨["a"], .eq, "1"⟩, ⟨["b"], .eq, "x y"⟩]⟩)
      (twoKeys.execute 0 ⟨[⟨["b"], .eq, "x y"⟩, ⟨["a"], .eq, "1"⟩, ⟨["b"], .eq, "x y"⟩]⟩) ∧
    ∃ fewer, twoKeys.execute 0 ⟨[⟨["a"], .eq, "1"⟩] ++ [⟨["c"], .eq, "2"⟩]⟩ = .ok fewer ∧
      fewer ⊆ [⟨⟨"only"⟩, twoFields⟩] := by
  obtain ⟨parsing, answering, same, fewer⟩ := space_conjoins
  have number : ClauseSpelling ⟨["a"], .eq, "1"⟩ _ :=
    .mk (.last (.bare (by simp [IsBareName]))) (.bare (by simp [IsBareValue]))
  have words : ClauseSpelling ⟨["b"], .eq, "x y"⟩ _ :=
    .mk (.last (.bare (by simp [IsBareName]))) (.quoted (by simp) (by simp))
  have first : Query.parse "a:1 " = .ok ⟨[⟨["a"], .eq, "1"⟩]⟩ :=
    Query.parse_of_spelling (QuerySpelling.mk 0 1 (.last number))
  have second : Query.parse " b:\"x y\"" = .ok ⟨[⟨["b"], .eq, "x y"⟩]⟩ :=
    Query.parse_of_spelling (QuerySpelling.mk 1 0 (.last words))
  have found : twoKeys.execute 0 ⟨[⟨["a"], .eq, "1"⟩]⟩ = .ok [⟨⟨"only"⟩, twoFields⟩] :=
    execute_twoKeys (by decide) (by decide)
  have found' : twoKeys.execute 0 ⟨[⟨["b"], .eq, "x y"⟩]⟩ = .ok [⟨⟨"only"⟩, twoFields⟩] :=
    execute_twoKeys (by decide) (by decide)
  obtain ⟨both, executed, -, hits⟩ :=
    answering twoKeys 0 _ _ _ _ (by simp) (by simp) found found'
  refine ⟨parsing _ _ _ _ first (by simp) (by decide) second,
    ⟨both, executed, (hits _).2 (by simp)⟩, same _ _ _ _ (by simp),
    fewer _ _ _ _ _ (by simp) found⟩

end DocumentBase
