import DocumentBase.Proofs.Query.Accepted

/-!
# DocumentBase.Proofs.Query.Assembled

What is made of tokens in any order, also of such as no text has.  Up to the end they fall into
groups, each of names and comparisons and then a value, and a rest without a value
(`Token.grouped`).  A group makes a clause unless it lacks a part; a rest makes none.

The groups are finished one after the other.  So the first group that lacks a part is the one that
is reported, for the first part that it lacks, and a rest is reported only where no group lacks
anything (`assembles_exactly`).
-/

namespace DocumentBase

/-! ## Groups and a rest -/

/-- Tokens in groups, each of parts and then a value, and a rest of parts only. -/
inductive Token.Grouped : List Token → Prop where
  | left {parts : List Token} : (∀ token ∈ parts, token.IsPart) → Grouped parts
  | group {parts rest : List Token} (value : String) : (∀ token ∈ parts, token.IsPart) →
      Grouped rest → Grouped (parts ++ .value value :: rest)

theorem Token.Grouped.cons {token : Token} {body : List Token} (part : token.IsPart)
    (h : Grouped body) : Grouped (token :: body) := by
  have front {parts : List Token} (parts_ok : ∀ token ∈ parts, token.IsPart) :
      ∀ other ∈ token :: parts, other.IsPart := List.forall_mem_cons.2 ⟨part, parts_ok⟩
  cases h with
  | left parts_ok => exact .left (front parts_ok)
  | group value parts_ok rest => exact .group value (front parts_ok) rest

/-- All tokens but the end fall into groups and a rest. -/
theorem Token.grouped {body : List Token} (inside : .eof ∉ body) : Grouped body := by
  induction body with
  | nil => exact .left (by simp)
  | cons token body ih =>
    have others := ih fun held => inside (List.mem_cons_of_mem _ held)
    cases token with
    | segment text => exact others.cons trivial
    | operator op => exact others.cons trivial
    | value text => exact @Grouped.group [] body text (by simp) others
    | eof => exact absurd List.mem_cons_self inside

/-! ## What a group lacks -/

/-- The groups of tokens of which no clause is made, and why: the first part is reported that is
lacking of a path, a comparison and a value. -/
inductive Clause.Lacks : List Token → QueryError → Prop where
  | path {parts : List Token} {value : String} : (∀ token ∈ parts, token.IsPart) →
      parts.filterMap Token.name? = [] →
      Lacks (parts ++ [.value value]) (.missingPath value)
  | comparison {parts : List Token} {value : String} : (∀ token ∈ parts, token.IsPart) →
      parts.filterMap Token.name? ≠ [] → Token.comparisons parts = [] →
      Lacks (parts ++ [.value value]) (.missingColon (parts.filterMap Token.name?))
  | value {parts : List Token} : (∀ token ∈ parts, token.IsPart) →
      parts.filterMap Token.name? ≠ [] → Token.comparisons parts ≠ [] →
      Lacks (parts ++ [.value ""]) (.emptyValue (parts.filterMap Token.name?))

/-- Why no clauses are made of some tokens behind the groups that make clauses. -/
def Clause.Stops (rest : List Token) (reason : QueryError) : Prop :=
  (∃ group behind, rest = group ++ behind ∧ Lacks group reason) ∨
    rest ≠ [] ∧ (∀ token ∈ rest, token.IsPart) ∧
      reason = .incompleteClause (rest.filterMap Token.name?)

namespace Clause

variable {parts group rest : List Token} {value : String} {reason : QueryError}

/-- What finishing a clause misses is what its group lacks. -/
theorem lacks_of_finish (parts_ok : ∀ token ∈ parts, token.IsPart)
    (h : (PartialClause.ofParts parts).finish value = .error reason) :
    Lacks (parts ++ [.value value]) reason := by
  unfold PartialClause.finish at h
  split at h
  · next unnamed =>
    cases h
    exact .path parts_ok (List.isEmpty_iff.1 unnamed)
  · next named =>
    have names : parts.filterMap Token.name? ≠ [] := fun none => named (List.isEmpty_iff.2 none)
    split at h
    · next none =>
      cases h
      exact .comparison parts_ok names (List.getLast?_eq_none_iff.1 none)
    · next op last =>
      have compared : Token.comparisons parts ≠ [] := by
        intro none
        simp [PartialClause.ofParts, none] at last
      split at h
      · next blank =>
        cases h
        obtain rfl := String.isEmpty_iff.1 blank
        exact .value parts_ok names compared
      · cases h

/-- Of a group that lacks a part no clause is made. -/
theorem Lacks.finish (h : Lacks group reason) :
    ∃ parts value, group = parts ++ [.value value] ∧ (∀ token ∈ parts, token.IsPart) ∧
      (PartialClause.ofParts parts).finish value = .error reason := by
  cases h with
  | path parts_ok unnamed =>
    exact ⟨_, _, rfl, parts_ok, by simp [PartialClause.finish, PartialClause.ofParts, unnamed]⟩
  | comparison parts_ok named none =>
    exact ⟨_, _, rfl, parts_ok, by simp [PartialClause.finish, PartialClause.ofParts, named, none]⟩
  | @value parts parts_ok named compared =>
    refine ⟨_, _, rfl, parts_ok, ?_⟩
    simp [PartialClause.finish, PartialClause.ofParts, named,
      List.getLast?_eq_some_getLast compared]

/-! ## Assembling -/

/- Nothing is gathered when a group begins, so it is assembled as if it stood alone.  The groups
before the first that lacks a part are finished by then, and those behind it are never looked at. -/

/-- What is left over without a value makes no clause. -/
theorem ofTokens_left (parts_ok : ∀ token ∈ parts, token.IsPart) :
    ofTokens (parts ++ [.eof]) =
      if parts = [] then .ok []
      else .error (.incompleteClause (parts.filterMap Token.name?)) := by
  rw [ofTokens, assemble_start parts_ok, assemble]
  by_cases none : parts = []
  · subst none
    rfl
  · have started : (PartialClause.ofParts parts).isStarted := by
      by_contra idle
      exact none (PartialClause.isStarted_ofParts parts_ok idle)
    rw [if_pos started, if_neg none]
    rfl

/-- Where assembling stops there are groups in front of which each makes a clause. -/
theorem stops_of_ofTokens {body : List Token} (grouped : Token.Grouped body)
    (h : ofTokens (body ++ [.eof]) = .error reason) :
    ∃ clauses groups rest, List.Forall₂ GatheredFrom clauses groups ∧
      body = groups.flatten ++ rest ∧ Stops rest reason := by
  induction grouped with
  | @left parts parts_ok =>
    rw [ofTokens_left parts_ok] at h
    split at h
    · cases h
    · next some_part =>
      cases h
      exact ⟨[], [], parts, .nil, rfl, .inr ⟨some_part, parts_ok, rfl⟩⟩
  | @group parts rest value parts_ok _ ih =>
    rw [List.append_assoc, List.cons_append, ofTokens, assemble_group parts_ok] at h
    split at h
    · next reason finished =>
      cases h
      exact ⟨[], [], _, .nil, rfl, .inl ⟨_, rest, by simp, lacks_of_finish parts_ok finished⟩⟩
    · next clause finished =>
      obtain ⟨gathered, rfl, complete⟩ := PartialClause.finish_eq_ok_iff.1 finished
      obtain ⟨clauses, groups, last, made, rfl, stops⟩ := ih (Collecting.map_eq_error_iff.1 h)
      exact ⟨clause :: clauses, _ :: groups, last, .cons (.mk parts_ok gathered complete) made,
        by simp, stops⟩

/-- Groups in front do not change where assembling stops, nor the reason. -/
theorem ofTokens_of_stops {clauses : List Clause} {groups : List (List Token)}
    (made : List.Forall₂ GatheredFrom clauses groups) (stops : Stops rest reason) :
    ofTokens (groups.flatten ++ rest ++ [.eof]) = .error reason := by
  rw [ofTokens, List.append_assoc, assemble_groups made, Collecting.map_eq_error_iff]
  rcases stops with ⟨group, behind, rfl, lacks⟩ | ⟨some_part, parts_ok, rfl⟩
  · obtain ⟨parts, value, rfl, parts_ok, finished⟩ := lacks.finish
    rw [List.append_assoc, List.append_assoc, List.singleton_append, assemble_group parts_ok,
      finished]
  · have left := ofTokens_left parts_ok
    rwa [if_neg some_part] at left

end Clause

/-- Clauses are made of some tokens and the end behind them exactly when the tokens fall into groups
that lack nothing, one for each clause.  Everything else is refused as an invalid query, and for
this reason: of the tokens behind some groups that lack nothing, the first group lacks a part, or
there is no further group and something is left over. -/
theorem assembles_exactly (body : List Token) (inside : .eof ∉ body) :
    (∀ clauses : List Clause, Clause.ofTokens (body ++ [.eof]) = .ok clauses ↔
      ∃ groups, body = groups.flatten ∧ List.Forall₂ Clause.GatheredFrom clauses groups) ∧
    (∀ reason : QueryError, Clause.ofTokens (body ++ [.eof]) = .error reason ↔
      ∃ clauses groups rest, List.Forall₂ Clause.GatheredFrom clauses groups ∧
        body = groups.flatten ++ rest ∧ Clause.Stops rest reason) ∧
    ((∀ clauses : List Clause, Clause.ofTokens (body ++ [.eof]) ≠ .ok clauses) →
      ∃ reason, Clause.ofTokens (body ++ [.eof]) = .error reason ∧
        (Error.query reason).report.kind = .invalidQuery) := by
  refine ⟨fun clauses => ⟨fun assembled => ?_, ?_⟩, fun reason => ⟨?_, ?_⟩, fun refused => ?_⟩
  · obtain ⟨groups, split, made⟩ :=
      @Clause.groups_of_assemble [] body clauses (by simp) inside assembled
    exact ⟨groups, by simpa using split, made⟩
  · rintro ⟨groups, rfl, made⟩
    exact Clause.ofTokens_groups made
  · exact Clause.stops_of_ofTokens (Token.grouped inside)
  · rintro ⟨clauses, groups, rest, made, rfl, stops⟩
    exact Clause.ofTokens_of_stops made stops
  · cases assembled : Clause.ofTokens (body ++ [.eof]) with
    | ok clauses => exact absurd assembled (refused clauses)
    | error reason => exact ⟨reason, rfl, rfl⟩

/-- Names and comparisons can be mixed, and the last comparison counts.  Of the two groups behind,
the first lacks a comparison and a value, the other one a path, and a name is left over; reported is
the comparison. -/
theorem assembles_exactly_mixed :
    Clause.ofTokens
        [.operator .gt, .segment "a", .operator .lt, .segment "b", .value "1", .eof]
      = .ok [⟨["a", "b"], .lt, "1"⟩] ∧
    Clause.ofTokens
        [.operator .gt, .segment "a", .operator .lt, .segment "b", .value "1",
          .segment "c", .value "", .value "2", .segment "d", .eof]
      = .error (.missingColon ["c"]) := by
  have first : Clause.GatheredFrom ⟨["a", "b"], .lt, "1"⟩
      [.operator .gt, .segment "a", .operator .lt, .segment "b", .value "1"] :=
    @Clause.GatheredFrom.mk ⟨["a", "b"], .lt, "1"⟩
      [.operator .gt, .segment "a", .operator .lt, .segment "b"]
      (by simp [Token.IsPart]) rfl ⟨by simp, by simp⟩
  have second : Clause.Lacks [.segment "c", .value ""] (.missingColon ["c"]) :=
    @Clause.Lacks.comparison [.segment "c"] "" (by simp [Token.IsPart]) (by simp [Token.name?]) rfl
  constructor
  · exact ((assembles_exactly
      [.operator .gt, .segment "a", .operator .lt, .segment "b", .value "1"] (by decide)).1 _).2
      ⟨[_], rfl, .cons first .nil⟩
  · exact ((assembles_exactly
      [.operator .gt, .segment "a", .operator .lt, .segment "b", .value "1",
        .segment "c", .value "", .value "2", .segment "d"] (by decide)).2.1 _).2
      ⟨_, [_], _, .cons first .nil, rfl, .inl ⟨_, [.value "2", .segment "d"], rfl, second⟩⟩

end DocumentBase
