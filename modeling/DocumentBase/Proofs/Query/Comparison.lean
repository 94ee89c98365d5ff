import DocumentBase.Proofs.Document.Codec
import DocumentBase.Proofs.Execution
import DocumentBase.Proofs.Number.Literals

/-!
# DocumentBase.Proofs.Query.Comparison

The three comparisons of a value with a literal.  Equality compares texts, the other two compare
numbers, and a string counts as the number that it writes.

1. Numbers other than NaN are in a linear order, the two zeros sharing a place and the infinities at
   the ends; NaN is less than nothing and greater than nothing (`Number.lt_iff`).
2. A value whose text is the literal, and that counts as a number at all, counts as the number of
   the literal (`Value.ofLiteral?_of_leafText?`).  So no value is equal to a literal and less or
   greater as well: of the three comparisons at most one holds (`comparisons_exclude`).
3. With a greater literal more is less and less is greater, and between them two literals in order
   leave out no number (`comparisons_follow_order`).  Both comparisons are looked up under the same
   index key, so this carries over to the hits, and neither query fails where the other does not.
-/

namespace DocumentBase

/-! ## The order of numbers -/

/- Each number but NaN has a rank, and the order is that of the ranks.  So the laws of the order are
those of integers, wherever a rank is there. -/

namespace Number

variable {x y z : Number}

/-- Whether both are numbers, and the first is not greater. -/
def AtMost (x y : Number) : Prop := ∃ i j, x.rank? = some i ∧ y.rank? = some j ∧ i ≤ j

/-- Numbers are in order as their ranks are, and NaN has none. -/
theorem lt_iff : x.lt y ↔ ∃ i j, x.rank? = some i ∧ y.rank? = some j ∧ i < j := by
  unfold lt
  cases x.rank? <;> cases y.rank? <;> simp

/-- NaN is the only number without a rank. -/
theorem rank?_eq_none_iff : x.rank? = none ↔ x = nan := by
  cases x <;> simp [rank?]

theorem lt_irrefl (x : Number) : ¬ x.lt x := by
  rw [lt_iff]
  rintro ⟨i, j, left, right, less⟩
  cases left.symm.trans right
  exact Int.lt_irrefl i less

theorem lt_asymm (h : x.lt y) : ¬ y.lt x := by
  obtain ⟨i, j, left, right, less⟩ := lt_iff.1 h
  rw [lt_iff]
  rintro ⟨j', i', right', left', less'⟩
  cases left.symm.trans left'
  cases right.symm.trans right'
  exact Int.lt_asymm less less'

theorem AtMost.of_lt (h : x.lt y) : x.AtMost y := by
  obtain ⟨i, j, left, right, less⟩ := lt_iff.1 h
  exact ⟨i, j, left, right, Int.le_of_lt less⟩

theorem lt_of_lt_of_atMost (h : x.lt y) (h' : y.AtMost z) : x.lt z := by
  obtain ⟨i, j, left, mid, less⟩ := lt_iff.1 h
  obtain ⟨j', k, mid', right, le⟩ := h'
  cases mid.symm.trans mid'
  exact lt_iff.2 ⟨i, k, left, right, Int.lt_of_lt_of_le less le⟩

theorem lt_of_atMost_of_lt (h : x.AtMost y) (h' : y.lt z) : x.lt z := by
  obtain ⟨i, j, left, mid, le⟩ := h
  obtain ⟨j', k, mid', right, less⟩ := lt_iff.1 h'
  cases mid.symm.trans mid'
  exact lt_iff.2 ⟨i, k, left, right, Int.lt_of_le_of_lt le less⟩

/-- Of two numbers in order, every number but NaN is below the greater or above the less. -/
theorem lt_or_lt_iff (h : x.lt y) : z.lt y ∨ x.lt z ↔ z ≠ nan := by
  obtain ⟨i, j, left, right, less⟩ := lt_iff.1 h
  rw [ne_eq, ← rank?_eq_none_iff, lt_iff, lt_iff, left, right]
  cases z.rank? with
  | none => simp
  | some k => simp; omega

end Number

/-- Whether two numbers are in the order that an operator asks for; equality asks for none. -/
def Operator.orders : Operator → Number → Number → Bool
  | eq, _, _ => false
  | lt, x, y => x.lt y
  | gt, x, y => y.lt x

theorem Operator.not_orders_self (op : Operator) (x : Number) : ¬ op.orders x x := by
  cases op with
  | eq => exact Bool.false_ne_true
  | lt | gt => exact Number.lt_irrefl x

/-- No order comparison holds of NaN, on either side. -/
theorem Operator.not_orders_nan (op : Operator) (x : Number) :
    ¬ op.orders x .nan ∧ ¬ op.orders .nan x := by
  cases op with
  | eq => exact ⟨Bool.false_ne_true, Bool.false_ne_true⟩
  | lt | gt => constructor <;> simp [orders, Number.lt_iff, Number.rank?]

/-! ## Comparing a value -/

namespace Value

variable {value : Value} {literal : String} {x y : Number}

/-- A value is equal to a literal as a text, and lists and objects never are. -/
theorem satisfies_eq_iff :
    value.satisfies .eq literal ↔ value.isComparable ∧ value.leafText? = some literal := by
  simp [satisfies]

/-- What is taken for a number can be compared. -/
theorem isComparable_of_asNumber? (h : value.asNumber? = some x) : value.isComparable := by
  cases value <;> first | rfl | cases h

/-- Two numbers are compared if the value is taken for one and the literal is read as one. -/
theorem numericPair?_eq_some_iff : value.numericPair? literal = some (x, y) ↔
    value.asNumber? = some x ∧ Number.ofLiteral? literal = some y := by
  unfold numericPair?
  cases Number.ofLiteral? literal <;> cases value.asNumber? <;> simp

/-- A value is less or greater than a literal when both count as numbers, in that order. -/
theorem satisfies_order_iff {op : Operator} (order : op ≠ .eq) : value.satisfies op literal ↔
    ∃ x y, value.asNumber? = some x ∧ Number.ofLiteral? literal = some y ∧ op.orders x y := by
  have split : value.satisfies op literal ↔ value.isComparable ∧
      ∃ x y, value.numericPair? literal = some (x, y) ∧ op.orders x y := by
    cases op with
    | eq => exact absurd rfl order
    | lt | gt => simp [satisfies, Option.any_eq_true, Operator.orders]
  rw [split]
  simp only [numericPair?_eq_some_iff]
  constructor
  · rintro ⟨-, x, y, ⟨left, right⟩, ordered⟩
    exact ⟨x, y, left, right, ordered⟩
  · rintro ⟨x, y, left, right, ordered⟩
    exact ⟨isComparable_of_asNumber? left, x, y, ⟨left, right⟩, ordered⟩

/-- A value that has the text of a literal, and counts as a number, counts as the number of the
literal. -/
theorem ofLiteral?_of_leafText? (text : value.leafText? = some literal)
    (counts : value.asNumber? = some x) : Number.ofLiteral? literal = some x := by
  cases value with
  | number number =>
    cases text
    cases counts
    exact Number.ofLiteral?_text x
  | string s =>
    cases text
    exact counts
  | null | bool | array | object => cases counts

/-- What is equal to a literal is neither less nor greater. -/
theorem not_satisfies_order_of_eq {op : Operator} (order : op ≠ .eq)
    (h : value.satisfies .eq literal) : ¬ value.satisfies op literal := by
  rw [satisfies_order_iff order]
  rintro ⟨x, y, left, right, ordered⟩
  cases (ofLiteral?_of_leafText? (satisfies_eq_iff.1 h).2 left).symm.trans right
  exact Operator.not_orders_self op x ordered

/-- What is less than a literal is not greater. -/
theorem not_satisfies_gt_of_lt (h : value.satisfies .lt literal) :
    ¬ value.satisfies .gt literal := by
  obtain ⟨x, y, left, right, less⟩ := (satisfies_order_iff (by decide)).1 h
  rw [satisfies_order_iff (by decide)]
  rintro ⟨x', y', left', right', greater⟩
  cases left.symm.trans left'
  cases right.symm.trans right'
  exact Number.lt_asymm less greater

/-- Of the three comparisons at most one holds. -/
theorem op_eq_of_satisfies {op other : Operator} (h : value.satisfies op literal)
    (h' : value.satisfies other literal) : op = other := by
  cases op with
  | eq =>
    by_contra different
    exact not_satisfies_order_of_eq (Ne.symm different) h h'
  | lt =>
    cases other with
    | eq => exact absurd h (not_satisfies_order_of_eq (by decide) h')
    | lt => rfl
    | gt => exact absurd h' (not_satisfies_gt_of_lt h)
  | gt =>
    cases other with
    | eq => exact absurd h (not_satisfies_order_of_eq (by decide) h')
    | lt => exact absurd h (not_satisfies_gt_of_lt h')
    | gt => rfl

/-- A string that writes a number is in the same order with a literal as that number. -/
theorem satisfies_string {op : Operator} (order : op ≠ .eq) {text : String}
    (number : Number.ofLiteral? text = some x) :
    (string text).satisfies op literal = (Value.number x).satisfies op literal := by
  rw [Bool.eq_iff_iff, satisfies_order_iff order, satisfies_order_iff order]
  simp only [asNumber?, number]

/-! ## Two literals in order -/

variable {less greater : String} {low high : Number}

/-- What is less than a literal is less than every literal that is not smaller. -/
theorem satisfies_lt_mono (left : Number.ofLiteral? less = some low)
    (right : Number.ofLiteral? greater = some high) (order : low.AtMost high)
    (h : value.satisfies .lt less) : value.satisfies .lt greater := by
  obtain ⟨x, y, counts, read, below⟩ := (satisfies_order_iff (by decide)).1 h
  cases left.symm.trans read
  exact (satisfies_order_iff (by decide)).2
    ⟨x, high, counts, right, Number.lt_of_lt_of_atMost below order⟩

/-- What is greater than a literal is greater than every literal that is not greater. -/
theorem satisfies_gt_anti (left : Number.ofLiteral? less = some low)
    (right : Number.ofLiteral? greater = some high) (order : low.AtMost high)
    (h : value.satisfies .gt greater) : value.satisfies .gt less := by
  obtain ⟨x, y, counts, read, above⟩ := (satisfies_order_iff (by decide)).1 h
  cases right.symm.trans read
  exact (satisfies_order_iff (by decide)).2
    ⟨x, low, counts, left, Number.lt_of_atMost_of_lt order above⟩

/-- What counts as a number is below the greater literal or above the less one, and nothing else
is. -/
theorem satisfies_lt_or_gt_iff (left : Number.ofLiteral? less = some low)
    (right : Number.ofLiteral? greater = some high) (order : low.lt high) :
    value.satisfies .lt greater ∨ value.satisfies .gt less ↔
      ∃ x, value.asNumber? = some x ∧ x ≠ .nan := by
  rw [satisfies_order_iff (by decide), satisfies_order_iff (by decide)]
  cases counts : value.asNumber? with
  | none => simp
  | some x => simp [left, right, Operator.orders, ← Number.lt_or_lt_iff order]

/-- Only numbers are below or above a literal, and only below or above a number; NaN is none. -/
theorem numbers_of_satisfies {op : Operator} (order : op ≠ .eq) (h : value.satisfies op literal) :
    (∃ x, value.asNumber? = some x ∧ x ≠ .nan) ∧
      ∃ y, Number.ofLiteral? literal = some y ∧ y ≠ .nan := by
  obtain ⟨x, y, counts, read, ordered⟩ := (satisfies_order_iff order).1 h
  refine ⟨⟨x, counts, ?_⟩, y, read, ?_⟩
  · rintro rfl
    exact (Operator.not_orders_nan op y).2 ordered
  · rintro rfl
    exact (Operator.not_orders_nan op x).1 ordered

end Value

/-! ## Documents -/

/-- The number that a path leads to, be it written as a string. -/
def Document.numberAt? (doc : Document) (path : List String) : Option Number :=
  (doc.resolve path).bind Value.asNumber?

/-- A clause holds of a document if its path leads to a value that satisfies the comparison. -/
theorem Clause.holds_iff {clause : Clause} {doc : Document} :
    clause.holds doc ↔
      ∃ value, doc.resolve clause.path = some value ∧ value.satisfies clause.op clause.literal := by
  unfold holds
  cases doc.resolve clause.path <;> simp

/-! ## Answers -/

/- Which documents are looked at depends on the index key of a clause, and both order comparisons of
a path have the same.  So the two queries fail together, and their hits are compared clause by
clause. -/

namespace Engine

variable {engine : Engine} {now : Instant} {clause other : Clause}

/-- Whether two queries fail together, and otherwise the hits of the first are hits of the
second. -/
def FindsWithin (engine : Engine) (now : Instant) (query other : Query) : Prop :=
  ((∃ hits, engine.execute now query = .ok hits) ↔ ∃ hits, engine.execute now other = .ok hits) ∧
    ∀ hits others, engine.execute now query = .ok hits → engine.execute now other = .ok others →
      hits ⊆ others

theorem proposes_singleton {id : DocId} :
    engine.Proposes now [clause] id ↔ id ∈ engine.index.lookup now clause.indexKey := by
  simp [Proposes]

/-- Clauses that are looked up under one key fail together. -/
theorem execute_ok_iff_of_key (key : clause.indexKey = other.indexKey) :
    (∃ hits, engine.execute now ⟨[clause]⟩ = .ok hits) ↔
      ∃ hits, engine.execute now ⟨[other]⟩ = .ok hits := by
  have fails : (∃ e, engine.execute now ⟨[clause]⟩ = .error e) ↔
      ∃ e, engine.execute now ⟨[other]⟩ = .error e := by
    rw [execute_error_iff (List.cons_ne_nil _ _), execute_error_iff (List.cons_ne_nil _ _)]
    simp only [proposes_singleton, key]
  cases h : engine.execute now ⟨[clause]⟩ <;> cases h' : engine.execute now ⟨[other]⟩ <;>
    simp_all

/-- Of two clauses that are looked up under one key, the stronger one finds less. -/
theorem findsWithin_of_imp (key : clause.indexKey = other.indexKey)
    (stronger : ∀ doc, clause.holds doc → other.holds doc) :
    engine.FindsWithin now ⟨[clause]⟩ ⟨[other]⟩ := by
  refine ⟨execute_ok_iff_of_key key, fun hits others executed executed' hit held => ?_⟩
  rw [mem_of_execute_eq_ok (List.cons_ne_nil _ _) executed] at held
  rw [mem_of_execute_eq_ok (List.cons_ne_nil _ _) executed']
  simp only [proposes_singleton, List.mem_singleton, forall_eq, key] at held ⊢
  exact ⟨held.1, held.2.1, stronger hit.document held.2.2⟩

/-- Whether some hits are those of one clause, found with the index or without. -/
def Answers (engine : Engine) (now : Instant) (clause : Clause) (hits : List Hit) : Prop :=
  engine.execute now ⟨[clause]⟩ = .ok hits ∨ engine.scan now ⟨[clause]⟩ = .ok hits

/-- What is found is there, and satisfies the clause. -/
theorem Answers.found {hits : List Hit} (h : engine.Answers now clause hits) {hit : Hit}
    (held : hit ∈ hits) :
    engine.documents.get now hit.id = .ok hit.document ∧ clause.holds hit.document := by
  rcases h with executed | scanned
  · rw [mem_of_execute_eq_ok (List.cons_ne_nil _ _) executed] at held
    exact ⟨held.2.1, held.2.2 clause List.mem_cons_self⟩
  · rw [mem_of_scan_eq_ok (List.cons_ne_nil _ _) scanned] at held
    exact ⟨held.1, held.2 clause List.mem_cons_self⟩

/-- Where clauses exclude each other, what is found for the one is not found for the other. -/
theorem Answers.disjoint {hits others : List Hit} (h : engine.Answers now clause hits)
    (h' : engine.Answers now other others)
    (exclusive : ∀ doc, clause.holds doc → ¬ other.holds doc) :
    (hits.map (·.id)).Disjoint (others.map (·.id)) := by
  intro id held held'
  obtain ⟨hit, first, rfl⟩ := List.mem_map.1 held
  obtain ⟨hit', second, same⟩ := List.mem_map.1 held'
  obtain ⟨got, holds⟩ := h.found first
  obtain ⟨got', holds'⟩ := h'.found second
  rw [same, got] at got'
  rw [← Except.ok.inj got'] at holds'
  exact exclusive hit.document holds holds'

end Engine

/-- Of the three comparisons of one path with one literal at most one holds of a document, and no
document is found for two of them, whatever the index has and the documents are. -/
theorem comparisons_exclude (path : List String) (literal : String) (op other : Operator)
    (different : op ≠ other) :
    (∀ doc : Document, ¬ (Clause.holds ⟨path, op, literal⟩ doc ∧
      Clause.holds ⟨path, other, literal⟩ doc)) ∧
    ∀ (engine : Engine) (now : Instant) (hits others : List Hit),
      engine.Answers now ⟨path, op, literal⟩ hits →
      engine.Answers now ⟨path, other, literal⟩ others →
      (hits.map (·.id)).Disjoint (others.map (·.id)) := by
  have exclusive (doc : Document) (h : Clause.holds ⟨path, op, literal⟩ doc) :
      ¬ Clause.holds ⟨path, other, literal⟩ doc := by
    intro h'
    obtain ⟨value, found, satisfied⟩ := Clause.holds_iff.1 h
    obtain ⟨value', found', satisfied'⟩ := Clause.holds_iff.1 h'
    cases found.symm.trans found'
    exact different (Value.op_eq_of_satisfies satisfied satisfied')
  refine ⟨fun doc h => exclusive doc h.1 h.2, ?_⟩
  intro engine now hits others answers answers'
  exact answers.disjoint answers' exclusive

/-- Negative zero, which is zero as a number and has a text of its own. -/
def negativeZero : Document := .ofFields [("n", .number (.finite (.zero true)))]

/-- An engine that has the document and knows it under both of its keys. -/
def onlyNegativeZero : Engine where
  documents := ⟨⟨none, [(⟨"zero"⟩, ⟨negativeZero.encode, none⟩)], by simp⟩⟩
  index := ⟨⟨none, [("n", ⟨⟨[⟨"zero"⟩], by decide⟩, none⟩),
    ("n=-0", ⟨⟨[⟨"zero"⟩], by decide⟩, none⟩)], by decide⟩⟩

theorem execute_onlyNegativeZero :
    ∃ hits, onlyNegativeZero.execute 0 ⟨[⟨["n"], .eq, "-0"⟩]⟩ = .ok hits ∧
      ⟨⟨"zero"⟩, negativeZero⟩ ∈ hits := by
  have decoded : Document.decode negativeZero.encode = .ok negativeZero := by
    rw [Document.decode_encode (by decide), if_pos (by decide)]
  cases executed : onlyNegativeZero.execute 0 ⟨[⟨["n"], .eq, "-0"⟩]⟩ with
  | error e =>
    obtain ⟨id, -, stored, reason, found, malformed⟩ :=
      (Engine.execute_error_iff (List.cons_ne_nil _ _)).1 ⟨e, executed⟩
    have shown := TimedMap.mem_snapshot.2 found
    obtain ⟨-, rfl⟩ : id = ⟨"zero"⟩ ∧ stored = negativeZero.encode := by
      simpa [TimedMap.snapshot, onlyNegativeZero, Stamped.isExpired] using shown
    rw [decoded] at malformed
    cases malformed
  | ok hits =>
    refine ⟨hits, rfl, (Engine.mem_of_execute_eq_ok (List.cons_ne_nil _ _) executed).2 ⟨?_, ?_, ?_⟩⟩
    · exact Engine.proposes_singleton.2 List.mem_cons_self
    · exact DocumentStore.get_eq_ok_iff.2 ⟨negativeZero.encode, rfl, decoded⟩
    · exact List.forall_mem_singleton.2 (by decide)

/-- It is found as equal to its text, so it is not below it and is not found as less. -/
theorem comparisons_exclude_negativeZero :
    (Clause.holds ⟨["n"], .eq, "-0"⟩ negativeZero ∧
      ¬ Clause.holds ⟨["n"], .lt, "-0"⟩ negativeZero) ∧
    ∃ hits, onlyNegativeZero.Answers 0 ⟨["n"], .eq, "-0"⟩ hits ∧
      ⟨⟨"zero"⟩, negativeZero⟩ ∈ hits ∧
      ∀ others, onlyNegativeZero.Answers 0 ⟨["n"], .lt, "-0"⟩ others →
        ⟨"zero"⟩ ∉ others.map (·.id) := by
  have equal : Clause.holds ⟨["n"], .eq, "-0"⟩ negativeZero := by decide
  obtain ⟨exclusive, disjoint⟩ := comparisons_exclude ["n"] "-0" .eq .lt (by decide)
  obtain ⟨hits, executed, found⟩ := execute_onlyNegativeZero
  refine ⟨⟨equal, fun less => exclusive negativeZero ⟨equal, less⟩⟩, hits, .inl executed, found, ?_⟩
  intro others answers held
  exact disjoint onlyNegativeZero 0 hits others (.inl executed) answers
    (List.mem_map_of_mem found) held

/-- Less and greater follow the order of numbers.  Of two literals for numbers in order, whatever is
below the less one is below the greater one, and whatever is above the greater one is above the less
one; the hits are contained in each other likewise, and queries fail together.  If the numbers
differ, everything that counts as a number is below the greater literal or above the less one.  A
string is in the same order as the number that it writes.  Nothing but a number, and no NaN, is
below or above a literal, and nothing is below or above a literal for anything else. -/
theorem comparisons_follow_order (path : List String) :
    (∀ (less greater : String) (low high : Number), Number.ofLiteral? less = some low →
      Number.ofLiteral? greater = some high → low.AtMost high →
      (∀ doc, Clause.holds ⟨path, .lt, less⟩ doc → Clause.holds ⟨path, .lt, greater⟩ doc) ∧
      (∀ doc, Clause.holds ⟨path, .gt, greater⟩ doc → Clause.holds ⟨path, .gt, less⟩ doc) ∧
      (∀ (engine : Engine) (now : Instant),
        engine.FindsWithin now ⟨[⟨path, .lt, less⟩]⟩ ⟨[⟨path, .lt, greater⟩]⟩ ∧
        engine.FindsWithin now ⟨[⟨path, .gt, greater⟩]⟩ ⟨[⟨path, .gt, less⟩]⟩) ∧
      (low.lt high → ∀ doc,
        (Clause.holds ⟨path, .lt, greater⟩ doc ∨ Clause.holds ⟨path, .gt, less⟩ doc ↔
          ∃ x, doc.numberAt? path = some x ∧ x ≠ .nan))) ∧
    (∀ (op : Operator) (literal : String) (doc : Document), op ≠ .eq →
      Clause.holds ⟨path, op, literal⟩ doc →
      (∃ x, doc.numberAt? path = some x ∧ x ≠ .nan) ∧
      ∃ y, Number.ofLiteral? literal = some y ∧ y ≠ .nan) ∧
    ∀ (op : Operator) (text : String) (x : Number) (doc other : Document), op ≠ .eq →
      doc.resolve path = some (.string text) → Number.ofLiteral? text = some x →
      other.resolve path = some (.number x) → ∀ literal : String,
      Clause.holds ⟨path, op, literal⟩ doc = Clause.holds ⟨path, op, literal⟩ other := by
  refine ⟨?_, ?_, ?_⟩
  · intro less greater low high left right order
    have below (doc : Document) (h : Clause.holds ⟨path, .lt, less⟩ doc) :
        Clause.holds ⟨path, .lt, greater⟩ doc := by
      obtain ⟨value, found, satisfied⟩ := Clause.holds_iff.1 h
      exact Clause.holds_iff.2 ⟨value, found, Value.satisfies_lt_mono left right order satisfied⟩
    have above (doc : Document) (h : Clause.holds ⟨path, .gt, greater⟩ doc) :
        Clause.holds ⟨path, .gt, less⟩ doc := by
      obtain ⟨value, found, satisfied⟩ := Clause.holds_iff.1 h
      exact Clause.holds_iff.2 ⟨value, found, Value.satisfies_gt_anti left right order satisfied⟩
    refine ⟨below, above, fun engine now => ⟨Engine.findsWithin_of_imp rfl below,
      Engine.findsWithin_of_imp rfl above⟩, fun differ doc => ?_⟩
    rw [Clause.holds_iff, Clause.holds_iff, Document.numberAt?]
    cases doc.resolve path with
    | none => simp
    | some value => simpa using Value.satisfies_lt_or_gt_iff left right differ
  · intro op literal doc order h
    obtain ⟨value, found, satisfied⟩ := Clause.holds_iff.1 h
    dsimp only at found
    rw [Document.numberAt?, found]
    exact Value.numbers_of_satisfies order satisfied
  · intro op text x doc other order found number found' literal
    rw [Clause.holds, Clause.holds, found, found']
    exact Value.satisfies_string order number

/-- The literals of the two zeros stand for numbers that are neither below nor above each other, so
they have the same documents below them.  Negative zero is a number, so it is below infinity or
above zero, and the string that writes it is where it is. -/
theorem comparisons_follow_order_zeros :
    (∀ doc, Clause.holds ⟨["n"], .lt, "0"⟩ doc → Clause.holds ⟨["n"], .lt, "-0"⟩ doc) ∧
    onlyNegativeZero.FindsWithin 0 ⟨[⟨["n"], .lt, "0"⟩]⟩ ⟨[⟨["n"], .lt, "-0"⟩]⟩ ∧
    (Clause.holds ⟨["n"], .lt, "inf"⟩ negativeZero ∨
      Clause.holds ⟨["n"], .gt, "0"⟩ negativeZero) ∧
    (∃ x, negativeZero.numberAt? ["n"] = some x ∧ x ≠ .nan) ∧
    Clause.holds ⟨["n"], .lt, "inf"⟩ (.ofFields [("n", .string "-0")])
      = Clause.holds ⟨["n"], .lt, "inf"⟩ negativeZero := by
  obtain ⟨literals, numbers, strings⟩ := comparisons_follow_order ["n"]
  have zero : Number.ofLiteral? "0" = some (.finite (.zero false)) := by decide
  have negative : Number.ofLiteral? "-0" = some (.finite (.zero true)) := by decide
  have infinite : Number.ofLiteral? "inf" = some (.infinite false) := by decide
  have same : (Number.finite (.zero false)).AtMost (.finite (.zero true)) :=
    ⟨0, 0, rfl, rfl, Int.le_refl 0⟩
  have differ : (Number.finite (.zero false)).lt (.infinite false) := by decide
  obtain ⟨below, -, within, -⟩ := literals "0" "-0" _ _ zero negative same
  obtain ⟨-, -, -, covers⟩ := literals "0" "inf" _ _ zero infinite (.of_lt differ)
  have less : Clause.holds ⟨["n"], .lt, "inf"⟩ negativeZero := by decide
  obtain ⟨number, -⟩ := numbers .lt "inf" negativeZero (by decide) less
  exact ⟨below, (within onlyNegativeZero 0).1, (covers differ negativeZero).2 number, number,
    strings .lt "-0" _ _ negativeZero (by decide) rfl negative rfl "inf"⟩

end DocumentBase
