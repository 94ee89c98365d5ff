import DocumentBase.Json.Tree

/-!
# DocumentBase.Proofs.Json.Plain

Plain JSON is read without a tree.  Its fields are put among those before them as soon as they have
been read, and the elements of its lists are plain values already.  What comes out is nevertheless
what the tree of the text stands for, and a text is refused for the reason for which its tree is
(`plain_eq`).

A reader of something simpler simulates one of trees if it does so for the scalars, for one element
and for one field.  Both loops then stop at the same places (`elements_map`, `fields_map`).
-/

namespace DocumentBase.Json

namespace Reader

/-! ## Mapped readers -/

/- A reader of plain values is a reader of trees with its results mapped.  The two are compared
combinator by combinator, from the inside out. -/

theorem ext {reader other : Reader α} (same : ∀ text, reader.run text = other.run text) :
    reader = other := by
  cases reader
  cases other
  congr
  exact funext same

theorem map_map (f : β → γ) (g : α → β) (reader : Reader α) :
    f <$> g <$> reader = (fun value => f (g value)) <$> reader := by
  refine ext fun text => ?_
  rw [run_map, run_map, run_map]
  cases reader.run text <;> rfl

/-- A whole text is read by a mapped reader as by the reader. -/
theorem whole_map (f : α → β) (reader : Reader α) (text : List UInt8) :
    whole (f <$> reader) text = (whole reader text).map f := by
  unfold whole
  rw [run_map]
  cases reader.run text with
  | error e => rfl
  | ok read =>
    simp only [Except.map]
    split <;> rfl

/-- The first byte that is no blank decides between a list, an object and a scalar. -/
theorem run_dispatch (leaf : Scalar → α) (list object : Reader α) (text : List UInt8) :
    (dispatch leaf list object).run text =
      match skipBlanks text with
      | [] => .error (.endOfText .value)
      | b :: rest =>
        if b = Ascii.openBracket then list.run rest
        else if b = Ascii.openBrace then object.run rest
        else (leaf <$> scalar b).run (b :: rest) := by
  rw [dispatch, run_bind, run_ahead]
  cases skipBlanks text with
  | nil => rfl
  | cons b rest =>
    dsimp only
    split
    · rfl
    · rfl
    · next no_list no_object => exact ((if_neg no_list).trans (if_neg no_object)).symm

/-- A choice between mapped readers is a mapped choice. -/
theorem dispatch_map (f : α → β) (leaf : Scalar → α) (list object : Reader α) :
    dispatch (fun s => f (leaf s)) (f <$> list) (f <$> object) =
      f <$> dispatch leaf list object := by
  refine ext fun text => ?_
  rw [run_map, run_dispatch, run_dispatch]
  cases skipBlanks text with
  | nil => rfl
  | cons b rest =>
    dsimp only
    split
    · exact run_map f list rest
    · split
      · exact run_map f object rest
      · rw [run_map, run_map]
        cases (scalar b).run (b :: rest) <;> rfl

/-! ## Lists -/

/-- One round of the loop over the elements. -/
theorem moreElements_eq (element : Reader α) (text : List UInt8) :
    moreElements element text =
      match skipBlanks text with
      | [] => .error (.endOfText .list)
      | b :: rest =>
        if b = Ascii.closeBracket then .ok ([], rest)
        else if b = Ascii.comma then
          match skipBlanks rest with
          | [] => .error (.endOfText .value)
          | c :: _ =>
            if c = Ascii.closeBracket then .error .trailingComma
            else
              match element.run rest with
              | .error e => .error e
              | .ok (value, more) =>
                (moreElements element more).map fun (values, last) => (value :: values, last)
        else .error .expectedCommaOrListEnd := by
  rw [moreElements.eq_def]
  split
  · next found => rw [found]
  · next b rest found =>
    rw [found]
    dsimp only
    split
    · rfl
    · split
      · cases skipBlanks rest with
        | nil => rfl
        | cons c _ =>
          dsimp only
          split
          · rfl
          · split
            · next read => rw [read]
            · next more read =>
              rw [read]
              dsimp only
              cases moreElements element more <;> rfl
      · rfl

/-- The elements of a list can be mapped as they are read or when all are there. -/
theorem moreElements_map (f : α → β) (element : Reader α) (text : List UInt8) :
    moreElements (f <$> element) text =
      (moreElements element text).map fun (values, rest) => (values.map f, rest) := by
  fun_induction moreElements element text with
  | case1 text found =>
    rw [moreElements_eq]
    simp [found, Except.map]
  | case2 text rest found =>
    rw [moreElements_eq]
    simp [found, Except.map]
  | case3 text rest ended found other =>
    rw [moreElements_eq]
    simp [found, other, ended, Except.map]
  | case4 text rest tail found other closed =>
    rw [moreElements_eq]
    simp [found, other, closed, Except.map]
  | case5 text rest c tail behind more e read found other =>
    rw [moreElements_eq]
    simp [found, other, behind, more, read, Except.map]
  | case6 text rest c tail behind more value last read e failed found other ih =>
    rw [moreElements_eq]
    simp [found, other, behind, more, read, ih, failed, Except.map]
  | case7 text rest c tail behind more value last read values final ended found other ih =>
    rw [moreElements_eq]
    simp [found, other, behind, more, read, ih, ended, Except.map]
  | case8 text b rest found open_ other =>
    rw [moreElements_eq]
    simp [found, open_, other, Except.map]

/-- A list of mapped elements is the list of the elements, mapped. -/
theorem elements_map (f : α → β) (element : Reader α) :
    elements (f <$> element) = List.map f <$> elements element := by
  refine ext fun text => ?_
  rw [run_map]
  show allElements (f <$> element) text = (allElements element text).map _
  unfold allElements
  cases skipBlanks text with
  | nil => rfl
  | cons b rest =>
    dsimp only
    split
    · rfl
    · rw [run_map]
      cases element.run text with
      | error e => rfl
      | ok read =>
        obtain ⟨value, more⟩ := read
        simp only [Except.map, moreElements_map]
        cases moreElements element more <;> rfl

/-! ## Objects -/

/- Fields go into a map one by one on the one side, and on the other they are collected first.  The
state of the one is a function `g` of the state of the other, and each step keeps it so. -/

/-- One round of the loop over the fields. -/
theorem moreFields_eq (step : σ → String → Reader σ) (state : σ) (text : List UInt8) :
    moreFields step state text =
      match skipBlanks text with
      | [] => .error (.endOfText .object)
      | b :: rest =>
        if b = Ascii.closeBrace then .ok (state, rest)
        else if b = Ascii.comma then
          match skipBlanks rest with
          | [] => .error (.endOfText .value)
          | c :: behind =>
            if c = Ascii.quote then
              match (field step state).run behind with
              | .error e => .error e
              | .ok (state', more) => moreFields step state' more
            else if c = Ascii.closeBrace then .error .trailingComma
            else .error .nameNotAString
        else .error .expectedCommaOrObjectEnd := by
  rw [moreFields.eq_def]
  split
  · next found => rw [found]
  · next found =>
    rw [found]
    dsimp only
    split
    · rfl
    · split
      · split
        · next ended => rw [ended]
        · next more =>
          rw [more]
          dsimp only
          split
          · split
            · next read => rw [read]
            · next read => rw [read]
          · rfl
      · rfl

section Fields

variable {g : σ → τ} {step : σ → String → Reader σ} {step' : τ → String → Reader τ}
  (same : ∀ state name, step' (g state) name = g <$> step state name)

include same

/-- One field leads to the same state on both sides of a map, if the steps agree. -/
theorem field_map (state : σ) : field step' (g state) = g <$> field step state := by
  refine ext fun text => ?_
  rw [run_map, field, field, run_bind, run_bind]
  cases stringTail.run text with
  | error e => rfl
  | ok read =>
    dsimp only
    rw [same, run_map]

/-- The fields of an object lead to the same state on both sides of a map, if the steps agree. -/
theorem moreFields_map (state : σ) (text : List UInt8) :
    moreFields step' (g state) text =
      (moreFields step state text).map fun (final, rest) => (g final, rest) := by
  fun_induction moreFields step state text with
  | case1 state text found =>
    rw [moreFields_eq]
    simp [found, Except.map]
  | case2 state text rest found =>
    rw [moreFields_eq]
    simp [found, Except.map]
  | case3 state text rest ended found other =>
    rw [moreFields_eq]
    simp [found, other, ended, Except.map]
  | case4 state text rest behind e read found other more =>
    rw [moreFields_eq]
    simp [found, other, more, field_map same, read, Except.map]
  | case5 state text rest behind next last read found other more ih =>
    rw [moreFields_eq]
    simp [found, other, more, field_map same, read, ih, Except.map]
  | case6 state text rest behind found other closed no_name =>
    rw [moreFields_eq]
    simp [found, other, closed, no_name, Except.map]
  | case7 state text rest c behind more no_name open_ found other =>
    rw [moreFields_eq]
    simp [found, other, more, no_name, open_, Except.map]
  | case8 state text b rest found open_ other =>
    rw [moreFields_eq]
    simp [found, open_, other, Except.map]

/-- Where one step simulates another, so do the steps over all fields. -/
theorem fields_map (state : σ) : fields step' (g state) = g <$> fields step state := by
  refine ext fun text => ?_
  rw [run_map]
  show allFields step' (g state) text = (allFields step state text).map _
  unfold allFields
  cases skipBlanks text with
  | nil => rfl
  | cons b rest =>
    dsimp only
    split
    · rfl
    · split
      · rw [field_map same, run_map]
        cases (field step state).run rest with
        | error e => rfl
        | ok read => exact moreFields_map same read.1 read.2
      · rfl

end Fields
end Reader

/-! ## Plain values -/

theorem ofTrees_eq_map (trees : List Tree) : ofTrees trees = trees.map ofTree :=
  Fields.eq_map rfl (fun _ _ => rfl) trees

theorem ofEntries_eq_map (entries : List (String × Tree)) :
    ofEntries entries = entries.map fun entry => (entry.1, ofTree entry.2) :=
  Fields.eq_map rfl (fun (_, _) _ => rfl) entries

/-- The fields that some entries make, given the last entry first. -/
def fieldsOf (before : List (String × Tree)) : List (String × Json) :=
  Fields.ofEntries (ofEntries before.reverse)

/-- The entry that was read last is inserted last, and so replaces the one of its name. -/
theorem fieldsOf_cons (name : String) (tree : Tree) (before : List (String × Tree)) :
    fieldsOf ((name, tree) :: before) = Fields.insert name (ofTree tree) (fieldsOf before) := by
  rw [fieldsOf, ofEntries_eq_map, List.reverse_cons, List.map_append, Fields.ofEntries,
    List.foldl_append, ← ofEntries_eq_map]
  rfl

namespace Reader

/-- Inserting a field as it is read comes to the same as collecting entries. -/
theorem fieldInto_fieldsOf (tree : Reader Tree) (before : List (String × Tree)) (name : String) :
    fieldInto (ofTree <$> tree) (fieldsOf before) name = fieldsOf <$> entry tree before name := by
  refine ext fun text => ?_
  rw [run_map, fieldInto, entry, run_bind, run_bind]
  cases colon.run text with
  | error e => rfl
  | ok read =>
    dsimp only
    rw [run_bind, run_bind, run_map]
    cases tree.run read.2 with
    | error e => rfl
    | ok value =>
      show Except.ok (_, value.2) = Except.ok (fieldsOf ((name, value.1) :: before), value.2)
      rw [fieldsOf_cons]

/-- A plain value is what the tree of its text stands for. -/
theorem plain_eq (depth : Nat) : plain depth = ofTree <$> tree depth := by
  induction depth with
  | zero => exact dispatch_map ofTree .scalar (fail .tooDeep) (fail .tooDeep)
  | succ depth ih =>
    have list : Json.array <$> elements (plain depth) =
        ofTree <$> Tree.list <$> elements (tree depth) := by
      rw [ih, elements_map, map_map, map_map]
      simp only [ofTree, ofTrees_eq_map]
    have object : Json.object <$> fields (fieldInto (plain depth)) [] =
        ofTree <$> (fun entries => Tree.object entries.reverse) <$>
          fields (entry (tree depth)) [] := by
      have simulated := fields_map (fieldInto_fieldsOf (tree depth)) []
      rw [ih, map_map]
      show Json.object <$> fields (fieldInto (ofTree <$> tree depth)) (fieldsOf []) = _
      rw [simulated, map_map]
      simp only [ofTree, fieldsOf]
    rw [plain, tree, value, list, object]
    exact dispatch_map ofTree .scalar _ _

end Reader

/-- A text decodes to what its tree stands for. -/
theorem decode_eq (text : List UInt8) :
    decode text = (Reader.whole (Reader.tree depthLimit) text).map ofTree := by
  rw [decode, Reader.plain_eq, Reader.whole_map]

end DocumentBase.Json
