import DocumentBase.Json.Scalar

/-!
# DocumentBase.Json.Container

Readers of lists and objects.  What an element means is a reader, what a field means is a step: a
reader chosen by the field's name that carries a state from one field to the next.  Both loops stop
at the closing bracket, and both say exactly what is wrong with a text that has no comma or bracket
where one belongs.
-/

namespace DocumentBase.Json.Reader

/-! ## Lists -/

/-- The elements of a list after the first, each behind a comma, and the closing bracket. -/
def moreElements (element : Reader α) (text : List UInt8) : Outcome (List α) :=
  match _found : skipBlanks text with
  | [] => .error (.endOfText .list)
  | b :: rest =>
    if b = Ascii.closeBracket then .ok ([], rest)
    else if b = Ascii.comma then
      match skipBlanks rest with
      | [] => .error (.endOfText .value)
      | c :: _ =>
        if c = Ascii.closeBracket then .error .trailingComma
        else
          match _read : element.run rest with
          | .error e => .error e
          | .ok (value, more) =>
            match moreElements element more with
            | .error e => .error e
            | .ok (values, last) => .ok (value :: values, last)
    else .error .expectedCommaOrListEnd
termination_by text.length
decreasing_by
  have := element.length_le _read
  have := length_skipBlanks_le text
  simp only [_found, List.length_cons] at this
  omega

/-- Reading the elements of a list leaves no more than there was. -/
theorem length_moreElements_le (element : Reader α) {text : List UInt8} {values : List α}
    {rest : List UInt8} (h : moreElements element text = .ok (values, rest)) :
    rest.length ≤ text.length := by
  fun_induction moreElements element text generalizing values rest with
  | case2 text front found =>
    have := length_skipBlanks_le text
    cases h
    simp only [found, List.length_cons] at this
    omega
  | case7 text front _ _ _ _ value more read _ _ tail found _ ih =>
    have := length_skipBlanks_le text
    have := element.length_le read
    have := ih tail
    cases h
    simp only [found, List.length_cons] at *
    omega
  | _ => cases h

/-- All elements of a list, and the closing bracket. -/
def allElements (element : Reader α) (text : List UInt8) : Outcome (List α) :=
  match skipBlanks text with
  | [] => .error (.endOfText .list)
  | b :: rest =>
    if b = Ascii.closeBracket then .ok ([], rest)
    else
      match element.run text with
      | .error e => .error e
      | .ok (value, more) =>
        match moreElements element more with
        | .error e => .error e
        | .ok (values, last) => .ok (value :: values, last)

theorem length_allElements_le (element : Reader α) {text : List UInt8} {values : List α}
    {rest : List UInt8} (h : allElements element text = .ok (values, rest)) :
    rest.length ≤ text.length := by
  have := length_skipBlanks_le text
  unfold allElements at h
  split at h
  · cases h
  · next found =>
    simp only [found, List.length_cons] at this
    split at h
    · cases h; omega
    · split at h
      · cases h
      · next read =>
        have := element.length_le read
        split at h
        · cases h
        · next tail =>
          have := length_moreElements_le element tail
          cases h
          omega

/-- The elements of a list behind its opening bracket. -/
def elements (element : Reader α) : Reader (List α) :=
  ⟨allElements element, length_allElements_le element⟩

/-! ## Objects -/

/-- A field: its name behind the opening quote, and then what the step reads. -/
def field (step : σ → String → Reader σ) (state : σ) : Reader σ := do
  let name ← stringTail
  step state name

/-- The colon between the name of a field and its value. -/
def colon : Reader Unit := do
  if (← ahead .object) = Ascii.colon then advance else fail .expectedColon

/-- The fields of an object after the first, each behind a comma, and the closing brace. -/
def moreFields (step : σ → String → Reader σ) (state : σ) (text : List UInt8) : Outcome σ :=
  match _found : skipBlanks text with
  | [] => .error (.endOfText .object)
  | b :: rest =>
    if b = Ascii.closeBrace then .ok (state, rest)
    else if b = Ascii.comma then
      match _next : skipBlanks rest with
      | [] => .error (.endOfText .value)
      | c :: behind =>
        if c = Ascii.quote then
          match _read : (field step state).run behind with
          | .error e => .error e
          | .ok (state', more) => moreFields step state' more
        else if c = Ascii.closeBrace then .error .trailingComma
        else .error .nameNotAString
    else .error .expectedCommaOrObjectEnd
termination_by text.length
decreasing_by
  have := (field step state).length_le _read
  have first := length_skipBlanks_le text
  have second := length_skipBlanks_le rest
  simp only [_found, _next, List.length_cons] at first second
  omega

/-- Reading the fields of an object leaves no more than there was, for every step is a reader. -/
theorem length_moreFields_le (step : σ → String → Reader σ) {state final : σ}
    {text rest : List UInt8} (h : moreFields step state text = .ok (final, rest)) :
    rest.length ≤ text.length := by
  fun_induction moreFields step state text generalizing final rest with
  | case2 _ text front found =>
    have := length_skipBlanks_le text
    cases h
    simp only [found, List.length_cons] at this
    omega
  | case5 state text front behind state' more read found _ next ih =>
    have first := length_skipBlanks_le text
    have second := length_skipBlanks_le front
    have := (field step state).length_le read
    have := ih h
    simp only [found, next, List.length_cons] at first second
    omega
  | _ => cases h

/-- All fields of an object, and the closing brace. -/
def allFields (step : σ → String → Reader σ) (state : σ) (text : List UInt8) : Outcome σ :=
  match skipBlanks text with
  | [] => .error (.endOfText .object)
  | b :: rest =>
    if b = Ascii.closeBrace then .ok (state, rest)
    else if b = Ascii.quote then
      match (field step state).run rest with
      | .error e => .error e
      | .ok (state', more) => moreFields step state' more
    else .error .nameNotAString

theorem length_allFields_le (step : σ → String → Reader σ) {state final : σ}
    {text rest : List UInt8} (h : allFields step state text = .ok (final, rest)) :
    rest.length ≤ text.length := by
  have := length_skipBlanks_le text
  unfold allFields at h
  split at h
  · cases h
  · next found =>
    simp only [found, List.length_cons] at this
    split at h
    · cases h; omega
    · split at h
      · split at h
        · cases h
        · next read =>
          have := (field step state).length_le read
          have := length_moreFields_le step h
          omega
      · cases h

/-- The fields of an object behind its opening brace. -/
def fields (step : σ → String → Reader σ) (state : σ) : Reader σ :=
  ⟨allFields step state, length_allFields_le step⟩

/-! ## Depth -/

/-- Opens a container: takes its bracket and reads what is inside with one level less, unless no
level is left. -/
def nested (depth : Nat) (inside : Nat → Reader α) : Reader α :=
  match depth with
  | 0 => fail .tooDeep
  | depth + 1 => do
    advance
    inside depth

end DocumentBase.Json.Reader
