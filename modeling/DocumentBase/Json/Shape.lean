import DocumentBase.Json.Skip

/-!
# DocumentBase.Json.Shape

Readers of values whose shape is known beforehand: a string, an integer in a range, one name out of
a few, a list of one shape, a value that may be null.  Where another kind of value stands, a scalar
is still read to its end, so that a fault inside it is reported first; of a list or an object the
bracket is enough.
-/

namespace DocumentBase.Json.Reader

/-! ## Mismatches -/

/-- Refuses the value that begins with the byte ahead, which is not what was expected. -/
def mismatch (first : UInt8) (expected : String) : Reader α :=
  if first = Ascii.openBracket then fail (.wrongType .list expected)
  else if first = Ascii.openBrace then fail (.wrongType .object expected)
  else do fail (.wrongType (.scalar (← scalar first)) expected)

/-! ## Scalars -/

/-- A string. -/
def string : Reader String := do
  let first ← ahead .value
  if first = Ascii.quote then
    advance
    stringTail
  else mismatch first "a string"

/-- An integer from zero up to, but not including, a bound; `expected` names the range. -/
def natural (bound : Nat) (expected : String) : Reader { n : Nat // n < bound } := do
  let first ← ahead .value
  if first = Ascii.minus ∨ (Digits.ofByte? first).isSome then
    match ← number with
    | .integer n fits =>
      if range : 0 ≤ n ∧ n.toNat < bound then pure ⟨n.toNat, range.2⟩
      else fail (.wrongValue (.scalar (.number (.integer n fits))) expected)
    | .double x => fail (.wrongType (.scalar (.number (.double x))) expected)
  else mismatch first expected

/-- `null`, as the content of a variant that has none. -/
def unit : Reader Unit := do
  let first ← ahead .value
  if first = Ascii.lowerN then
    advance
    nullTail
  else mismatch first "unit"

/-- A value or `null`. -/
def optional (value : Reader α) : Reader (Option α) := do
  if (← ahead .value) = Ascii.lowerN then
    advance
    nullTail
    pure none
  else some <$> value

/-! ## Choices -/

/-- The variant of a name. -/
def variantOf (variants : List (String × α)) (name : String) : Reader α :=
  match variants.lookup name with
  | some variant => pure variant
  | none => fail (.unknownVariant name (variants.map Prod.fst))

/-- The name of the only field of an object, which has to have one. -/
def onlyName : Reader String := do
  let first ← ahead .object
  if first = Ascii.quote then
    advance
    stringTail
  else if first = Ascii.closeBrace then fail .expectedValue
  else fail .nameNotAString

/-- One of a few variants, given by its name, or by an object whose only field has its name and
holds `null`. -/
def variant (depth : Nat) (variants : List (String × α)) : Reader α := do
  let first ← ahead .value
  if first = Ascii.quote then
    advance
    variantOf variants (← stringTail)
  else if first = Ascii.openBrace then
    nested depth fun _ => do
      let chosen ← variantOf variants (← onlyName)
      colon
      unit
      if (← ahead .object) = Ascii.closeBrace then
        advance
        pure chosen
      else fail .expectedValue
  else fail .expectedValue

/-! ## Lists -/

/-- A list; the elements may be nested one level less deep. -/
def list (depth : Nat) (element : Nat → Reader α) : Reader (List α) := do
  let first ← ahead .value
  if first = Ascii.openBracket then
    nested depth fun depth => elements (element depth)
  else mismatch first "a sequence"

end DocumentBase.Json.Reader
