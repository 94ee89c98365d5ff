import DocumentBase.Json.Shape

/-!
# DocumentBase.Json.Record

Readers of records: values with a fixed set of fields.  A record is written as an object, its fields
in any order, or as a list of its fields in the order of their declaration.  A field may be given
once only.
-/

namespace DocumentBase.Json

/-- A field of a record that is being read: what has been read so far is a `σ`. -/
structure RecordField (σ : Type) where
  name : String
  /-- Whether the field has been read. -/
  isRead : σ → Bool
  /-- Reads the field's value. -/
  read : σ → Reader σ

/-- The field of a record that is kept in one place of the state. -/
def RecordField.ofReader (name : String) (get : σ → Option α) (set : σ → α → σ)
    (reader : Reader α) : RecordField σ where
  name := name
  isRead state := (get state).isSome
  read state := set state <$> reader

/-- A field that has to have been read. -/
def required (name : String) (value : Option α) : Except DecodeError α :=
  match value with
  | some value => .ok value
  | none => .error (.missingField name)

/-- What a record looks like, and how it is made of its fields. -/
structure RecordShape (σ ρ : Type) where
  /-- What the record is called where another value stands in its place. -/
  title : String
  /-- What the record is called where it is a list with too few elements. -/
  lengthTitle : String
  /-- The fields in the order of their declaration. -/
  fields : List (RecordField σ)
  /-- Whether fields of other names are refused; otherwise they are skipped. -/
  isClosed : Bool
  /-- The state in which nothing has been read. -/
  empty : σ
  /-- The record, or what is missing of it. -/
  finish : σ → Except DecodeError ρ

namespace Reader

/-- What a computation that reads nothing gives. -/
def lift : Except DecodeError α → Reader α
  | .ok value => pure value
  | .error e => fail e

/-- The field of a record that has the given name, behind the name. -/
def recordField (shape : RecordShape σ ρ) (state : σ) (name : String) : Reader σ :=
  match shape.fields.find? (·.name = name) with
  | some field =>
    if field.isRead state then fail (.duplicateField name)
    else do
      colon
      field.read state
  | none =>
    if shape.isClosed then fail (.unknownField name (shape.fields.map (·.name)))
    else do
      colon
      skip
      pure state

/-- Goes on to the element of a record at an index, which has to be there. -/
def element (shape : RecordShape σ ρ) (index : Nat) : Reader Unit := do
  let b ← ahead .list
  if b = Ascii.closeBracket then fail (.wrongLength index shape.lengthTitle)
  else if index = 0 then pure ()
  else if b = Ascii.comma then
    advance
    if (← ahead .value) = Ascii.closeBracket then fail .trailingComma
  else fail .expectedCommaOrListEnd

/-- The closing bracket of a record, which has no further elements. -/
def listEnd : Reader Unit := do
  let b ← ahead .list
  if b = Ascii.closeBracket then advance
  else if b = Ascii.comma then
    advance
    blanks
    if (← peek) = some Ascii.closeBracket then fail .trailingComma else fail .trailingCharacters
  else fail .trailingCharacters

/-- The fields of a record from an index on, as elements of a list. -/
def recordElements (shape : RecordShape σ ρ) (state : σ) (index : Nat) :
    List (RecordField σ) → Reader σ
  | [] => pure state
  | field :: rest => do
    element shape index
    recordElements shape (← field.read state) (index + 1) rest

/-- A record.  What it is made of may be nested one level less deep. -/
def record (depth : Nat) (shape : Nat → RecordShape σ ρ) : Reader ρ := do
  let first ← ahead .value
  if first = Ascii.openBracket then
    nested depth fun depth => do
      let shape := shape depth
      let final ← recordElements shape shape.empty 0 shape.fields
      let value ← lift (shape.finish final)
      listEnd
      pure value
  else if first = Ascii.openBrace then
    nested depth fun depth => do
      let shape := shape depth
      lift (shape.finish (← fields (recordField shape) shape.empty))
  else mismatch first (shape depth).title

end Reader
end DocumentBase.Json
