import DocumentBase.Document
import DocumentBase.Index.Key
import DocumentBase.Index.KeySet

/-!
# DocumentBase.Index.Leaves

The leaves of a document, and the keys under which the index records it.  A leaf is a scalar that is
reached through objects only: lists are opaque, so neither a list nor anything in it has a key.
-/

namespace DocumentBase

/-- A leaf: the names that lead to it, and its text. -/
structure Leaf where
  path : List String
  text : String
deriving DecidableEq

namespace Leaf

/-- The leaf as seen from one object further out. -/
def under (name : String) (leaf : Leaf) : Leaf := { leaf with path := name :: leaf.path }

def key (leaf : Leaf) : String := pathKey leaf.path

def valueKey (leaf : Leaf) : String := pathValueKey leaf.path leaf.text

end Leaf

namespace Value

mutual

/-- The leaves of a value.  A scalar is a leaf itself. -/
def leaves : Value → List Leaf
  | object fields => fieldsLeaves fields
  | array _ => []
  | null => [⟨[], "null"⟩]
  | bool b => [⟨[], if b then "true" else "false"⟩]
  | number x => [⟨[], x.text⟩]
  | string s => [⟨[], s⟩]

/-- The leaves of the fields of an object. -/
def fieldsLeaves : List (String × Value) → List Leaf
  | [] => []
  | (name, value) :: rest => value.leaves.map (Leaf.under name) ++ fieldsLeaves rest

end

end Value

/-- The keys of one document. -/
structure IndexKeys where
  /-- The existence keys of the leaves. -/
  paths : KeySet
  /-- The equality keys of the leaves. -/
  pathValues : KeySet

namespace IndexKeys

/-- All keys, existence keys first. -/
def toList (keys : IndexKeys) : List String := keys.paths.keys ++ keys.pathValues.keys

def size (keys : IndexKeys) : Nat := keys.paths.size + keys.pathValues.size

def isEmpty (keys : IndexKeys) : Bool := keys.paths.keys.isEmpty && keys.pathValues.keys.isEmpty

end IndexKeys

namespace Document

/-- The leaves of a document. -/
def leaves (doc : Document) : List Leaf := Value.fieldsLeaves doc.fields

/-- The keys under which the index records a document. -/
def indexKeys (doc : Document) : IndexKeys where
  paths := .ofList (doc.leaves.map Leaf.key)
  pathValues := .ofList (doc.leaves.map Leaf.valueKey)

end Document
end DocumentBase
