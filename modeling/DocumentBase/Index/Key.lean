/-!
# DocumentBase.Index.Key

The keys of the index.  A path has an existence key, its names joined by points, and together with
the text of a leaf an equality key.  Names are taken as they are, so two paths can share a key when
a name holds a point or an equals sign.
-/

namespace DocumentBase

/-- The existence key of a path: its names with a point between neighbours. -/
def pathKey : List String → String
  | [] => ""
  | [name] => name
  | name :: next :: rest => name ++ "." ++ pathKey (next :: rest)

/-- The equality key of a path and the text of its leaf. -/
def pathValueKey (path : List String) (text : String) : String := pathKey path ++ "=" ++ text

end DocumentBase
