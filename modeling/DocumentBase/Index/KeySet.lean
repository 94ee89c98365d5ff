/-!
# DocumentBase.Index.KeySet

Finite sets of keys, kept in ascending order.
-/

namespace DocumentBase

/-- A set of keys. -/
structure KeySet where
  keys : List String
  ascending : keys.Pairwise (· < ·)

namespace KeySet

/-- Put a key among ascending ones, unless it is there. -/
def insertKey (key : String) : List String → List String
  | [] => [key]
  | k :: rest =>
    if key < k then key :: k :: rest
    else if k < key then k :: insertKey key rest
    else k :: rest

@[simp] theorem mem_insertKey {key other : String} {keys : List String} :
    other ∈ insertKey key keys ↔ other = key ∨ other ∈ keys := by
  induction keys with
  | nil => simp [insertKey]
  | cons k rest ih => grind [insertKey]

/-- A key takes its place in the order, so the keys stay sorted and none is there twice. -/
theorem ascending_insertKey {key : String} {keys : List String} (h : keys.Pairwise (· < ·)) :
    (insertKey key keys).Pairwise (· < ·) := by
  induction keys with
  | nil => simp [insertKey]
  | cons k rest ih =>
    simp only [insertKey]
    simp only [List.pairwise_cons] at h ih
    split
    · simp only [List.pairwise_cons, List.mem_cons]
      grind
    · split
      · refine List.pairwise_cons.2 ⟨fun other ho => ?_, ih h.2⟩
        rcases mem_insertKey.1 ho with rfl | ho
        · assumption
        · exact h.1 other ho
      · exact List.pairwise_cons.2 h

def empty : KeySet := ⟨[], List.Pairwise.nil⟩

def insert (set : KeySet) (key : String) : KeySet :=
  ⟨insertKey key set.keys, ascending_insertKey set.ascending⟩

/-- The set of the keys in a list. -/
def ofList (keys : List String) : KeySet := keys.foldl insert empty

def size (set : KeySet) : Nat := set.keys.length

/-- A key that is recorded joins those that are there already. -/
@[simp] theorem mem_keys_insert {set : KeySet} {key other : String} :
    other ∈ (set.insert key).keys ↔ other = key ∨ other ∈ set.keys := mem_insertKey

/-- A set made of a list holds the list's keys, whatever their order was. -/
@[simp] theorem mem_keys_ofList {keys : List String} {key : String} :
    key ∈ (ofList keys).keys ↔ key ∈ keys := by
  suffices ∀ set : KeySet, key ∈ (keys.foldl insert set).keys ↔ key ∈ set.keys ∨ key ∈ keys by
    simpa [ofList, empty] using this empty
  induction keys with
  | nil => simp
  | cons k rest ih =>
    intro set
    rw [List.foldl_cons, ih, mem_keys_insert, List.mem_cons]
    grind

/-- Sets with the same keys are the same. -/
theorem ext {set other : KeySet} (same : ∀ key, key ∈ set.keys ↔ key ∈ other.keys) :
    set = other := by
  have nodup (set : KeySet) : set.keys.Nodup := set.ascending.imp String.ne_of_lt
  have perm : set.keys.Perm other.keys :=
    (List.perm_ext_iff_of_nodup (nodup set) (nodup other)).2 same
  have keys := perm.eq_of_pairwise (fun _ _ _ _ h h' => (String.lt_asymm h h').elim)
    set.ascending other.ascending
  cases set; cases other; simp_all

end KeySet
end DocumentBase
