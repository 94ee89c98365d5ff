import DocumentBase.Proofs.Database.Outlasting
import DocumentBase.Proofs.Index.Recording

/-!
# DocumentBase.Proofs.Database.Recorded

What the index of a database holds as long as nothing in it dies.  Several callers add documents at
the same time: one may have stored its document and recorded it under some keys when another one
comes in between.  However their actions are mixed, in the end the index has each document under
exactly its own keys, as if they had come one after another (`records_in_any_order`).

Of the actions on a database only some concern the index, and these are what `Index.Event` is about.
-/

namespace DocumentBase

open Index

/-- The call that records a document under its keys. -/
def Entry.recording (entry : Entry) : Recording := ⟨entry.1, entry.2.indexKeys.toList⟩

/-- Whether the index has some documents under exactly their keys. -/
def Index.HoldsKeys (index : Index) (now : Instant) (added : List Entry) : Prop :=
  ∀ key id, id ∈ index.lookup now key ↔ ∃ doc, (id, doc) ∈ added ∧ key ∈ doc.indexKeys.toList

namespace Database

/-- What an action does to the index. -/
def Action.event? : Action → Option Event
  | record now stamp id key => some (.record now stamp id key)
  | purgeIndex now => some (.purge now)
  | store .. | purgeDocuments _ => none

def Write.posting? : Write → Option Posting
  | document .. => none
  | key id recorded => some (id, recorded)

/-- Whether some actions add some documents, all at the same time and otherwise purging at will. -/
def Mixes (added : List Entry) (actions : List Action) : Prop :=
  (actions.flatMap Action.writes).Perm (added.flatMap writesOf)

variable {config : Config} {added : List Entry} {actions : List Action} {now : Instant}

/-- The index sees of some actions only what concerns it. -/
theorem index_play (db : Database) (actions : List Action) :
    (db.play actions).engine.index = db.engine.index.play (actions.filterMap Action.event?) := by
  induction actions generalizing db with
  | nil => rfl
  | cons action rest ih =>
    rw [play, List.foldl_cons, ← play, ih]
    cases action <;> rfl

/-- Events record the keys that the actions write. -/
theorem filterMap_event? (actions : List Action) :
    (actions.filterMap Action.event?).filterMap Event.posting?
      = (actions.flatMap Action.writes).filterMap Write.posting? := by
  rw [List.filterMap_filterMap, List.filterMap_flatMap, List.filterMap_eq_flatMap_toList]
  congr 1
  funext action
  cases action <;> rfl

/-- What documents write to the index is what recording their keys does. -/
theorem filterMap_writesOf (added : List Entry) :
    (added.flatMap writesOf).filterMap Write.posting?
      = (added.map Entry.recording).flatMap Recording.postings := by
  rw [List.filterMap_flatMap, List.flatMap_map]
  congr 1
  funext entry
  have keys : Write.posting? ∘ Write.key entry.1 = fun key => some (entry.1, key) := rfl
  rw [writesOf, List.filterMap_cons_none rfl, List.filterMap_map, keys, List.filterMap_eq_map']
  rfl

/-- Mixed actions carry out the recordings of the documents. -/
theorem Mixes.carryOut (mixes : Mixes added actions) :
    CarryOut (actions.filterMap Action.event?) (added.map Entry.recording) := by
  rw [CarryOut, filterMap_event?, ← filterMap_writesOf]
  exact mixes.filterMap Write.posting?

/-- Where nothing dies no record is broken off. -/
theorem recordsFit_of_nothingDies
    (lasting : NothingDies config.indexTtl (actions.filterMap Action.event?) now) :
    RecordsFit config actions := by
  intro seen stamp id key held
  have event : .record seen stamp id key ∈ actions.filterMap Action.event? :=
    List.mem_filterMap.2 ⟨_, held, rfl⟩
  exact ((lasting _ event).2 stamp rfl).1

/-- What actions write that are broken off, if at all, while storing. -/
theorem Schedules.carryOut (schedules : Schedules config added actions)
    (fit : RecordsFit config actions) :
    CarryOut (actions.filterMap Action.event?) (added.map Entry.recording) := by
  have postings : (actions.flatMap Action.writes).filterMap Write.posting? =
      (actions.flatMap (Action.wrote config)).filterMap Write.posting? := by
    rw [List.filterMap_flatMap, List.filterMap_flatMap]
    refine List.flatMap_congr fun action held => ?_
    cases action with
    | store now id doc =>
      rw [Action.wrote]
      split <;> rfl
    | record now stamp id key =>
      have fits : (Action.record now stamp id key).Fits config := fit now stamp id key held
      rw [Action.wrote_of_fits fits]
    | purgeDocuments | purgeIndex => rfl
  rw [CarryOut, filterMap_event?, ← filterMap_writesOf, postings, schedules]

/-- Where no posting dies, the index holds exactly the keys of the documents. -/
theorem holdsKeys_of_carryOut
    (carryOut : CarryOut (actions.filterMap Action.event?) (added.map Entry.recording))
    (lasting : NothingDies config.indexTtl (actions.filterMap Action.event?) now) :
    ((empty config).play actions).engine.index.HoldsKeys now added := by
  intro key id
  have holds := holds_of_carryOut lasting carryOut
  have start : (empty config).engine.index = Index.empty config.indexTtl := rfl
  rw [index_play, start, holds.lookup]
  simp [Entry.recording, and_assoc, and_comm]

/-- Where nothing dies, and no record is broken off, the index is the relation of the identifiers
and keys that have been recorded, in whatever order that was done and however the keys of different
calls were mixed: under each key there is what was recorded under it, and as many keys are there as
there are different ones.  Calls that record the same make the same index.  In a database these are
the identifiers and keys of the documents that were added, at the same time or by the calls of a
history.  Without a time to live nothing dies. -/
theorem records_in_any_order :
    (∀ (index : Index) clock id keys,
      index.play (keys.map fun key => .record (clock key) (clock key) id key)
        = index.record clock id keys) ∧
    (∀ events now, NothingDies none events now) ∧
    (∀ ttl events now calls, NothingDies ttl events now → CarryOut events calls →
      ((Index.empty ttl).play events).Holds now calls) ∧
    (∀ ttl events events' now calls calls', NothingDies ttl events now →
      NothingDies ttl events' now → CarryOut events calls → CarryOut events' calls' →
      (∀ posting, posting ∈ calls.flatMap Recording.postings ↔
        posting ∈ calls'.flatMap Recording.postings) →
      ShowsSame now ((Index.empty ttl).play events) ((Index.empty ttl).play events')) ∧
    (∀ config added actions now,
      NothingDies config.indexTtl (actions.filterMap Action.event?) now → Mixes added actions →
      ((empty config).play actions).engine.index.HoldsKeys now added) ∧
    ∀ config history now,
      NothingDies config.indexTtl
        ((history.flatMap (Call.actions config)).filterMap Action.event?) now →
      ((empty config).run history).engine.index.HoldsKeys now ((empty config).ledger history) := by
  refine ⟨play_record, nothingDies_forever, fun ttl events now calls => holds_of_carryOut,
    fun ttl events events' now calls calls' => showsSame_of_carryOut,
    fun config added actions now lasting mixes => holdsKeys_of_carryOut mixes.carryOut lasting,
    fun config history now lasting => ?_⟩
  have start := configured_empty config
  have fit := recordsFit_of_nothingDies lasting
  rw [← play_history start]
  exact holdsKeys_of_carryOut ((schedules_history start history fit).carryOut fit) lasting

/-- Another value in the field of `oneField`. -/
def otherValue : Document := .ofFields [("a", .string "2")]

/-- Two documents that are added at the same time, with a key in common. -/
def bothAdding : List Action :=
  [.store 0 ⟨"first"⟩ oneField, .record 1 1 ⟨"first"⟩ "a", .store 2 ⟨"second"⟩ otherValue,
    .purgeIndex 3, .record 3 4 ⟨"second"⟩ "a", .purgeDocuments 5, .record 5 6 ⟨"second"⟩ "a=2",
    .record 7 7 ⟨"first"⟩ "a=1"]

/-- One document that is added and then another one. -/
def oneByOne : List Call :=
  [.add 0 ⟨"first"⟩ oneField fun _ => 1, .purge 2 3, .add 4 ⟨"second"⟩ otherValue fun _ => 5]

/-- Some keys for two identifiers. -/
def someCalls : List Recording := [⟨⟨"first"⟩, ["a", "a=1"]⟩, ⟨⟨"second"⟩, ["a", "a=2"]⟩]

/-- The calls of `someCalls` mixed. -/
def mixed : List Event :=
  [.record 0 0 ⟨"second"⟩ "a=2", .record 1 1 ⟨"first"⟩ "a", .purge 2, .record 2 3 ⟨"second"⟩ "a",
    .record 4 4 ⟨"first"⟩ "a=1"]

/-- The keys of `someCalls`, in calls of their own and one twice. -/
def repeatedCalls : List Recording :=
  [⟨⟨"first"⟩, ["a"]⟩, ⟨⟨"second"⟩, ["a=2", "a"]⟩, ⟨⟨"first"⟩, ["a=1", "a"]⟩]

/-- The same keys, one for each call and one twice. -/
def repeated : List Event :=
  [.record 0 1 ⟨"first"⟩ "a", .record 1 1 ⟨"first"⟩ "a=1", .record 2 2 ⟨"first"⟩ "a",
    .record 3 4 ⟨"second"⟩ "a", .purge 5, .record 6 6 ⟨"second"⟩ "a=2"]

/-- Both orders make one index with three keys, and a database in which two documents were added, at
the same time or not, has each under its own keys. -/
theorem records_in_any_order_shared :
    ((Index.empty brief.indexTtl).play mixed).Holds 8 someCalls ∧
      ShowsSame 8 ((Index.empty brief.indexTtl).play mixed)
        ((Index.empty brief.indexTtl).play repeated) ∧
      ((empty brief).play bothAdding).engine.index.HoldsKeys 8
        [(⟨"first"⟩, oneField), (⟨"second"⟩, otherValue)] ∧
      ((empty brief).run oneByOne).engine.index.HoldsKeys 8
        [(⟨"first"⟩, oneField), (⟨"second"⟩, otherValue)] := by
  have keys : oneField.indexKeys.toList = ["a", "a=1"] := by decide
  have keys' : otherValue.indexKeys.toList = ["a", "a=2"] := by decide
  obtain ⟨-, -, holds, same, mixes, run⟩ := records_in_any_order
  have agree (posting : Posting) : posting ∈ someCalls.flatMap Recording.postings ↔
      posting ∈ repeatedCalls.flatMap Recording.postings := by
    simp only [someCalls, repeatedCalls, Recording.postings, List.flatMap_cons, List.flatMap_nil,
      List.map_cons, List.map_nil, List.cons_append, List.nil_append, List.mem_cons]
    tauto
  -- All of the second document is recorded before the last key of the first one is.
  have between : Mixes [(⟨"first"⟩, oneField), (⟨"second"⟩, otherValue)] bothAdding := by
    simp only [Mixes, bothAdding, Action.writes, writesOf, keys, keys', List.flatMap_cons,
      List.flatMap_nil, List.map_cons, List.map_nil, List.cons_append, List.nil_append]
    exact .cons _ (.cons _ (@List.perm_append_comm _ [_, _, _] [_]))
  exact ⟨holds _ mixed 8 _ (by decide) (by decide),
    same _ mixed repeated 8 someCalls repeatedCalls (by decide) (by decide) (by decide) (by decide)
      agree,
    mixes brief _ bothAdding 8 (by decide) between, run brief oneByOne 8 (by decide)⟩

end Database
end DocumentBase
