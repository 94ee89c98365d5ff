import DocumentBase.Proofs.Database.History
import Mathlib.Data.List.Basic
import Mathlib.Data.List.Flatten

/-!
# DocumentBase.Proofs.Database.Actions

What the calls of a database are made of.  A call asks the two stores for one thing after another,
and what happens between two of these actions is not up to the caller: purges can come between any
two of them, also within the adding of a document.

1. A call is its actions, one after another, and so is a history (`play_history`).
2. An action that needs a deadline which is out of range writes nothing (`Action.wrote`), and the
   calls that are broken off are those with such an action (`returns_iff`).
3. A call that is not broken off among its keys has written what the entry says that it makes
   (`schedules_history`).  One that is has written some of what the document that it stored would
   have needed (`wrote_sublist_holdings`).
-/

namespace DocumentBase

namespace Database

/-! ## Actions -/

/-- What one of the stores of a database is asked to do, with the moments that the clock shows. -/
inductive Action where
  | store (now : Instant) (id : DocId) (doc : Document)
  | record (now stamp : Instant) (id : DocId) (key : String)
  | purgeDocuments (now : Instant)
  | purgeIndex (now : Instant)

/-- What an action writes. -/
inductive Write where
  | document (id : DocId) (doc : Document)
  | key (id : DocId) (key : String)

/-- The identifier that is written. -/
def Write.id : Write → DocId
  | document id _ | key id _ => id

namespace Action

/-- What the clock shows, reading by reading. -/
def readings : Action → List Instant
  | record now stamp .. => [now, stamp]
  | store now .. | purgeDocuments now | purgeIndex now => [now]

/-- The last reading. -/
def ends : Action → Instant
  | record _ stamp .. => stamp
  | store now .. | purgeDocuments now | purgeIndex now => now

/-- What an action is to write. -/
def writes : Action → List Write
  | store _ id doc => [.document id doc]
  | record _ _ id key => [.key id key]
  | purgeDocuments _ | purgeIndex _ => []

/-- Whether the deadline of what is to be written is in range. -/
def Fits (config : Config) : Action → Prop
  | store now .. => now.Fits config.documentTtl
  | record _ stamp .. => stamp.Fits config.indexTtl
  | purgeDocuments _ | purgeIndex _ => True

instance (config : Config) : DecidablePred (Fits config)
  | store now .. => inferInstanceAs (Decidable (now.Fits config.documentTtl))
  | record _ stamp .. => inferInstanceAs (Decidable (stamp.Fits config.indexTtl))
  | purgeDocuments _ | purgeIndex _ => isTrue trivial

/-- What an action has written. -/
def wrote (config : Config) (action : Action) : List Write :=
  if action.Fits config then action.writes else []

/-- The actions of adding a document: it is stored, and then recorded under its keys.  One with a
number that JSON has no text for is refused, and one that cannot be stored is not recorded. -/
def adding (config : Config) (now : Instant) (id : DocId) (doc : Document)
    (clock : String → Instant) : List Action :=
  if doc.isFinite then
    .store now id doc ::
      if now.Fits config.documentTtl then
        doc.indexKeys.toList.map fun key => .record (clock key) (clock key) id key
      else []
  else []

theorem le_ends {action : Action} {latest : Instant}
    (forward : (latest :: action.readings).Pairwise (· ≤ ·)) : latest ≤ action.ends := by
  cases action <;> simp_all [readings, ends]

/-- The clock goes forward up to the end of an action and from there. -/
theorem forward_split {action : Action} {latest : Instant} {later : List Instant}
    (forward : (latest :: (action.readings ++ later)).Pairwise (· ≤ ·)) :
    (latest :: action.readings).Pairwise (· ≤ ·) ∧ (action.ends :: later).Pairwise (· ≤ ·) := by
  refine ⟨forward.sublist ((List.sublist_append_left _ _).cons_cons latest), ?_⟩
  cases action <;> exact forward.sublist (by simp [readings, ends])

/-- An action that a clock can time has written all that it writes. -/
theorem wrote_of_fits {config : Config} {action : Action} (fits : action.Fits config) :
    action.wrote config = action.writes := if_pos fits

/-- Where all deadlines are in range all is written. -/
theorem flatMap_wrote_of_fits {config : Config} {actions : List Action}
    (fits : ∀ action ∈ actions, action.Fits config) :
    actions.flatMap (wrote config) = actions.flatMap writes :=
  List.flatMap_congr fun action held => wrote_of_fits (fits action held)

/-- What has been written was to be written. -/
theorem flatMap_wrote_sublist (config : Config) (actions : List Action) :
    (actions.flatMap (wrote config)).Sublist (actions.flatMap writes) := by
  refine List.Sublist.flatMap_right actions fun action _ => ?_
  unfold wrote
  split
  · exact List.Sublist.refl _
  · exact List.nil_sublist _

end Action

/-- What adding a document writes. -/
def writesOf (entry : Entry) : List Write :=
  .document entry.1 entry.2 :: entry.2.indexKeys.toList.map (.key entry.1)

/-- Whether some actions add some documents, one after another, and otherwise purge at will.  An
action that writes nothing because of its deadline may stand anywhere. -/
def Schedules (config : Config) (added : List Entry) (actions : List Action) : Prop :=
  actions.flatMap (Action.wrote config) = added.flatMap writesOf

/-- The clock never goes back, and shows nothing later than `now`. -/
def ForwardTo (actions : List Action) (now : Instant) : Prop :=
  (actions.flatMap Action.readings ++ [now]).Pairwise (· ≤ ·)

instance (actions : List Action) (now : Instant) : Decidable (ForwardTo actions now) :=
  inferInstanceAs (Decidable (List.Pairwise _ _))

/-- The database that an action leaves behind. -/
def act (db : Database) : Action → Database
  | .store now id doc => { db with engine := { db.engine with
      documents := ⟨(db.engine.documents.documents.set now id doc.encode).2⟩ } }
  | .record now stamp id key => { db with engine := { db.engine with
      index := db.engine.index.recordKey now id key stamp } }
  | .purgeDocuments now => { db with engine := { db.engine with
      documents := (db.engine.documents.purge now).2 } }
  | .purgeIndex now => { db with engine := { db.engine with
      index := (db.engine.index.purge now).2 } }

/-- The database that some actions leave behind. -/
def play (db : Database) (actions : List Action) : Database := actions.foldl act db

theorem play_append (db : Database) (actions others : List Action) :
    db.play (actions ++ others) = (db.play actions).play others := List.foldl_append

end Database

/-! ## Calls -/

open Database in
/-- The actions of a call.  A call that reads, or fails, has none. -/
def Call.actions (config : Config) : Call → List Action
  | add now fresh doc clock => Action.adding config now fresh doc clock
  | addJson now fresh json clock =>
    match Document.ofJson json with
    | .ok doc => Action.adding config now fresh doc clock
    | .error _ => []
  | purge now later => [.purgeDocuments now, .purgeIndex later]
  | get .. | search .. | searchResults .. | scan .. | size .. | isEmpty .. => []

namespace Database

variable {db : Database} {config : Config} {now : Instant} {id : DocId} {doc : Document}
  {clock : String → Instant} {call : Call}

/-- The entry that a call stores, also if it is broken off after that. -/
def stored (db : Database) : Call → List Entry
  | .add now fresh doc _ => Entry.ofOutcome doc (db.engine.documents.add now fresh doc).1
  | .addJson now fresh json _ =>
    match Document.ofJson json with
    | .ok doc => Entry.ofOutcome doc (db.engine.documents.add now fresh doc).1
    | .error _ => []
  | .get .. | .search .. | .searchResults .. | .scan .. | .size .. | .isEmpty .. | .purge .. => []

/-- The entries that a history stores, those of calls that are broken off after that among them. -/
def holdings (db : Database) : List Call → List Entry
  | [] => []
  | call :: rest => db.stored call ++ (db.perform call).holdings rest

/-! ## Settings -/

/-- What is written to the stores lives as long as the settings say. -/
structure Configured (db : Database) (config : Config) : Prop where
  documents : db.engine.documents.documents.ttl = config.documentTtl
  index : db.engine.index.postings.ttl = config.indexTtl

theorem configured_empty (config : Config) : (empty config).Configured config := ⟨rfl, rfl⟩

/-- No call changes how long anything lives. -/
theorem Configured.perform (h : db.Configured config) (call : Call) :
    (db.perform call).Configured config := by
  rcases db.perform_cases call with ⟨same, -⟩ | ⟨now, id, doc, clock, -, -, kept, -⟩
    | ⟨now, later, purged, -⟩
  · rwa [same]
  · rw [kept]
    exact ⟨(TimedMap.ttl_set ..).trans h.documents, (Index.ttl_record ..).trans h.index⟩
  · rw [purged]
    exact ⟨h.documents, h.index⟩

/-! ## Calls are made of their actions -/

/-- Recording the keys of a document is recording them one by one. -/
theorem play_records (db : Database) (id : DocId) (clock : String → Instant)
    (keys : List String) :
    db.play (keys.map fun key => .record (clock key) (clock key) id key) =
      { db with engine := { db.engine with index := db.engine.index.record clock id keys } } := by
  induction keys generalizing db with
  | nil => rfl
  | cons key rest ih =>
    rw [List.map_cons, play, List.foldl_cons, ← play, ih]
    rfl

/-- Adding a document is storing it and then recording it key by key. -/
theorem play_adding (h : db.Configured config) (now : Instant) (id : DocId) (doc : Document)
    (clock : String → Instant) :
    db.play (Action.adding config now id doc clock) = (db.add now id doc clock).2 := by
  rw [Action.adding, add_eq, h.documents]
  by_cases finite : doc.isFinite
  · rw [if_pos finite, if_pos finite, play, List.foldl_cons, ← play]
    by_cases fits : now.Fits config.documentTtl
    · rw [if_pos fits, if_pos fits, play_records]
      rfl
    · rw [if_neg fits, if_neg fits, act, TimedMap.set_of_not_fits (by rwa [h.documents])]
      rfl
  · rw [if_neg finite, if_neg finite]
    rfl

/-- A call is made of its actions. -/
theorem play_actions (h : db.Configured config) (call : Call) :
    db.play (call.actions config) = db.perform call := by
  cases call with
  | add now fresh doc clock => exact play_adding h now fresh doc clock
  | addJson now fresh json clock =>
    simp only [Call.actions, perform, addJson]
    cases Document.ofJson json with
    | ok doc => exact play_adding h now fresh doc clock
    | error e => rfl
  | get | search | searchResults | scan | size | isEmpty | purge => rfl

/-- A history is made of the actions of its calls. -/
theorem play_history (h : db.Configured config) (history : List Call) :
    db.play (history.flatMap (Call.actions config)) = db.run history := by
  induction history generalizing db with
  | nil => rfl
  | cons call rest ih =>
    rw [List.flatMap_cons, play_append, play_actions h, ih (h.perform call), run_cons]

/-! ## Calls that are broken off -/

/- A call is broken off at the first of its actions that no clock can time.  What its actions have
written before stays, so there may be a document of which some keys are missing. -/

/-- A call that adds is broken off exactly if it returns nothing. -/
theorem isOverflow_added {outcome : Outcome (Except Error DocId)} :
    ¬(Reply.added outcome).isOverflow ↔ outcome ≠ .overflowed := by
  cases outcome <;> simp [Reply.isOverflow]

/-- A call that adds returns exactly if a clock can time all of its actions. -/
theorem add_returns_iff (h : db.Configured config) :
    (db.add now id doc clock).1 ≠ .overflowed ↔
      ∀ action ∈ Action.adding config now id doc clock, action.Fits config := by
  rw [add_ne_overflowed_iff, h.documents, Index.FitsAll, h.index, Action.adding]
  by_cases finite : doc.isFinite <;> by_cases fits : now.Fits config.documentTtl <;>
    simp [finite, fits, Action.Fits]

/-- A call is not broken off where none of its actions is. -/
theorem reply_returns_iff (h : db.Configured config) (call : Call) :
    ¬(db.reply call).isOverflow ↔ ∀ action ∈ call.actions config, action.Fits config := by
  cases call with
  | add now fresh doc clock => exact isOverflow_added.trans (add_returns_iff h)
  | addJson now fresh json clock =>
    rw [reply, isOverflow_added, addJson, Call.actions]
    cases Document.ofJson json with
    | ok doc => exact add_returns_iff h
    | error e => simp
  | get | search | searchResults | scan | size | isEmpty =>
    simp [reply, Reply.isOverflow, Call.actions]
  | purge => simp [reply, Reply.isOverflow, Call.actions, Action.Fits]

/-- No call of a history is broken off where no action is. -/
theorem returns_iff (h : db.Configured config) (history : List Call) :
    (∀ entry ∈ db.transcript history, ¬entry.2.isOverflow) ↔
      ∀ action ∈ history.flatMap (Call.actions config), action.Fits config := by
  induction history generalizing db with
  | nil => simp [transcript]
  | cons call rest ih =>
    rw [transcript_cons, List.flatMap_cons, List.forall_mem_cons, List.forall_mem_append,
      reply_returns_iff h, ih (h.perform call)]

/-! ## What calls write -/

/-- What is recorded has its deadline in range. -/
def RecordsFit (config : Config) (actions : List Action) : Prop :=
  ∀ now stamp id key, .record now stamp id key ∈ actions → stamp.Fits config.indexTtl

/-- What adding a document writes if it is stored and all its keys are recorded. -/
theorem writes_adding (finite : doc.isFinite) (fits : now.Fits config.documentTtl)
    (clock : String → Instant) :
    (Action.adding config now id doc clock).flatMap Action.writes = writesOf (id, doc) := by
  rw [Action.adding, if_pos finite, if_pos fits, List.flatMap_cons, List.flatMap_map, writesOf,
    List.map_eq_flatMap]
  rfl

/-- A document that is recorded under all its keys, if at all, has written what its entry says. -/
theorem wrote_adding (h : db.Configured config)
    (fit : RecordsFit config (Action.adding config now id doc clock)) :
    (Action.adding config now id doc clock).flatMap (Action.wrote config) =
      (Entry.ofOutcome doc (db.add now id doc clock).1).flatMap writesOf := by
  rw [ofOutcome_add, h.documents]
  by_cases finite : doc.isFinite
  · by_cases fits : now.Fits config.documentTtl
    · have keys : ∀ key ∈ doc.indexKeys.toList, (clock key).Fits config.indexTtl := by
        intro key held
        refine fit (clock key) (clock key) id key ?_
        simp [Action.adding, finite, fits, held]
      have actions : ∀ action ∈ Action.adding config now id doc clock, action.Fits config := by
        simpa [Action.adding, finite, fits, Action.Fits] using keys
      have recorded : db.engine.index.FitsAll clock doc.indexKeys.toList := by
        rwa [Index.FitsAll, h.index]
      rw [if_pos ⟨finite, fits, recorded⟩, Action.flatMap_wrote_of_fits actions,
        writes_adding finite fits clock, List.flatMap_singleton]
    · simp [Action.adding, Action.wrote, Action.Fits, finite, fits]
  · simp [Action.adding, finite]

/-- What has been written of a document is some of what it is to write if it has been stored. -/
theorem wrote_adding_sublist (h : db.Configured config) :
    ((Action.adding config now id doc clock).flatMap (Action.wrote config)).Sublist
      ((Entry.ofOutcome doc (db.engine.documents.add now id doc).1).flatMap writesOf) := by
  rw [DocumentStore.add_eq, h.documents]
  by_cases finite : doc.isFinite
  · by_cases fits : now.Fits config.documentTtl
    · rw [if_pos finite, if_pos fits, Entry.ofOutcome, List.flatMap_singleton,
        ← writes_adding finite fits clock]
      exact Action.flatMap_wrote_sublist ..
    · simp [Action.adding, Action.wrote, Action.Fits, finite, fits, Entry.ofOutcome]
  · simp [Action.adding, finite, Entry.ofOutcome]

/-- A call that is not broken off among its keys has written what its entry says. -/
theorem wrote_actions (h : db.Configured config) (call : Call)
    (fit : RecordsFit config (call.actions config)) :
    (call.actions config).flatMap (Action.wrote config) = (db.entered call).flatMap writesOf := by
  cases call with
  | add now fresh doc clock => exact wrote_adding h fit
  | addJson now fresh json clock =>
    simp only [Call.actions, entered, addJson] at fit ⊢
    cases made : Document.ofJson json with
    | ok doc =>
      rw [made] at fit
      exact wrote_adding h fit
    | error e => rfl
  | get | search | searchResults | scan | size | isEmpty => rfl
  | purge => simp [Call.actions, Action.wrote, Action.writes, entered]

/-- A call has written some of what the document is to write that it stores. -/
theorem wrote_sublist_stored (h : db.Configured config) (call : Call) :
    ((call.actions config).flatMap (Action.wrote config)).Sublist
      ((db.stored call).flatMap writesOf) := by
  cases call with
  | add now fresh doc clock => exact wrote_adding_sublist h
  | addJson now fresh json clock =>
    simp only [Call.actions, stored]
    cases Document.ofJson json with
    | ok doc => exact wrote_adding_sublist h
    | error e => exact List.Sublist.refl _
  | get | search | searchResults | scan | size | isEmpty => exact List.Sublist.refl _
  | purge => simp [Call.actions, Action.wrote, Action.writes]

/-! ## What histories write -/

/-- The calls of a history add the documents of its ledger, if none is broken off among its keys. -/
theorem schedules_history (h : db.Configured config) (history : List Call)
    (fit : RecordsFit config (history.flatMap (Call.actions config))) :
    Schedules config (db.ledger history) (history.flatMap (Call.actions config)) := by
  induction history generalizing db with
  | nil => rfl
  | cons call rest ih =>
    rw [List.flatMap_cons] at fit ⊢
    have first : RecordsFit config (call.actions config) :=
      fun now stamp id key held => fit now stamp id key (List.mem_append_left _ held)
    have others : RecordsFit config (rest.flatMap (Call.actions config)) :=
      fun now stamp id key held => fit now stamp id key (List.mem_append_right _ held)
    rw [Schedules, List.flatMap_append, wrote_actions h call first, ih (h.perform call) others,
      ledger, List.flatMap_append]

/-- A history has written some of what the documents are to write that it stores. -/
theorem wrote_sublist_holdings (h : db.Configured config) (history : List Call) :
    ((history.flatMap (Call.actions config)).flatMap (Action.wrote config)).Sublist
      ((db.holdings history).flatMap writesOf) := by
  induction history generalizing db with
  | nil => exact List.Sublist.refl _
  | cons call rest ih =>
    rw [List.flatMap_cons, List.flatMap_append, holdings, List.flatMap_append]
    exact (wrote_sublist_stored h call).append (ih (h.perform call))

/-- A document that has been entered has all of its keys recorded in time. -/
theorem recordsFit_of_mem_entered (h : db.Configured config) {entry : Entry}
    (held : entry ∈ db.entered call) : RecordsFit config (call.actions config) := by
  -- Who is given an identifier has not been broken off.
  have given {doc : Document} {outcome : Outcome (Except Error DocId)}
      (held : entry ∈ Entry.ofOutcome doc outcome) : ¬(Reply.added outcome).isOverflow := by
    rcases outcome with (_ | _) | _ <;> simp_all [Entry.ofOutcome, Reply.isOverflow]
  have returns : ¬(db.reply call).isOverflow := by
    cases call with
    | add now fresh doc clock => exact given held
    | addJson now fresh json clock =>
      simp only [entered] at held
      split at held
      · exact given held
      · cases held
    | get | search | searchResults | scan | size | isEmpty | purge => cases held
  exact fun now stamp id key held => (reply_returns_iff h call).1 returns _ held

/-- What the ledger says has been written, also if other calls are broken off. -/
theorem wrote_of_mem_ledger (h : db.Configured config) {history : List Call} {entry : Entry}
    (held : entry ∈ db.ledger history) {write : Write} (new : write ∈ writesOf entry) :
    write ∈ (history.flatMap (Call.actions config)).flatMap (Action.wrote config) := by
  induction history generalizing db with
  | nil => cases held
  | cons call rest ih =>
    rw [List.flatMap_cons, List.flatMap_append, List.mem_append]
    rw [ledger, List.mem_append] at held
    rcases held with held | held
    · rw [wrote_actions h call (recordsFit_of_mem_entered h held)]
      exact .inl (List.mem_flatMap.2 ⟨entry, held, new⟩)
    · exact .inr (ih (h.perform call) held)

end Database
end DocumentBase
