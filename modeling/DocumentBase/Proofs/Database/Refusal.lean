import DocumentBase.Proofs.Database.History
import DocumentBase.Proofs.Document.Finite

/-!
# DocumentBase.Proofs.Database.Refusal

What a database refuses, and that it forgets it (`refuses_exactly`).  A document is refused where it
holds NaN or an infinity, and plain JSON where it is no object; plain JSON that is an object has
finite numbers only, so nothing is left that could be refused later.  A call that is broken off for
want of a deadline is none that is refused: it has no answer.

A refused call leaves everything as it was (`perform_of_isRefusal`).  So the answers to the other
calls of a history are those of the history without the refused ones, and both lead to the same
database.
-/

namespace DocumentBase

/-- Whether something was to be added and has been refused. -/
def Reply.isRefusal : Reply → Bool
  | added (.returned (.error _)) => true
  | _ => false

namespace Database

/-! ## Calls that are refused -/

variable {db : Database} {now : Instant} {fresh : DocId} {clock : String → Instant} {e : Error}

/-- Adding a document returns an error exactly if it is not finite. -/
theorem add_error_iff {doc : Document} :
    (db.add now fresh doc clock).1 = .returned (.error e) ↔
      doc.isFinite = false ∧ e = .notFinite := by
  rw [add_eq]
  cases doc.isFinite with
  | false => simp [eq_comm]
  | true => by_cases fits : now.Fits db.engine.documents.documents.ttl <;> simp [fits]

/-- A document that is refused leaves the database as it was. -/
theorem add_of_error {doc : Document}
    (refused : (db.add now fresh doc clock).1 = .returned (.error e)) :
    (db.add now fresh doc clock).2 = db := by
  rw [add_eq, (add_error_iff.1 refused).1]
  rfl

/-- Adding plain JSON fails where it makes no document, and never because of its numbers. -/
theorem addJson_error_iff {json : Json} :
    (db.addJson now fresh json clock).1 = .returned (.error e) ↔
      Document.ofJson json = .error e := by
  rw [addJson]
  cases made : Document.ofJson json with
  | error reason => simp
  | ok doc => simp [add_error_iff, Document.isFinite_of_ofJson made]

/-- Plain JSON that is refused leaves the database as it was. -/
theorem addJson_of_error {json : Json}
    (refused : (db.addJson now fresh json clock).1 = .returned (.error e)) :
    (db.addJson now fresh json clock).2 = db := by
  rw [addJson, addJson_error_iff.1 refused]

/-- A call that adds is a refusal if it returns an error, not if it is broken off. -/
theorem isRefusal_added_iff {outcome : Outcome (Except Error DocId)} :
    (Reply.added outcome).isRefusal ↔ ∃ e, outcome = .returned (.error e) := by
  rcases outcome with (_ | _) | _ <;> simp [Reply.isRefusal]

/-- A refused call leaves the database as it is. -/
theorem perform_of_isRefusal {call : Call} (refused : (db.reply call).isRefusal) :
    db.perform call = db := by
  cases call with
  | add now fresh doc clock =>
    obtain ⟨e, refused⟩ := isRefusal_added_iff.1 refused
    exact add_of_error refused
  | addJson now fresh json clock =>
    obtain ⟨e, refused⟩ := isRefusal_added_iff.1 refused
    exact addJson_of_error refused
  | get | search | searchResults | scan | size | isEmpty => rfl
  | purge => cases refused

/-- Without the calls that are refused a history has the same answers and leads to the same
database. -/
theorem forgets_refused (db : Database) (history : List Call) :
    let kept := (db.transcript history).filter (!·.2.isRefusal)
    db.transcript (kept.map Prod.fst) = kept ∧ db.run (kept.map Prod.fst) = db.run history := by
  -- Later calls are made of the database that the first one leaves behind, so for every database.
  induction history generalizing db with
  | nil => exact ⟨rfl, rfl⟩
  | cons call rest ih =>
    rw [transcript_cons, run_cons]
    cases refused : (db.reply call).isRefusal with
    | true =>
      rw [List.filter_cons_of_neg (by simp [refused]), perform_of_isRefusal refused]
      exact ih db
    | false =>
      obtain ⟨answers, leads⟩ := ih (db.perform call)
      rw [List.filter_cons_of_pos (by simp [refused])]
      dsimp only
      rw [List.map_cons, transcript_cons, run_cons, answers, leads]
      exact ⟨rfl, rfl⟩

/-! ## What is refused -/

/-- In every state, adding a document is refused exactly where a number in it is NaN or infinite,
and adding plain JSON exactly where it is no object.  The one is an internal failure, the other that
of the input, and both leave everything as it was: the answers to all other calls are those of the
history without the refused ones, and so is the database that it leads to. -/
theorem refuses_exactly (db : Database) :
    (∀ now fresh doc clock,
      ((∃ e, (db.add now fresh doc clock).1 = .returned (.error e)) ↔
        ∃ x, doc.Contains x ∧ (x = .nan ∨ ∃ negative, x = .infinite negative)) ∧
      ∀ e, (db.add now fresh doc clock).1 = .returned (.error e) →
        e.report.kind = .internal ∧ (db.add now fresh doc clock).2 = db) ∧
    (∀ now fresh json clock,
      ((∃ e, (db.addJson now fresh json clock).1 = .returned (.error e)) ↔
        ∀ fields, json ≠ .object fields) ∧
      ∀ e, (db.addJson now fresh json clock).1 = .returned (.error e) →
        e.report.kind = .invalidInput ∧ (db.addJson now fresh json clock).2 = db) ∧
    ∀ history,
      let kept := (db.transcript history).filter (!·.2.isRefusal)
      db.transcript (kept.map Prod.fst) = kept ∧ db.run (kept.map Prod.fst) = db.run history := by
  refine ⟨fun now fresh doc clock => ⟨?_, fun e refused => ⟨?_, add_of_error refused⟩⟩,
    fun now fresh json clock => ⟨?_, fun e refused => ⟨?_, addJson_of_error refused⟩⟩,
    db.forgets_refused⟩
  · simp only [add_error_iff, exists_and_left, exists_eq, and_true]
    exact Document.isFinite_eq_false_iff
  · rw [(add_error_iff.1 refused).2]
    rfl
  · simp only [addJson_error_iff]
    exact Document.ofJson_error_iff
  · exact Document.kind_of_ofJson_eq_error (addJson_error_iff.1 refused)

/-- NaN in an object in a list. -/
def hiddenNan : Document := .ofFields [("a", .array [.null, .object [("b", .number .nan)]])]

/-- Three calls of which the first and the last are refused. -/
def refusedTwice : List Call :=
  [.add 0 ⟨"first"⟩ hiddenNan (fun _ => 0), .addJson 1 ⟨"second"⟩ (.object []) (fun _ => 1),
    .addJson 2 ⟨"third"⟩ (.array [.object []]) (fun _ => 2)]

/-- They leave the document of the second call behind and nothing else. -/
theorem refuses_exactly_twice :
    (∃ e, ((empty .noExpiry).add 0 ⟨"first"⟩ hiddenNan (fun _ => 0)).1 = .returned (.error e) ∧
      e.report.kind = .internal) ∧
    (∃ e, ((empty .noExpiry).addJson 2 ⟨"third"⟩ (.array [.object []]) (fun _ => 2)).1 =
        .returned (.error e) ∧
      e.report.kind = .invalidInput) ∧
    (empty .noExpiry).run refusedTwice =
      (empty .noExpiry).run [.addJson 1 ⟨"second"⟩ (.object []) (fun _ => 1)] := by
  obtain ⟨documents, plain, forgets⟩ := refuses_exactly (empty .noExpiry)
  obtain ⟨refused, internal⟩ := documents 0 ⟨"first"⟩ hiddenNan (fun _ => 0)
  obtain ⟨refused', invalid⟩ := plain 2 ⟨"third"⟩ (.array [.object []]) (fun _ => 2)
  have contains : hiddenNan.Contains .nan :=
    .field List.mem_cons_self (.item (List.mem_cons_of_mem _ List.mem_cons_self)
      (.field List.mem_cons_self .number))
  obtain ⟨e, failed⟩ := refused.2 ⟨.nan, contains, .inl rfl⟩
  obtain ⟨e', failed'⟩ := refused'.2 (by simp)
  exact ⟨⟨e, failed, (internal e failed).1⟩, ⟨e', failed', (invalid e' failed').1⟩,
    (forgets refusedTwice).2.symm⟩

end Database
end DocumentBase
