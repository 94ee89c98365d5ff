import DocumentBase.Config
import DocumentBase.Proofs.Document.Codec
import DocumentBase.Proofs.Json.Records
import DocumentBase.Query.Json
import DocumentBase.Results

/-!
# DocumentBase.Proofs.Codec

What is written is read back.  For each record there is the state that its fields lead to, by name
and in any order, and from it the record itself.  The main statement gathers all of them
(`decode_written_exactly`): a document comes back with its nulls or nests too deeply, all else comes
back as it was.
-/

namespace DocumentBase

open Json Json.Reader

/-! ## Lengths of time and settings -/

namespace Duration

/-- The state in which both parts of a length have been read. -/
def allParts (span : Duration) : Parts where
  seconds := some ⟨span.seconds, span.seconds_lt⟩
  nanos := some ⟨span.nanos, Nat.lt_trans span.nanos_lt (by decide)⟩

/-- What the fields of a length put into the state of its reader. -/
def put (span : Duration) (name : String) (parts : Parts) : Except DecodeError Parts :=
  if name = "secs" then
    if parts.seconds.isSome then .error (.duplicateField name)
    else .ok { parts with seconds := span.allParts.seconds }
  else
    if parts.nanos.isSome then .error (.duplicateField name)
    else .ok { parts with nanos := span.allParts.nanos }

/-- A length of time is made again of its seconds and nanoseconds. -/
theorem ofParts?_parts (span : Duration) : ofParts? span.seconds span.nanos = some span := by
  have whole : span.nanos / nanosInSecond = 0 := Nat.div_eq_of_lt span.nanos_lt
  have rest : span.nanos % nanosInSecond = span.nanos := Nat.mod_eq_of_lt span.nanos_lt
  have fits : span.seconds + span.nanos / nanosInSecond < 0x10000000000000000 := by
    rw [whole]
    exact span.seconds_lt
  unfold ofParts?
  rw [dif_pos fits]
  simp only [whole, rest, Nat.add_zero]

theorem finish_allParts (span : Duration) : shape.finish span.allParts = .ok span := by
  simp [shape, allParts, Json.required, ofParts?_parts, bind, Except.bind]

/-- The text of a length of time is read back, its two fields in either order. -/
theorem reads_duration {span : Duration} {other : Json} (h : span.toJson.Rearranges other)
    (depth : Nat) : Reads (reader (depth + 1)) other.chars (.ok span) := by
  simp only [toJson, Rearranges, RearrangesFields] at h
  obtain ⟨_, others, rfl, ⟨_, _, rfl, rfl, _, _, rfl, rfl, rfl⟩, perm⟩ := h
  refine reads_record span.put span.allParts ?_ ?_ span.finish_allParts
  · intro field hf state
    rcases List.mem_pair.1 (perm.mem_iff.2 hf) with rfl | rfl
    · exact reads_recordField rfl (reads_natural "u32" (by decide) _) rfl
    · exact reads_recordField rfl (reads_natural "u64" (by decide) _) rfl
  · rcases perm_two perm with rfl | rfl <;> rfl

end Duration

namespace Config

/-- The state in which all settings have been read. -/
def allParts (config : Config) : Parts :=
  ⟨some config.documentTtl, some config.indexTtl, some config.cleanupInterval⟩

/-- What the settings put into the state of their reader. -/
def put (config : Config) (name : String) (parts : Parts) : Except DecodeError Parts :=
  if name = "document_ttl" then
    if parts.documentTtl.isSome then .error (.duplicateField name)
    else .ok { parts with documentTtl := some config.documentTtl }
  else if name = "index_ttl" then
    if parts.indexTtl.isSome then .error (.duplicateField name)
    else .ok { parts with indexTtl := some config.indexTtl }
  else
    if parts.cleanupInterval.isSome then .error (.duplicateField name)
    else .ok { parts with cleanupInterval := some config.cleanupInterval }

theorem reads_ttl {ttl : Option Duration} {other : Json} (h : (ttlToJson ttl).Rearranges other)
    (depth : Nat) : Reads (optional (Duration.reader (depth + 1))) other.chars (.ok ttl) := by
  cases ttl with
  | none =>
    rw [ttlToJson, Rearranges] at h
    subst h
    exact reads_optional_null _
  | some span =>
    have object := h
    simp only [ttlToJson, Duration.toJson, Rearranges] at object
    obtain ⟨_, others, rfl, _⟩ := object
    have start : StartsWith (Json.object others).chars Ascii.openBrace := ⟨rfl, rfl⟩
    exact reads_optional start (by decide) (Duration.reads_duration h depth)

/-- The text of some settings is read back, in either order of the fields, also inside the lengths
of time. -/
theorem reads_config {config : Config} {other : Json} (h : config.toJson.Rearranges other)
    (depth : Nat) : Reads (reader (depth + 2)) other.chars (.ok config) := by
  simp only [toJson, Rearranges, RearrangesFields] at h
  obtain ⟨_, others, rfl, ⟨cleanup, _, rfl, h₁, document, _, rfl, h₂, index, _, rfl, h₃, rfl⟩,
    perm⟩ := h
  refine reads_record config.put config.allParts ?_ ?_ rfl
  · intro field hf state
    have front := perm.mem_iff.2 hf
    simp only [List.mem_cons, List.not_mem_nil, or_false] at front
    rcases front with rfl | rfl | rfl
    · exact reads_recordField rfl (reads_ttl h₁ depth) rfl
    · exact reads_recordField rfl (reads_ttl h₂ depth) rfl
    · exact reads_recordField rfl (reads_ttl h₃ depth) rfl
  · have orders := perm_three perm
    simp only [List.mem_cons, List.not_mem_nil, or_false] at orders
    rcases orders with rfl | rfl | rfl | rfl | rfl | rfl <;> rfl

end Config

/-! ## Queries -/

theorem Operator.reads_operator {op : Operator} {other : Json}
    (h : op.toJson.Rearranges other) (depth : Nat) :
    Reads (Operator.reader depth) other.chars (.ok op) := by
  rw [Operator.toJson, Rearranges] at h
  subst h
  exact reads_variant (by cases op <;> rfl) depth

/-- Strings have one text only. -/
theorem Json.reads_strings {items : List String} {others : List Json}
    (h : RearrangesItems (items.map Json.string) others) (depth : Nat) :
    Reads (Reader.list (depth + 1) fun _ => Reader.string) (array others).chars (.ok items) := by
  refine reads_rearrangedList h fun item _ other same => ?_
  rw [Rearranges] at same
  subst same
  exact reads_stringValue item

namespace Clause

/-- The state in which all parts of a clause have been read. -/
def allParts (clause : Clause) : Parts := ⟨some clause.path, some clause.op, some clause.literal⟩

/-- What the parts of a clause put into the state of its reader. -/
def put (clause : Clause) (name : String) (parts : Parts) : Except DecodeError Parts :=
  if name = "path" then
    if parts.path.isSome then .error (.duplicateField name)
    else .ok { parts with path := some clause.path }
  else if name = "op" then
    if parts.op.isSome then .error (.duplicateField name)
    else .ok { parts with op := some clause.op }
  else
    if parts.literal.isSome then .error (.duplicateField name)
    else .ok { parts with literal := some clause.literal }

/-- The text of a clause is read back, in each of the six orders of its fields. -/
theorem reads_clause {clause : Clause} {other : Json} (h : clause.toJson.Rearranges other)
    (depth : Nat) : Reads (reader (depth + 2)) other.chars (.ok clause) := by
  simp only [toJson, Rearranges, RearrangesFields] at h
  obtain ⟨_, others, rfl, ⟨op, _, rfl, h₁, _, _, rfl, ⟨path, rfl, h₂⟩, _, _, rfl, rfl, rfl⟩, perm⟩
    := h
  refine reads_record clause.put clause.allParts ?_ ?_ rfl
  · intro field hf state
    have front := perm.mem_iff.2 hf
    simp only [List.mem_cons, List.not_mem_nil, or_false] at front
    rcases front with rfl | rfl | rfl
    · exact reads_recordField rfl (Operator.reads_operator h₁ _) rfl
    · exact reads_recordField rfl (reads_strings h₂ depth) rfl
    · exact reads_recordField rfl (reads_stringValue clause.literal) rfl
  · have orders := perm_three perm
    simp only [List.mem_cons, List.not_mem_nil, or_false] at orders
    rcases orders with rfl | rfl | rfl | rfl | rfl | rfl <;> rfl

end Clause

namespace Query

/-- What the clauses of a query put into the state of its reader. -/
def put (query : Query) (name : String) (clauses : Option (List Clause)) :
    Except DecodeError (Option (List Clause)) :=
  if clauses.isSome then .error (.duplicateField name) else .ok (some query.clauses)

theorem reads_query {query : Query} {other : Json} (h : query.toJson.Rearranges other)
    (depth : Nat) : Reads (reader (depth + 4)) other.chars (.ok query) := by
  simp only [toJson, Rearranges, RearrangesFields] at h
  obtain ⟨_, others, rfl, ⟨_, _, rfl, ⟨clauses, rfl, items⟩, rfl⟩, perm⟩ := h
  rw [perm_one perm]
  refine reads_record query.put (some query.clauses) ?_ rfl rfl
  intro field hf state
  rw [List.mem_singleton.1 hf]
  exact reads_recordField rfl
    (reads_rearrangedList items fun clause _ _ same => Clause.reads_clause same depth) rfl

end Query

/-! ## Results -/

namespace Hit

/-- The state in which both parts of a hit have been read. -/
def allParts (hit : Hit) : Parts := ⟨some hit.id, some hit.document⟩

/-- What the parts of a hit put into the state of its reader. -/
def put (hit : Hit) (name : String) (parts : Parts) : Except DecodeError Parts :=
  if name = "id" then
    if parts.id.isSome then .error (.duplicateField name)
    else .ok { parts with id := some hit.id }
  else
    if parts.document.isSome then .error (.duplicateField name)
    else .ok { parts with document := some hit.document }

/-- A hit wraps its document in one more object. -/
@[simp] theorem nesting_toJson (hit : Hit) : hit.toJson.nesting = 1 + hit.document.nesting := by
  rw [toJson, Json.nesting, fieldsNesting, fieldsNesting, fieldsNesting,
    Document.nesting_toJson, DocId.toJson, Json.nesting]
  omega

/-- The text of a hit is read back if the document is finite and not too deep. -/
theorem reads_hit {hit : Hit} {other : Json} {depth : Nat} (finite : hit.document.isFinite)
    (within : hit.toJson.nesting ≤ depth) (h : hit.toJson.Rearranges other) :
    Reads (reader depth) other.chars (.ok hit) := by
  rw [nesting_toJson] at within
  obtain ⟨depth, rfl⟩ := Nat.exists_eq_add_of_le' (Nat.le_of_add_right_le within)
  simp only [toJson, DocId.toJson, Rearranges, RearrangesFields] at h
  obtain ⟨_, others, rfl, ⟨document, _, rfl, h₁, _, _, rfl, rfl, rfl⟩, perm⟩ := h
  have stored := Document.reads_document h₁ depth
  rw [Document.readWithin, if_pos (by omega), Document.withNulls_of_finite finite] at stored
  refine reads_record hit.put hit.allParts ?_ ?_ rfl
  · intro field hf state
    rcases List.mem_pair.1 (perm.mem_iff.2 hf) with rfl | rfl
    · exact reads_recordField rfl stored rfl
    · exact reads_recordField rfl (reads_map DocId.mk (reads_stringValue hit.id.text)) rfl
  · rcases perm_two perm with rfl | rfl <;> rfl

end Hit

namespace Results

/-- The state in which both parts of results have been read. -/
def allParts (results : Results) : Parts :=
  ⟨some results.hits, some ⟨results.count.toNat, results.count.toNat_lt⟩⟩

/-- What the parts of results put into the state of their reader. -/
def put (results : Results) (name : String) (parts : Parts) : Except DecodeError Parts :=
  if name = "results" then
    if parts.hits.isSome then .error (.duplicateField name)
    else .ok { parts with hits := some results.hits }
  else
    if parts.count.isSome then .error (.duplicateField name)
    else .ok { parts with count := results.allParts.count }

theorem finish_allParts (results : Results) (depth : Nat) :
    (shape depth).finish results.allParts = .ok results := by
  show Except.ok (Results.mk results.hits (UInt64.ofNat results.count.toNat)) = _
  rw [UInt64.ofNat_toNat]

/-- The results wrap their hits in a list and an object. -/
@[simp] theorem nesting_toJson (results : Results) :
    results.toJson.nesting = 2 + itemsNesting (results.hits.map Hit.toJson) := by
  rw [toJson, Json.nesting, fieldsNesting, fieldsNesting, fieldsNesting, Json.nesting, Json.nesting]
  omega

/-- The text of some results is read back if every document is finite and none is too deep. -/
theorem reads_results {results : Results} {other : Json} {depth : Nat}
    (finite : ∀ hit ∈ results.hits, hit.document.isFinite)
    (within : results.toJson.nesting ≤ depth) (h : results.toJson.Rearranges other) :
    Reads (reader depth) other.chars (.ok results) := by
  rw [nesting_toJson] at within
  obtain ⟨depth, rfl⟩ := Nat.exists_eq_add_of_le' (Nat.le_of_add_right_le within)
  have inside : itemsNesting (results.hits.map Hit.toJson) ≤ depth := by omega
  simp only [toJson, Rearranges, RearrangesFields] at h
  obtain ⟨_, others, rfl, ⟨_, _, rfl, rfl, _, _, rfl, ⟨hits, rfl, items⟩, rfl⟩, perm⟩ := h
  refine reads_record results.put results.allParts ?_ ?_ (results.finish_allParts _)
  · intro field hf state
    rcases List.mem_pair.1 (perm.mem_iff.2 hf) with rfl | rfl
    · exact reads_recordField rfl (reads_natural "usize" (by decide) _) rfl
    · refine reads_recordField rfl (reads_rearrangedList items fun hit hh other same => ?_) rfl
      exact Hit.reads_hit (finite hit hh)
        (itemsNesting_le_iff.1 inside _ (List.mem_map_of_mem hh)) same
  · rcases perm_two perm with rfl | rfl <;> rfl

end Results

/-! ## The codec -/

/-- Whatever text is written for a document, it decodes to the document with its nulls, unless more
than 127 containers are nested in one another.  So up to that depth a document that is read again is
equal to the one that was written if and only if this one is finite.  These are the documents that a
store takes, where their time to live fits, and it refuses all others.  The stored form is one of
the texts.  Whatever text is written for a clause, a query or settings, or within the same bounds
for a hit or results, decodes to what it was written for. -/
theorem decode_written_exactly :
    (∀ (doc : Document) (text : List UInt8), doc.toJson.Written text →
      Document.decode text = (if doc.nesting ≤ 127 then .ok doc.withNulls else .error .tooDeep) ∧
      (doc.nesting ≤ 127 →
        ((∃ read, Document.decode text = .ok read ∧ read.eq doc) ↔ doc.isFinite) ∧
        (Document.decode text = .ok doc ↔ doc.isFinite) ∧
        ∀ (store : DocumentStore) (now : Instant) (fresh : DocId),
          ((∃ e, (store.add now fresh doc).1 = .returned (.error e)) ↔
            Document.decode text ≠ .ok doc) ∧
          ((store.add now fresh doc).1 = .returned (.ok fresh) ↔
            Document.decode text = .ok doc ∧ now.Fits store.documents.ttl))) ∧
    (∀ doc : Document, doc.toJson.Written doc.encode) ∧
    (∀ (clause : Clause) (text : List UInt8), clause.toJson.Written text →
      Clause.decode text = .ok clause) ∧
    (∀ (query : Query) (text : List UInt8), query.toJson.Written text →
      Query.decode text = .ok query) ∧
    (∀ (config : Config) (text : List UInt8), config.toJson.Written text →
      Config.decode text = .ok config) ∧
    (∀ (hit : Hit) (text : List UInt8), hit.toJson.Written text → hit.toJson.nesting ≤ 127 →
      hit.document.isFinite → Hit.decode text = .ok hit) ∧
    (∀ (results : Results) (text : List UInt8), results.toJson.Written text →
      results.toJson.nesting ≤ 127 → (∀ hit ∈ results.hits, hit.document.isFinite) →
      Results.decode text = .ok results) := by
  refine ⟨fun doc text written => ⟨Document.decode_written written, fun within => ?_⟩,
    Document.written_encode, ?_, ?_, ?_, ?_, ?_⟩
  · have decoded := Document.decode_written written
    rw [Document.readWithin, depthLimit, if_pos within] at decoded
    have exact_iff : Document.decode text = .ok doc ↔ doc.isFinite := by
      rw [decoded, Except.ok.injEq]
      exact Document.withNulls_eq_iff doc
    refine ⟨?_, exact_iff, fun store now fresh => ?_⟩
    · rw [decoded, ← Document.eq_withNulls]
      simp
    · rw [ne_eq, exact_iff, DocumentStore.add_eq]
      by_cases finite : doc.isFinite <;> by_cases fits : now.Fits store.documents.ttl <;>
        simp [finite, fits]
  · rintro clause _ ⟨other, rearranged, rfl⟩
    exact whole_of_reads (Clause.reads_clause rearranged _)
  · rintro query _ ⟨other, rearranged, rfl⟩
    exact whole_of_reads (Query.reads_query rearranged _)
  · rintro config _ ⟨other, rearranged, rfl⟩
    exact whole_of_reads (Config.reads_config rearranged _)
  · rintro hit _ ⟨other, rearranged, rfl⟩ within finite
    exact whole_of_reads (Hit.reads_hit finite within rearranged)
  · rintro results _ ⟨other, rearranged, rfl⟩ within finite
    exact whole_of_reads (Results.reads_results finite within rearranged)

/-- A document with a NaN in a list, its fields written last to first; and a hit on a document that
holds a negative zero. -/
theorem decode_written_nan_and_zero :
    (Document.decode (Utf8.encode
        (Json.object [("b", .string "\""), ("a", .array [.null, .bool true])]).chars)
      = .ok (.ofFields [("a", .array [.null, .bool true]), ("b", .string "\"")])) ∧
    (Hit.decode (Utf8.encode (Json.object [("id", .string "x"),
        ("document", .object [("z", .number (.double (.zero true)))])]).chars)
      = .ok ⟨⟨"x"⟩, .ofFields [("z", .number (.finite (.zero true)))]⟩) := by
  obtain ⟨document, _, _, _, _, hit, _⟩ := decode_written_exactly
  constructor
  · have written := (document
      (.ofFields [("a", .array [.number .nan, .bool true]), ("b", .string "\"")])
      (Utf8.encode (Json.object [("b", .string "\""), ("a", .array [.null, .bool true])]).chars)
      ⟨_, ⟨_, _, rfl, rearrangesFields_self _, .swap _ _ []⟩, rfl⟩).1
    rw [written, if_pos (by decide)]
    rfl
  · exact hit ⟨⟨"x"⟩, .ofFields [("z", .number (.finite (.zero true)))]⟩ _
      ⟨_, ⟨_, _, rfl, rearrangesFields_self _, .swap _ _ []⟩, rfl⟩ (by decide) rfl

end DocumentBase
