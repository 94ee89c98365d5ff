import DocumentBase.Duration

/-!
# DocumentBase.Config

How long a database keeps documents and index entries, and how often expired ones are removed in the
background.
-/

namespace DocumentBase

/-- The settings of a database. -/
structure Config where
  /-- How long documents live; forever if there is none. -/
  documentTtl : Option Duration
  /-- How long index entries live; forever if there is none. -/
  indexTtl : Option Duration
  /-- The time between two removals of expired entries; no removals if there is none. -/
  cleanupInterval : Option Duration
deriving DecidableEq

namespace Config

/-- Entries live half an hour and are removed every ten minutes. -/
def standard : Config := ⟨some (.ofMinutes 30), some (.ofMinutes 30), some (.ofMinutes 10)⟩

/-- Nothing expires. -/
def noExpiry : Config := ⟨none, none, none⟩

/-! ## JSON -/

/-- A length of time, or null for none. -/
def ttlToJson : Option Duration → Json
  | some span => span.toJson
  | none => .null

/-- Settings as plain JSON. -/
def toJson (config : Config) : Json :=
  .object [
    ("cleanup_interval", ttlToJson config.cleanupInterval),
    ("document_ttl", ttlToJson config.documentTtl),
    ("index_ttl", ttlToJson config.indexTtl)]

/-- The settings that have been read. -/
structure Parts where
  documentTtl : Option (Option Duration) := none
  indexTtl : Option (Option Duration) := none
  cleanupInterval : Option (Option Duration) := none

/-- Settings as a record.  A setting that is not given is none. -/
def shape (depth : Nat) : Json.RecordShape Parts Config where
  title := "struct Config"
  lengthTitle := "struct Config with 3 elements"
  fields := [
    .ofReader "document_ttl" (·.documentTtl)
      (fun parts ttl => { parts with documentTtl := some ttl })
      (Json.Reader.optional (Duration.reader depth)),
    .ofReader "index_ttl" (·.indexTtl)
      (fun parts ttl => { parts with indexTtl := some ttl })
      (Json.Reader.optional (Duration.reader depth)),
    .ofReader "cleanup_interval" (·.cleanupInterval)
      (fun parts interval => { parts with cleanupInterval := some interval })
      (Json.Reader.optional (Duration.reader depth))]
  isClosed := false
  empty := {}
  finish parts :=
    .ok ⟨parts.documentTtl.join, parts.indexTtl.join, parts.cleanupInterval.join⟩

/-- Reads settings. -/
def reader (depth : Nat) : Json.Reader Config := Json.Reader.record depth shape

/-- Decodes the JSON text of settings. -/
def decode (text : List UInt8) : Except DecodeError Config :=
  Json.Reader.whole (reader Json.depthLimit) text

end Config
end DocumentBase
