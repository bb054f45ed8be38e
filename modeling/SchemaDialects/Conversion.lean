import SchemaDialects.Dialect
import SchemaDialects.Diff

/-!
# Conversions

From one dialect into another, and through several of them to see what each one loses.
-/

namespace SchemaDialects

/-- What one dialect makes of a schema. -/
structure Passage where
  /-- The schema written in the dialect. -/
  text : Except WriteError String
  /-- What is read from that text; nothing when it could not be written. -/
  result : Parsed Database
  /-- What has changed on the way. -/
  diff : Option DatabaseDiff

/-- Writes a schema and reads it again. -/
def Dialect.pass (d : Dialect) (db : Database) : Passage :=
  match d.write db .all with
  | .error e => { text := .error e, result := .failure [], diff := none }
  | .ok text =>
    let result := d.read text
    { text := .ok text, result, diff := result.value.map db.diff }

/-- The schema as it is behind a passage: unchanged if it did not get through. -/
def Passage.schema (p : Passage) (before : Database) : Database :=
  p.result.value.getD before

/-- Passes a schema through several dialects, one after the other. -/
def passThrough (db : Database) : List Dialect → List Passage
  | [] => []
  | d :: rest =>
    let passage := d.pass db
    passage :: passThrough (passage.schema db) rest

end SchemaDialects
