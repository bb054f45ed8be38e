import SchemaDialects.Diagnostic
import SchemaDialects.Model

/-!
# Consistency of a schema

Every entity has a name of its own, and keys, checks and relations speak of attributes that exist.
The first is demanded, the second only remarked upon.
-/

namespace SchemaDialects

/-- What can be wrong with a schema. -/
inductive Inconsistency
  | duplicateEntity (id : EntityName)
  | missingAttribute (id : EntityName) (path : AttributePath)
  | unknownEntity (id : EntityName)
  | unknownAttribute (id : EntityName) (path : AttributePath)
  deriving DecidableEq, Repr

namespace Inconsistency

def level : Inconsistency → Level
  | .duplicateEntity _ => .error
  | _ => .warning

def kind : Inconsistency → DiagnosticKind
  | .duplicateEntity _ => .duplicateEntity
  | .unknownEntity _ => .unknownEntity
  | .missingAttribute .. | .unknownAttribute .. => .unknownAttribute

def message : Inconsistency → String
  | .duplicateEntity id => "Entity " ++ id.render ++ " is defined more than once"
  | .missingAttribute id path => "Attribute " ++ path.render ++ " not found in " ++ id.render
  | .unknownEntity id => "Relation references unknown entity " ++ id.render
  | .unknownAttribute id path =>
    "Relation references unknown attribute " ++ id.render ++ "(" ++ path.render ++ ")"

def diagnostic (i : Inconsistency) (position : Position) : Diagnostic where
  level := i.level
  kind := i.kind
  message := i.message
  position := position

end Inconsistency

/-- The attributes that the keys, indexes and checks of an entity speak of. -/
def Entity.mentioned (e : Entity) : List AttributePath :=
  (e.primaryKey.elim [] (·.attrs)) ++ e.indexes.flatMap (·.attrs) ++ e.checks.flatMap (·.attrs)

/-- The inconsistencies of entities, the ids in `seen` being taken already. -/
def entityInconsistencies (seen : List EntityName) : List Entity → List Inconsistency
  | [] => []
  | e :: rest =>
    (if seen.contains e.id then [.duplicateEntity e.id] else []) ++
      ((e.mentioned.filter fun path => !e.hasAttribute path).map (.missingAttribute e.id ·)) ++
      entityInconsistencies (e.id :: seen) rest

/-- What one end of a relation gets wrong. -/
def Link.inconsistencies (db : Database) (link : Link) : List Inconsistency :=
  match db.entity? link.entity with
  | none => [.unknownEntity link.entity]
  | some e =>
    (link.attrs.filter fun path => !e.hasAttribute path).map (.unknownAttribute link.entity ·)

def Database.inconsistencies (db : Database) : List Inconsistency :=
  entityInconsistencies [] db.entities ++
    db.relations.flatMap fun r => r.source.inconsistencies db ++ r.target.inconsistencies db

/-- The inconsistencies of a schema as diagnostics without position. -/
def Database.validate (db : Database) : List Diagnostic :=
  db.inconsistencies.map (·.diagnostic .unknown)

end SchemaDialects
