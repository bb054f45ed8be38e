import SchemaDialects.Json.Decode
import SchemaDialects.Json.Encode
import SchemaDialects.Diagnostic
import SchemaDialects.Model

/-!
# The model as JSON

The exchange format of schemas: one object a structure, namespaces spread into the object of what
they qualify, empty fields left out. `encode…` writes a structure, `….record` or `decode…` reads it.
-/

namespace SchemaDialects

open Json

/-! ### Names -/

def Namespace.members (n : Namespace) : List Member :=
  [ifSome "database" .str n.database, ifSome "catalog" .str n.catalog, ifSome "schema" .str n.schema]

def Namespace.encode (n : Namespace) : Json := Json.record n.members

def Namespace.record : Record Namespace :=
  (fun database catalog schema => { database, catalog, schema }) <$>
    Record.optional "database" Decoder.string <*>
    Record.optional "catalog" Decoder.string <*>
    Record.optional "schema" Decoder.string

def decodeNamespace : Decoder Namespace := Namespace.record.decode "Namespace"

def EntityName.members (e : EntityName) : List Member :=
  e.space.members ++ [always "entity" (.str e.name)]

def EntityName.encode (e : EntityName) : Json := Json.record e.members

def EntityName.record : Record EntityName :=
  (fun name space => { space, name }) <$>
    Record.required "entity" Decoder.string <*> Namespace.record.inlined

def decodeEntityName : Decoder EntityName := EntityName.record.decode "EntityRef"

def TypeName.encode (t : TypeName) : Json :=
  Json.record (t.space.members ++ [always "type" (.str t.name)])

def decodeTypeName : Decoder TypeName :=
  Record.decode "TypeRef" <|
    (fun name space => { space, name }) <$>
      Record.required "type" Decoder.string <*> Namespace.record.inlined

def AttributePath.encode (path : AttributePath) : Json := strings path

def decodePath : Decoder AttributePath := Decoder.list Decoder.string

def AttributeName.encode (a : AttributeName) : Json :=
  Json.record (a.entity.members ++ [always "attribute" (AttributePath.encode a.path)])

def decodeAttributeName : Decoder AttributeName :=
  Record.decode "AttributeRef" <|
    (fun path entity => { entity, path }) <$>
      Record.required "attribute" decodePath <*> EntityName.record.inlined

/-! ### Attributes and entities -/

mutual

def Attribute.encode : Attribute → Json
  | ⟨name, type, nullable, generated, defaultValue, nested, doc, extra⟩ =>
    Json.record [
      always "name" (.str name),
      always "type" (.str type),
      ifTrue "null" nullable,
      ifTrue "gen" generated,
      ifSome "default" .str defaultValue,
      if nested.isEmpty then none else some ("attrs", .arr (encodeAttributes nested)),
      ifSome "doc" .str doc,
      ifExtra "extra" extra]

def encodeAttributes : List Attribute → List Json
  | [] => []
  | a :: as => a.encode :: encodeAttributes as

end

/-- Reads an attribute with at most `depth` levels of nested ones. -/
def decodeAttributeWithin : (depth : Nat) → Decoder Attribute
  | 0 => fun node => .error (Node.depthFault node)
  | depth + 1 =>
    Record.decode "Attribute" <|
      Attribute.mk <$>
        Record.required "name" Decoder.string <*>
        Record.required "type" Decoder.string <*>
        Record.defaulted "null" false Decoder.bool <*>
        Record.defaulted "gen" false Decoder.bool <*>
        Record.optional "default" Decoder.string <*>
        Record.defaulted "attrs" [] (Decoder.list (decodeAttributeWithin depth)) <*>
        Record.optional "doc" Decoder.string <*>
        Record.defaulted "extra" [] Decoder.extra

/-- No text nests attributes deeper than it may nest brackets. -/
def decodeAttribute : Decoder Attribute := decodeAttributeWithin (nestingLimit + 1)

def PrimaryKey.encode (k : PrimaryKey) : Json :=
  Json.record [
    ifSome "name" .str k.name,
    always "attrs" (.arr (k.attrs.map AttributePath.encode))]

def decodePrimaryKey : Decoder PrimaryKey :=
  Record.decode "PrimaryKey" <|
    PrimaryKey.mk <$>
      Record.optional "name" Decoder.string <*>
      Record.required "attrs" (Decoder.list decodePath)

def Index.encode (i : Index) : Json :=
  Json.record [
    ifSome "name" .str i.name,
    always "attrs" (.arr (i.attrs.map AttributePath.encode)),
    ifTrue "unique" i.unique,
    ifSome "partial" .str i.condition,
    ifSome "definition" .str i.definition,
    ifSome "doc" .str i.doc]

def decodeIndex : Decoder Index :=
  Record.decode "Index" <|
    Index.mk <$>
      Record.optional "name" Decoder.string <*>
      Record.required "attrs" (Decoder.list decodePath) <*>
      Record.defaulted "unique" false Decoder.bool <*>
      Record.optional "partial" Decoder.string <*>
      Record.optional "definition" Decoder.string <*>
      Record.optional "doc" Decoder.string

def Check.encode (c : Check) : Json :=
  Json.record [
    ifSome "name" .str c.name,
    ifMany "attrs" AttributePath.encode c.attrs,
    always "predicate" (.str c.predicate),
    ifSome "doc" .str c.doc]

def decodeCheck : Decoder Check :=
  Record.decode "Check" <|
    Check.mk <$>
      Record.optional "name" Decoder.string <*>
      Record.defaulted "attrs" [] (Decoder.list decodePath) <*>
      Record.required "predicate" Decoder.string <*>
      Record.optional "doc" Decoder.string

def Entity.encode (e : Entity) : Json :=
  Json.record (e.space.members ++ [
    always "name" (.str e.name),
    if e.attrs.isEmpty then none else some ("attrs", .arr (encodeAttributes e.attrs)),
    ifSome "pk" PrimaryKey.encode e.primaryKey,
    ifMany "indexes" Index.encode e.indexes,
    ifMany "checks" Check.encode e.checks,
    ifSome "doc" .str e.doc,
    ifExtra "stats" e.stats,
    ifExtra "extra" e.extra])

def decodeEntity : Decoder Entity :=
  Record.decode "Entity" <|
    (fun name attrs primaryKey indexes checks doc stats extra space =>
      { space, name, attrs, primaryKey, indexes, checks, doc, stats, extra }) <$>
      Record.required "name" Decoder.string <*>
      Record.defaulted "attrs" [] (Decoder.list decodeAttribute) <*>
      Record.optional "pk" decodePrimaryKey <*>
      Record.defaulted "indexes" [] (Decoder.list decodeIndex) <*>
      Record.defaulted "checks" [] (Decoder.list decodeCheck) <*>
      Record.optional "doc" Decoder.string <*>
      Record.defaulted "stats" [] Decoder.extra <*>
      Record.defaulted "extra" [] Decoder.extra <*>
      Namespace.record.inlined

/-! ### Relations and types -/

def Cardinality.name : Cardinality → String
  | .one => "one"
  | .many => "many"

def decodeCardinality : Decoder Cardinality :=
  Decoder.variant [("one", .one), ("many", .many)]

def Link.encode (l : Link) : Json :=
  Json.record (l.entity.members ++ [
    always "attrs" (.arr (l.attrs.map AttributePath.encode)),
    ifSome "cardinality" (.str ·.name) l.cardinality])

def decodeLink : Decoder Link :=
  Record.decode "RelationLink" <|
    (fun attrs cardinality entity => { entity, attrs, cardinality }) <$>
      Record.required "attrs" (Decoder.list decodePath) <*>
      Record.optional "cardinality" decodeCardinality <*>
      EntityName.record.inlined

def Relation.encode (r : Relation) : Json :=
  Json.record [
    ifSome "name" .str r.name,
    always "src" r.source.encode,
    always "ref" r.target.encode,
    ifSome "on_delete" .str r.onDelete,
    ifSome "on_update" .str r.onUpdate,
    ifSome "doc" .str r.doc,
    ifExtra "extra" r.extra]

def decodeRelation : Decoder Relation :=
  Record.decode "Relation" <|
    Relation.mk <$>
      Record.optional "name" Decoder.string <*>
      Record.required "src" decodeLink <*>
      Record.required "ref" decodeLink <*>
      Record.optional "on_delete" Decoder.string <*>
      Record.optional "on_update" Decoder.string <*>
      Record.optional "doc" Decoder.string <*>
      Record.defaulted "extra" [] Decoder.extra

def NamedType.encode (t : NamedType) : Json :=
  Json.record (t.space.members ++ [
    always "name" (.str t.name),
    ifSome "values" strings t.values,
    ifSome "definition" .str t.definition,
    ifSome "doc" .str t.doc,
    ifExtra "extra" t.extra])

def decodeNamedType : Decoder NamedType :=
  Record.decode "Type" <|
    (fun name values definition doc extra space =>
      { space, name, values, definition, doc, extra }) <$>
      Record.required "name" Decoder.string <*>
      Record.optional "values" (Decoder.list Decoder.string) <*>
      Record.optional "definition" Decoder.string <*>
      Record.optional "doc" Decoder.string <*>
      Record.defaulted "extra" [] Decoder.extra <*>
      Namespace.record.inlined

/-! ### Databases -/

def DatabaseStats.encode (s : DatabaseStats) : Json :=
  Json.record [ifSome "name" .str s.name, ifSome "source" .str s.source]

def decodeDatabaseStats : Decoder DatabaseStats :=
  Record.decode "DatabaseStats" <|
    DatabaseStats.mk <$>
      Record.optional "name" Decoder.string <*>
      Record.optional "source" Decoder.string

def Database.encode (db : Database) : Json :=
  Json.record [
    ifMany "entities" Entity.encode db.entities,
    ifMany "relations" Relation.encode db.relations,
    ifMany "types" NamedType.encode db.types,
    ifExtra "extra" db.extra,
    ifSome "stats" DatabaseStats.encode db.stats]

def decodeDatabase : Decoder Database :=
  Record.decode "Database" <|
    Database.mk <$>
      Record.defaulted "entities" [] (Decoder.list decodeEntity) <*>
      Record.defaulted "relations" [] (Decoder.list decodeRelation) <*>
      Record.defaulted "types" [] (Decoder.list decodeNamedType) <*>
      Record.defaulted "extra" [] Decoder.extra <*>
      Record.optional "stats" decodeDatabaseStats

/-! ### Diagnostics -/

def Location.encode (l : Location) : Json :=
  Json.record [always "line" (nat l.line), always "column" (nat l.column)]

def decodeLocation : Decoder Location :=
  Record.decode "Location" <|
    Location.mk <$> Record.required "line" Decoder.count <*> Record.required "column" Decoder.count

def Span.encode (s : Span) : Json :=
  Json.record [always "start" (nat s.start), always "end" (nat s.stop)]

def decodeSpan : Decoder Span :=
  Record.decode "Span" <|
    Span.mk <$> Record.required "start" Decoder.count <*> Record.required "end" Decoder.count

def Position.encode (p : Position) : Json :=
  Json.record [
    always "offset" p.offset.encode,
    always "start" p.start.encode,
    always "end" p.stop.encode]

def decodePosition : Decoder Position :=
  Record.decode "Position" <|
    Position.mk <$>
      Record.required "offset" decodeSpan <*>
      Record.required "start" decodeLocation <*>
      Record.required "end" decodeLocation

def decodeLevel : Decoder Level :=
  Decoder.variant <| [Level.error, .warning, .info, .hint].map fun l => (l.name, l)

def decodeDiagnosticKind : Decoder DiagnosticKind :=
  Decoder.variant <|
    [DiagnosticKind.invalidSyntax, .unexpectedToken, .unterminatedLiteral, .unknownType,
      .unknownEntity, .unknownAttribute, .duplicateEntity, .unsupportedStatement,
      .unsupportedDialect, .invalidJson, .ignoredConstruct].map fun k => (k.name, k)

def Diagnostic.encode (d : Diagnostic) : Json :=
  Json.record [
    always "level" (.str d.level.name),
    always "kind" (.str d.kind.name),
    always "message" (.str d.message),
    always "position" d.position.encode]

def decodeDiagnostic : Decoder Diagnostic :=
  Record.decode "Diagnostic" <|
    Diagnostic.mk <$>
      Record.required "level" decodeLevel <*>
      Record.required "kind" decodeDiagnosticKind <*>
      Record.required "message" Decoder.string <*>
      Record.required "position" decodePosition

def Parsed.encode {α : Type} (encode : α → Json) (p : Parsed α) : Json :=
  Json.record [
    always "value" (orNull encode p.value),
    ifMany "diagnostics" Diagnostic.encode p.diagnostics]

def decodeParsed {α : Type} (d : Decoder α) : Decoder (Parsed α) :=
  Record.decode "ParseResult" <|
    Parsed.mk <$>
      Record.nullable "value" d <*>
      Record.defaulted "diagnostics" [] (Decoder.list decodeDiagnostic)

end SchemaDialects
