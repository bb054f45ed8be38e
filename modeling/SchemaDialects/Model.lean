import SchemaDialects.Json.Value
import SchemaDialects.Name

/-!
# The schema model

Entities with their attributes and keys, relations between entities, and named types. Every dialect
reads into this model and is written from it.
-/

namespace SchemaDialects

open Json (Extra)

/-- A column or field, with the fields nested in it. -/
structure Attribute where
  name : String
  type : String
  nullable : Bool := false
  generated : Bool := false
  defaultValue : Option String := none
  nested : List Attribute := []
  doc : Option String := none
  extra : Extra := []
  deriving Inhabited

structure PrimaryKey where
  name : Option String := none
  attrs : List AttributePath
  deriving DecidableEq, Repr

structure Index where
  name : Option String := none
  attrs : List AttributePath
  unique : Bool := false
  /-- The condition of a partial index. -/
  condition : Option String := none
  definition : Option String := none
  doc : Option String := none
  deriving DecidableEq, Repr

structure Check where
  name : Option String := none
  attrs : List AttributePath := []
  predicate : String
  doc : Option String := none
  deriving DecidableEq, Repr

structure Entity where
  space : Namespace := {}
  name : String
  attrs : List Attribute := []
  primaryKey : Option PrimaryKey := none
  indexes : List Index := []
  checks : List Check := []
  doc : Option String := none
  stats : Extra := []
  extra : Extra := []
  deriving Inhabited

inductive Cardinality
  | one
  | many
  deriving DecidableEq, Repr

/-- One end of a relation. -/
structure Link where
  entity : EntityName
  attrs : List AttributePath
  cardinality : Option Cardinality := none
  deriving DecidableEq, Repr

/-- A link from `source` to `target`, typically a foreign key. -/
structure Relation where
  name : Option String := none
  source : Link
  target : Link
  onDelete : Option String := none
  onUpdate : Option String := none
  doc : Option String := none
  extra : Extra := []

structure NamedType where
  space : Namespace := {}
  name : String
  values : Option (List String) := none
  definition : Option String := none
  doc : Option String := none
  extra : Extra := []

structure DatabaseStats where
  name : Option String := none
  /-- The dialect or tool from which the schema was read. -/
  source : Option String := none
  deriving DecidableEq, Repr

structure Database where
  entities : List Entity := []
  relations : List Relation := []
  types : List NamedType := []
  extra : Extra := []
  stats : Option DatabaseStats := none
  deriving Inhabited

/-! ### Equality

Free-form metadata is compared as JSON values are. -/

def sameExtra (a b : Extra) : Bool := Json.equalMembers a b

mutual

def Attribute.same : Attribute → Attribute → Bool
  | ⟨name, type, nullable, generated, defaultValue, nested, doc, extra⟩,
    ⟨name', type', nullable', generated', defaultValue', nested', doc', extra'⟩ =>
    name == name' && type == type' && nullable == nullable' && generated == generated' &&
      defaultValue == defaultValue' && sameAttributes nested nested' && doc == doc' &&
      sameExtra extra extra'

def sameAttributes : List Attribute → List Attribute → Bool
  | [], [] => true
  | a :: as, b :: bs => a.same b && sameAttributes as bs
  | _, _ => false

end

instance : BEq Attribute := ⟨Attribute.same⟩

def Entity.same (a b : Entity) : Bool :=
  a.space == b.space && a.name == b.name && sameAttributes a.attrs b.attrs &&
    a.primaryKey == b.primaryKey && a.indexes == b.indexes && a.checks == b.checks &&
    a.doc == b.doc && sameExtra a.stats b.stats && sameExtra a.extra b.extra

instance : BEq Entity := ⟨Entity.same⟩

def Relation.same (a b : Relation) : Bool :=
  a.name == b.name && a.source == b.source && a.target == b.target && a.onDelete == b.onDelete &&
    a.onUpdate == b.onUpdate && a.doc == b.doc && sameExtra a.extra b.extra

instance : BEq Relation := ⟨Relation.same⟩

def NamedType.same (a b : NamedType) : Bool :=
  a.space == b.space && a.name == b.name && a.values == b.values &&
    a.definition == b.definition && a.doc == b.doc && sameExtra a.extra b.extra

instance : BEq NamedType := ⟨NamedType.same⟩

/-! ### Identity -/

def Entity.id (e : Entity) : EntityName := { space := e.space, name := e.name }

def NamedType.id (t : NamedType) : TypeName := { space := t.space, name := t.name }

/-- What an index is known by inside its entity: its name, or its attributes when it has none. -/
def Index.key (i : Index) : String :=
  i.name.getD (",".intercalate (i.attrs.map AttributePath.render))

/-- What a relation is known by: both its ends. -/
structure RelationKey where
  source : EntityName
  sourceAttrs : List AttributePath
  target : EntityName
  targetAttrs : List AttributePath
  deriving DecidableEq, Repr

instance : Ord RelationKey where
  compare := compareLex (compareOn (·.source)) (compareLex (compareOn (·.sourceAttrs))
    (compareLex (compareOn (·.target)) (compareOn (·.targetAttrs))))

def Relation.key (r : Relation) : RelationKey where
  source := r.source.entity
  sourceAttrs := r.source.attrs
  target := r.target.entity
  targetAttrs := r.target.attrs

/-- Many of `source` refer to one of `target`. -/
def Relation.manyToOne (source : EntityName) (sourceAttrs : List AttributePath)
    (target : EntityName) (targetAttrs : List AttributePath) : Relation where
  source := { entity := source, attrs := sourceAttrs, cardinality := some .many }
  target := { entity := target, attrs := targetAttrs, cardinality := some .one }

/-! ### Lookup -/

/-- The attribute at the end of a path. -/
def findAttribute? (attrs : List Attribute) : AttributePath → Option Attribute
  | [] => none
  | [name] => attrs.find? (·.name == name)
  | name :: rest => do
    let attr ← attrs.find? (·.name == name)
    findAttribute? attr.nested rest

/-- Changes the first item that satisfies `p`. -/
def modifyFirst {α : Type} (p : α → Bool) (f : α → α) : List α → List α
  | [] => []
  | a :: rest => if p a then f a :: rest else a :: modifyFirst p f rest

/-- Changes the attribute at the end of a path, if there is one. -/
def modifyAttribute (f : Attribute → Attribute) (attrs : List Attribute) :
    AttributePath → List Attribute
  | [] => attrs
  | [name] => modifyFirst (·.name == name) f attrs
  | name :: rest =>
    modifyFirst (·.name == name)
      (fun attr => { attr with nested := modifyAttribute f attr.nested rest }) attrs

namespace Entity

def attribute? (e : Entity) (path : AttributePath) : Option Attribute :=
  findAttribute? e.attrs path

def hasAttribute (e : Entity) (path : AttributePath) : Bool :=
  (e.attribute? path).isSome

/-- Whether `path` alone is the primary key. -/
def isWholeKey (e : Entity) (path : AttributePath) : Bool :=
  match e.primaryKey with
  | some key => key.attrs == [path]
  | none => false

def inKey (e : Entity) (path : AttributePath) : Bool :=
  match e.primaryKey with
  | some key => key.attrs.contains path
  | none => false

end Entity

namespace Database

def entity? (db : Database) (id : EntityName) : Option Entity :=
  db.entities.find? (·.id == id)

/-- Gives the attribute at the end of a path another name. -/
def renameAttribute (id : EntityName) (path : AttributePath) (name : String) (db : Database) :
    Database :=
  let rename (e : Entity) : Entity :=
    { e with attrs := modifyAttribute (fun attr => { attr with name }) e.attrs path }
  { db with entities := modifyFirst (·.id == id) rename db.entities }

def isEmpty (db : Database) : Bool :=
  db.entities.isEmpty && db.relations.isEmpty && db.types.isEmpty

end Database

end SchemaDialects
