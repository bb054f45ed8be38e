import SchemaDialects.Proofs.Markup.Groups
import SchemaDialects.Proofs.Markup.WordLaws

/-!
# Schemas that markup can spell

Not every schema has a spelling: a line ends at a line feed, a note at a hash, a definition at a backtick,
and what the language has no words for is not written. `Spellable` collects what the reader needs to
find in the text everything that was there, and in the same order.
-/

namespace SchemaDialects.Markup

open Text

-- ---------------------------------------------------------------------------
-- Texts
-- ---------------------------------------------------------------------------

def FeedFree (text : String) : Prop := '\n' ∉ text.toList

/-- Texts that can stand between backticks. -/
structure Tickable (text : String) : Prop where
  feedFree : FeedFree text
  tickFree : '`' ∉ text.toList

structure SpellableNote (text : String) : Prop where
  feedFree : FeedFree text
  trimmed : trim text = text
  hashes : HashesInside text.toList

/-- There is no metadata but a comment. -/
structure SpellableExtra (extra : Json.Extra) : Prop where
  comment : extra = [] ∨ ∃ text, extra = [("comment", .str text)] ∧ FeedFree text ∧ trim text = text

def SpellableSpace (n : Namespace) : Prop :=
  ∀ segment ∈ [n.database, n.catalog, n.schema], ∀ name ∈ segment, FeedFree name

-- ---------------------------------------------------------------------------
-- Types, attributes and entities
-- ---------------------------------------------------------------------------

structure SpellableNamedType (t : NamedType) : Prop where
  space : SpellableSpace t.space
  name : FeedFree t.name
  values : ∀ values ∈ t.values, ∀ value ∈ values, FeedFree value
  definition : ∀ text ∈ t.definition, Tickable text
  exclusive : t.values = none ∨ t.definition = none
  doc : ∀ text ∈ t.doc, SpellableNote text
  extra : SpellableExtra t.extra

/-- The attributes nested in it do not count. -/
structure SpellableAttribute (attr : Attribute) : Prop where
  name : FeedFree attr.name
  typeFeedFree : FeedFree attr.type
  type : SpellableType attr.type
  defaultValue : ∀ value ∈ attr.defaultValue, Tickable value
  doc : ∀ text ∈ attr.doc, SpellableNote text
  extra : SpellableExtra attr.extra

structure SpellableKey (paths : List AttributePath) (key : PrimaryKey) : Prop where
  name : ∀ name ∈ key.name, FeedFree name
  attrs : key.attrs ≠ [] ∧ key.attrs.Sublist paths

structure SpellableIndex (i : Index) : Prop where
  name : ∀ name ∈ i.name, FeedFree name
  condition : i.condition = none
  definition : i.definition = none
  doc : i.doc = none

structure SpellableCheck (c : Check) : Prop where
  name : ∀ name ∈ c.name, FeedFree name ∧ '(' ∉ name.toList
  predicate : Tickable c.predicate
  doc : c.doc = none

structure SpellableEntity (e : Entity) : Prop where
  space : SpellableSpace e.space
  name : FeedFree e.name
  noDirective : e.space = {} → e.name.toLower ≠ "namespace"
  attrs : ∀ r ∈ rowsIn [] e.attrs, SpellableAttribute r.attr
  /-- Siblings have different names. -/
  distinct : (pathsOf e.attrs).Nodup
  key : ∀ key ∈ e.primaryKey, SpellableKey (pathsOf e.attrs) key
  index : ∀ i ∈ e.indexes, SpellableIndex i
  indexes : indexGrouping.Spelled (pathsOf e.attrs) e.indexes
  check : ∀ c ∈ e.checks, SpellableCheck c
  checks : checkGrouping.Spelled (pathsOf e.attrs) e.checks
  doc : ∀ text ∈ e.doc, SpellableNote text
  extra : SpellableExtra e.extra
  stats : e.stats = []

-- ---------------------------------------------------------------------------
-- Relations and schemas
-- ---------------------------------------------------------------------------

/-- One end of a relation. Only one that is written out needs names without parentheses. -/
structure SpellableLink (l : Link) (written : Bool) : Prop where
  space : SpellableSpace l.entity.space
  name : FeedFree l.entity.name
  attrs : l.attrs ≠ []
  paths : ∀ path ∈ l.attrs, path ≠ [] ∧ ∀ name ∈ path, FeedFree name
  openFree : written → ∀ path ∈ l.attrs, ∀ name ∈ path, '(' ∉ name.toList

structure SpellableRelation (db : Database) (r : Relation) : Prop where
  source : SpellableLink r.source (!isAtAttribute db r)
  target : SpellableLink r.target true
  cardinalities : ∃ c, c ≠ (.one, .many) ∧ r.source.cardinality = some c.1 ∧
    r.target.cardinality = some c.2
  name : r.name = none
  onDelete : r.onDelete = none
  onUpdate : r.onUpdate = none
  doc : ∀ text ∈ r.doc, SpellableNote text
  extra : SpellableExtra r.extra

/-- The attributes of all entities, in the order of their lines. -/
def places (db : Database) : List (EntityName × AttributePath) :=
  db.entities.flatMap fun e => (pathsOf e.attrs).map (e.id, ·)

/-- The line of a relation: that of its attribute, or one behind all entities. -/
def rank (db : Database) (r : Relation) : Nat :=
  if isAtAttribute db r then
    (places db).findIdx fun p => r.source.entity == p.1 && r.source.attrs == [p.2]
  else (places db).length

structure Spellable (db : Database) : Prop where
  entity : ∀ e ∈ db.entities, SpellableEntity e
  entities : (db.entities.map Entity.id).Nodup
  type : ∀ t ∈ db.types, SpellableNamedType t
  types : (db.types.map NamedType.id).Nodup
  relation : ∀ r ∈ db.relations, SpellableRelation db r
  relations : db.relations.Pairwise fun a b => rank db a ≤ rank db b
  extra : db.extra = []
  stats : db.stats = none

end SchemaDialects.Markup
