import SchemaDialects.Proofs.Markup.Sentences
import SchemaDialects.Proofs.Markup.Spellable

/-!
# Schemas whose texts stay in their places

The writer quotes names and values, but pastes other texts as they are. `Contained` says that no text
ends the line it is pasted into, and that the words with free text in them, types with their defaults and
the predicates of checks, end where the writer ends them. A note or a comment may hold anything else.
-/

namespace SchemaDialects.Markup

-- ---------------------------------------------------------------------------
-- Texts
-- ---------------------------------------------------------------------------

/-- Texts that the reader takes for one word of one line. -/
structure ContainedWord (text : String) : Prop where
  feedFree : FeedFree text
  oneWord : OneWord text

structure ContainedTrailer (doc : Option String) (extra : Json.Extra) : Prop where
  doc : ∀ text ∈ doc, FeedFree text
  comment : ∀ text ∈ commentOf extra, FeedFree text

-- ---------------------------------------------------------------------------
-- Types, attributes and entities
-- ---------------------------------------------------------------------------

structure ContainedNamedType (t : NamedType) : Prop where
  space : SpellableSpace t.space
  name : FeedFree t.name
  values : ∀ values ∈ t.values, ∀ value ∈ values, FeedFree value
  definition : ∀ text ∈ t.definition, FeedFree text
  trailer : ContainedTrailer t.doc t.extra

/-- The attributes nested in it do not count. -/
structure ContainedAttribute (attr : Attribute) : Prop where
  name : FeedFree attr.name
  word : ContainedWord (String.ofList (typeWord attr.type attr.defaultValue))
  /-- The word is no operator, which would take the next one with it. -/
  operator : cardinalities? (String.ofList (typeWord attr.type attr.defaultValue)) = none
  trailer : ContainedTrailer attr.doc attr.extra

structure ContainedEntity (e : Entity) : Prop where
  space : SpellableSpace e.space
  name : FeedFree e.name
  noDirective : e.space = {} → e.name.toLower ≠ "namespace"
  attrs : ∀ r ∈ rowsIn [] e.attrs, ContainedAttribute r.attr
  /-- Siblings have different names. -/
  distinct : (pathsOf e.attrs).Nodup
  key : ∀ key ∈ e.primaryKey, ∀ name ∈ key.name, FeedFree name
  index : ∀ i ∈ e.indexes, ∀ name ∈ indexName e i, FeedFree name
  check : ∀ c ∈ e.checks, ∀ name ∈ checkName e c, FeedFree name
  predicate : ∀ c ∈ e.checks, ContainedWord (predicateText c.predicate)
  trailer : ContainedTrailer e.doc e.extra

-- ---------------------------------------------------------------------------
-- Relations and schemas
-- ---------------------------------------------------------------------------

structure ContainedLink (l : Link) : Prop where
  space : SpellableSpace l.entity.space
  name : FeedFree l.entity.name
  paths : ∀ path ∈ l.attrs, ∀ name ∈ path, FeedFree name

structure ContainedRelation (r : Relation) : Prop where
  source : ContainedLink r.source
  target : ContainedLink r.target
  trailer : ContainedTrailer r.doc r.extra

structure Contained (db : Database) : Prop where
  entity : ∀ e ∈ db.entities, ContainedEntity e
  entities : (db.entities.map Entity.id).Nodup
  type : ∀ t ∈ db.types, ContainedNamedType t
  relation : ∀ r ∈ db.relations, ContainedRelation r

-- ---------------------------------------------------------------------------
-- Texts can be checked
-- ---------------------------------------------------------------------------

instance (text : String) : Decidable (FeedFree text) := inferInstanceAs (Decidable (_ ∉ _))

instance (n : Namespace) : Decidable (SpellableSpace n) := by
  unfold SpellableSpace
  infer_instance

instance (text : String) : Decidable (ContainedWord text) :=
  decidable_of_iff (FeedFree text ∧ OneWord text) ⟨fun ⟨a, b⟩ => ⟨a, b⟩, fun ⟨a, b⟩ => ⟨a, b⟩⟩

instance (doc : Option String) (extra : Json.Extra) : Decidable (ContainedTrailer doc extra) :=
  decidable_of_iff ((∀ text ∈ doc, FeedFree text) ∧ ∀ text ∈ commentOf extra, FeedFree text)
    ⟨fun ⟨a, b⟩ => ⟨a, b⟩, fun ⟨a, b⟩ => ⟨a, b⟩⟩

instance (t : NamedType) : Decidable (ContainedNamedType t) :=
  decidable_of_iff (SpellableSpace t.space ∧ FeedFree t.name ∧
      (∀ values ∈ t.values, ∀ value ∈ values, FeedFree value) ∧
      (∀ text ∈ t.definition, FeedFree text) ∧ ContainedTrailer t.doc t.extra)
    ⟨fun ⟨a, b, c, d, e⟩ => ⟨a, b, c, d, e⟩, fun ⟨a, b, c, d, e⟩ => ⟨a, b, c, d, e⟩⟩

instance (attr : Attribute) : Decidable (ContainedAttribute attr) :=
  decidable_of_iff (FeedFree attr.name ∧
      ContainedWord (String.ofList (typeWord attr.type attr.defaultValue)) ∧
      cardinalities? (String.ofList (typeWord attr.type attr.defaultValue)) = none ∧
      ContainedTrailer attr.doc attr.extra)
    ⟨fun ⟨a, b, c, d⟩ => ⟨a, b, c, d⟩, fun ⟨a, b, c, d⟩ => ⟨a, b, c, d⟩⟩

end SchemaDialects.Markup
