import SchemaDialects.Proofs.Sql.Commands
import SchemaDialects.Proofs.Sql.Spellable

/-!
# Schemas in normal form

A schema in normal form is what the reader makes of the writer's text for it. Unlike in spellable schemas,
columns may have default values or be computed, types may be composite, and the type of a column is any text
that is read as one type again.
-/

namespace SchemaDialects.Sql

-- ---------------------------------------------------------------------------
-- Composite types
-- ---------------------------------------------------------------------------

/-- Puts a token in front of the first of some lists. -/
def consHead (t : Token) : List (List Token) → List (List Token)
  | [] => [[t]]
  | ts :: rest => (t :: ts) :: rest

/-- The tokens between the commas that are not in parentheses. -/
def splitCommas (depth : Nat) : List Token → List (List Token)
  | [] => [[]]
  | t :: ts =>
    match t.lexeme with
    | .comma => if depth = 0 then [] :: splitCommas 0 ts else consHead t (splitCommas depth ts)
    | .openParen => consHead t (splitCommas (depth + 1) ts)
    | .closeParen => consHead t (splitCommas (depth - 1) ts)
    | _ => consHead t (splitCommas depth ts)

/-- A name and the type behind it. -/
def fieldOf : List Token → Field
  | [] => ⟨"", ""⟩
  | t :: ts => ⟨t.text, renderTokens false ts⟩

/-- The fields that the definition of a composite type lists. -/
def fieldsOf (definition : String) : List Field :=
  if (tokensOf definition).isEmpty then [] else (splitCommas 0 (tokensOf definition)).map fieldOf

/-- The definition of a composite type that is read as the same fields again. -/
structure CompositeText (definition : String) : Prop where
  text : definition = ", ".intercalate ((fieldsOf definition).map Field.text)
  fits : ∀ f ∈ fieldsOf definition, f.Fits
  normalized : ∀ f ∈ fieldsOf definition, normalizeType (renderTokens false (tokensOf f.type)) .postgres = f.type

def bodyOf (t : NamedType) : TypeBody :=
  match t.values, t.definition with
  | some values, _ => .enumeration values
  | none, some definition => .composite (fieldsOf definition)
  | none, none => .shell

structure NormalNamedType (t : NamedType) : Prop where
  space : SpellableSpace t.space
  values : ∀ values ∈ t.values, (∀ value ∈ values, Literal value) ∧ t.definition = none
  definition : ∀ definition ∈ t.definition, CompositeText definition
  doc : t.doc = none
  extra : t.extra = []

-- ---------------------------------------------------------------------------
-- Tables
-- ---------------------------------------------------------------------------

/-- The text of a column's value as it is written at the column. -/
def ValueText (generated : Bool) (text : String) : Prop :=
  if generated then ExpressionText (fun _ => false) text else DefaultText text

structure NormalAttribute (a : Attribute) : Prop where
  type : ReadableType a.type
  normalized : normalizeType (renderTokens false (tokensOf a.type)) .postgres = a.type
  spelled : spellType a.type .postgres = a.type
  value : ∀ text ∈ a.defaultValue, ValueText a.generated text
  generated : a.generated = true → a.defaultValue.isSome = true
  nested : a.nested = []
  doc : ∀ doc ∈ a.doc, Literal doc
  extra : a.extra = [] ∨ a.extra = [(autoIncrementKey, .bool true)]

structure NormalEntity (e : Entity) : Prop where
  space : SpellableSpace e.space
  attrs : ∀ a ∈ e.attrs, NormalAttribute a
  distinct : (e.attrs.map (·.name)).Nodup
  key : ∀ key ∈ e.primaryKey, SpellableKey e key
  index : ∀ i ∈ e.indexes, SpellableIndex i
  indexes : writtenIndexes e = e.indexes
  check : ∀ c ∈ e.checks, SpellableCheck e c
  doc : ∀ doc ∈ e.doc, Literal doc
  stats : e.stats = []
  extra : e.extra = []

structure Normal (db : Database) : Prop where
  entity : ∀ e ∈ db.entities, NormalEntity e
  entities : (db.entities.map Entity.id).Nodup
  type : ∀ t ∈ db.types, NormalNamedType t
  relation : ∀ r ∈ db.relations, SpellableRelation db r
  extra : db.extra = []
  stats : db.stats = none

-- ---------------------------------------------------------------------------
-- Spellable schemas
-- ---------------------------------------------------------------------------

theorem SpellableNamedType.normal (h : SpellableNamedType t) : NormalNamedType t where
  space := h.space
  values values hvalues := ⟨h.values values hvalues, h.definition⟩
  definition := by
    rw [h.definition]
    nofun
  doc := h.doc
  extra := h.extra

theorem SpellableAttribute.normal (h : SpellableAttribute a) : NormalAttribute a where
  type := h.type.readable
  normalized := h.type.normalizeType_render.trans h.normalized
  spelled := h.spelled
  value := by
    rw [h.defaultValue]
    nofun
  generated hgenerated := Bool.noConfusion (hgenerated.symm.trans h.generated)
  nested := h.nested
  doc := h.doc
  extra := h.extra

theorem SpellableEntity.normal (h : SpellableEntity e) : NormalEntity e :=
  { h with attrs := fun a ha => (h.attrs a ha).normal }

theorem Spellable.normal (h : Spellable db) : Normal db :=
  { h with
    entity := fun e he => (h.entity e he).normal
    type := fun t ht => (h.type t ht).normal }

end SchemaDialects.Sql
