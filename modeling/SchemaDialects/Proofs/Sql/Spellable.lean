import SchemaDialects.Proofs.Sql.Types
import SchemaDialects.Sql.Import
import SchemaDialects.Sql.Writer

/-!
# Schemas that PostgreSQL statements can spell

What the statements have no words for must not be there: nested attributes, metadata, values that are
computed or given by default. What the reader changes must already be as it would leave it: types are
normalized, the texts of conditions are evenly spaced, and the indexes stand in the order in which they
are written. `Spellable` collects these conditions.
-/

namespace SchemaDialects.Sql

/-- The reader takes a backslash in a string literal for an escape. -/
def Literal (text : String) : Prop := '\\' ∉ text.toList

instance : DecidablePred Literal := fun text => inferInstanceAs (Decidable ('\\' ∉ text.toList))

/-- A qualified name fills a namespace from the schema outwards. -/
structure SpellableSpace (n : Namespace) : Prop where
  catalog : n.database.isSome → n.catalog.isSome
  schema : n.catalog.isSome → n.schema.isSome

structure SpellableNamedType (t : NamedType) : Prop where
  space : SpellableSpace t.space
  values : ∀ values ∈ t.values, ∀ value ∈ values, Literal value
  definition : t.definition = none
  doc : t.doc = none
  extra : t.extra = []

-- ---------------------------------------------------------------------------
-- Attributes and keys
-- ---------------------------------------------------------------------------

structure SpellableAttribute (a : Attribute) : Prop where
  type : TypeText a.type
  normalized : normalizeType a.type .postgres = a.type
  spelled : spellType a.type .postgres = a.type
  generated : a.generated = false
  defaultValue : a.defaultValue = none
  nested : a.nested = []
  doc : ∀ doc ∈ a.doc, Literal doc
  extra : a.extra = [] ∨ a.extra = [(autoIncrementKey, .bool true)]

/-- One or more columns. -/
structure IsColumns (paths : List AttributePath) : Prop where
  nonempty : paths ≠ []
  single : ∀ path ∈ paths, ∃ name, path = [name]

structure SpellableKey (e : Entity) (key : PrimaryKey) : Prop where
  columns : IsColumns key.attrs
  required : ∀ a ∈ e.attrs, [a.name] ∈ key.attrs → a.nullable = false

-- ---------------------------------------------------------------------------
-- Indexes and checks
-- ---------------------------------------------------------------------------

/-- The columns of expressions that belong to no other table. -/
def ownColumns (columns : List ColumnRef) : List AttributePath :=
  (columns.filter (·.scope.isNone)).map fun column => [column.name]

/-- The column that a text is, if it is nothing more. -/
def simpleColumn? (text : String) : Option String :=
  Expression.column? ⟨text, columnsOf text, .unknown⟩

/-- Names that are read as a column of an index, and as nothing more, even in quotes. -/
structure SpellableIndexColumn (name : String) : Prop where
  nulls : name ≠ "nulls"
  quotes : '"' ∉ name.toList
  first : name.toList.head? ≠ some '`'
  last : name.toList.getLast? ≠ some '`'

/-- The expressions of an index; one of them at least is no column. -/
structure SpellableDefinition (texts : List String) (attrs : List AttributePath) : Prop where
  expression : ∀ text ∈ texts, ExpressionText endsIndexColumn text
  complex : ∃ text ∈ texts, simpleColumn? text = none
  attrs : attrs = ownColumns (texts.flatMap columnsOf)

/-- Indexes with a statement of their own. -/
def hasStatement (i : Index) : Bool := !(isOwnColumnUnique i || isTableUnique i)

theorem isOwnColumnUnique_of_column (h : isColumnUnique path i = true) : isOwnColumnUnique i = true := by
  have hattrs : i.attrs = [path] := by
    simp only [isColumnUnique, Bool.and_eq_true, beq_iff_eq] at h
    exact h.2
  rw [isOwnColumnUnique, hattrs]
  exact h

theorem isOwnColumnUnique_of_table (h : isTableUnique i = true) : isOwnColumnUnique i = false := by
  refine Bool.eq_false_iff.mpr fun hown => ?_
  rw [isOwnColumnUnique] at hown
  split at hown
  · rename_i path hattrs
    simp_all [isTableUnique, isColumnUnique]
  · contradiction

theorem hasStatement_iff : hasStatement i = true ↔ isOwnColumnUnique i = false ∧ isTableUnique i = false := by
  simp [hasStatement]

structure SpellableStatement (i : Index) : Prop where
  name : i.name ≠ some "concurrently"
  condition : ∀ text ∈ i.condition, ExpressionText (fun _ => false) text
  columns : i.definition = none →
    IsColumns i.attrs ∧ ∀ name, [name] ∈ i.attrs → SpellableIndexColumn name
  definition : ∀ definition ∈ i.definition,
    ∃ texts, definition = ", ".intercalate texts ∧ SpellableDefinition texts i.attrs

structure SpellableIndex (i : Index) : Prop where
  constraint : isTableUnique i = true → IsColumns i.attrs
  statement : hasStatement i = true → SpellableStatement i
  doc : i.doc = none

/-- The unique index of a column. -/
def columnIndex (a : Attribute) : Index := { attrs := [[a.name]], unique := true }

/-- The indexes in the order in which they are written: those of columns, those among the constraints
and those with statements of their own. -/
def writtenIndexes (e : Entity) : List Index :=
  (e.attrs.filter fun a => e.indexes.any (isColumnUnique [a.name])).map columnIndex ++
    e.indexes.filter isTableUnique ++ e.indexes.filter hasStatement

structure SpellableCheck (e : Entity) (c : Check) : Prop where
  predicate : ExpressionText (fun _ => false) c.predicate
  attrs : c.attrs = (ownColumns (columnsOf c.predicate)).filter e.hasAttribute
  doc : c.doc = none

-- ---------------------------------------------------------------------------
-- Entities, relations and schemas
-- ---------------------------------------------------------------------------

structure SpellableEntity (e : Entity) : Prop where
  space : SpellableSpace e.space
  attrs : ∀ a ∈ e.attrs, SpellableAttribute a
  distinct : (e.attrs.map (·.name)).Nodup
  key : ∀ key ∈ e.primaryKey, SpellableKey e key
  index : ∀ i ∈ e.indexes, SpellableIndex i
  indexes : writtenIndexes e = e.indexes
  check : ∀ c ∈ e.checks, SpellableCheck e c
  doc : ∀ doc ∈ e.doc, Literal doc
  stats : e.stats = []
  extra : e.extra = []

/-- Foreign keys. The table that one refers to need not be there. -/
structure SpellableRelation (db : Database) (r : Relation) : Prop where
  source : r.source.entity ∈ db.entities.map Entity.id
  target : SpellableSpace r.target.entity.space
  sourceColumns : IsColumns r.source.attrs
  targetColumns : IsColumns r.target.attrs
  cardinalities : r.source.cardinality = some .many ∧ r.target.cardinality = some .one
  onDelete : ∀ text ∈ r.onDelete, ∃ action : ReferentialAction, action.text = text
  onUpdate : ∀ text ∈ r.onUpdate, ∃ action : ReferentialAction, action.text = text
  doc : r.doc = none
  extra : r.extra = []

structure Spellable (db : Database) : Prop where
  entity : ∀ e ∈ db.entities, SpellableEntity e
  entities : (db.entities.map Entity.id).Nodup
  type : ∀ t ∈ db.types, SpellableNamedType t
  relation : ∀ r ∈ db.relations, SpellableRelation db r
  extra : db.extra = []
  stats : db.stats = none

end SchemaDialects.Sql
