import Mathlib.Data.List.Perm.Subperm
import SchemaDialects.Proofs.Json.Records
import SchemaDialects.Proofs.Tables.Defaults

/-!
# What a table document can hold

A document has no place for databases and catalogs, for nested and generated attributes, for checks,
statistics and free-form members, for conditions of indexes. `Database.Holdable` leaves these out;
`entity_ofEntity`, `type_ofType`, `relation_ofRelation` and `group_ofGroup` read the parts of such a
schema back.
-/

namespace SchemaDialects.Tables

open Json

-- ---------------------------------------------------------------------------
-- The class
-- ---------------------------------------------------------------------------

/-- Nothing but a schema, which is named and is not the one that need not be. -/
structure HoldableSpace (space : Namespace) : Prop where
  database : space.database = none
  catalog : space.catalog = none
  schema : ∀ name ∈ space.schema, name ≠ "" ∧ name ≠ defaultSchema

/-- Paths of one name. -/
def FlatPaths (paths : List AttributePath) : Prop :=
  ∀ path ∈ paths, ∃ name, path = [name]

structure HoldableAttribute (a : Attribute) : Prop where
  nested : a.nested = []
  generated : a.generated = false
  defaultValue : ∀ text ∈ a.defaultValue, HoldableDefault text
  extra : a.extra = [] ∨ a.extra = [(autoIncrementKey, .bool true)]

/-- The index that a field of its own stands for. -/
def fieldIndex (name : String) : Index where
  attrs := [[name]]
  unique := true

structure HoldableEntity (e : Entity) : Prop where
  space : HoldableSpace e.space
  attrs : ∀ a ∈ e.attrs, HoldableAttribute a
  names : (e.attrs.map (·.name)).Nodup
  keyPaths : ∀ key ∈ e.primaryKey, FlatPaths key.attrs
  /-- A key that a field carries is one of the fields. -/
  fieldKey : ∀ path ∈ fieldKey? e, ∃ a ∈ e.attrs, path = [a.name]
  keyAttrs : ∀ key ∈ e.primaryKey, ∀ a ∈ e.attrs, [a.name] ∈ key.attrs → a.nullable = false
  indexPaths : ∀ i ∈ e.indexes, FlatPaths i.attrs
  conditions : ∀ i ∈ e.indexes, i.condition = none
  /-- The indexes that fields stand for come first, in the order of the fields. -/
  fieldIndexes : ∃ (columns : List String) (others : List Index),
    columns.Sublist (e.attrs.map (·.name)) ∧ e.indexes = columns.map fieldIndex ++ others ∧
      ∀ i ∈ others, isAnyFieldUnique i = false
  checks : e.checks = []
  stats : e.stats = []
  extra : e.extra = []

/-- An enumeration. -/
structure HoldableType (t : NamedType) : Prop where
  space : HoldableSpace t.space
  values : t.values.isSome = true
  definition : t.definition = none
  extra : t.extra = []

structure HoldableLink (l : Link) : Prop where
  space : HoldableSpace l.entity.space
  paths : FlatPaths l.attrs
  cardinality : l.cardinality.isSome = true

/-- A relation whose target is the end that a reader takes for it. -/
structure HoldableRelation (db : Database) (r : Relation) : Prop where
  source : HoldableLink r.source
  target : HoldableLink r.target
  direction : r.source.cardinality = some .one →
    r.target.cardinality = some .one ∧ (isKeyOf db r.source = true → isKeyOf db r.target = true)
  doc : r.doc = none
  extra : r.extra = []

/-- Free-form members that are groups of entities and nothing else. -/
def HoldableExtra (extra : Extra) : Prop :=
  extra = [] ∨ ∃ groups : List Group, groups ≠ [] ∧
    (∀ g ∈ groups, ∀ e ∈ g.entities, HoldableSpace e.space) ∧
    extra = [(Group.key, Group.metadata groups)]

structure Holdable (db : Database) : Prop where
  entities : ∀ e ∈ db.entities, HoldableEntity e
  entityNames : (db.entities.map Entity.id).Nodup
  types : ∀ t ∈ db.types, HoldableType t
  typeNames : (db.types.map NamedType.id).Nodup
  relations : ∀ r ∈ db.relations, HoldableRelation db r
  extra : HoldableExtra db.extra

-- ---------------------------------------------------------------------------
-- Namespaces and paths
-- ---------------------------------------------------------------------------

/-- The namespace of a schema is found again from the name under which it stands in a document. -/
theorem spaceOf_schemaOf (h : HoldableSpace space) : spaceOf (some (schemaOf space)) = space := by
  obtain ⟨database, catalog, schema⟩ := space
  obtain ⟨rfl, rfl, hschema⟩ := h
  cases schema with
  | none => simp [spaceOf, schemaOf, defaultSchema]
  | some name =>
    obtain ⟨hempty, hdefault⟩ := hschema name rfl
    simp [spaceOf, schemaOf, hempty, hdefault]

/-- The namespace of an end of a reference is found again. -/
theorem spaceOf_schemaNameOf (h : HoldableSpace space) : spaceOf (schemaNameOf space) = space := by
  obtain ⟨database, catalog, schema⟩ := space
  obtain ⟨rfl, rfl, hschema⟩ := h
  cases schema with
  | none => rfl
  | some name =>
    obtain ⟨hempty, hdefault⟩ := hschema name rfl
    simp [spaceOf, schemaNameOf, Option.filter, hempty, hdefault]

@[simp] theorem render_singleton (name : String) : AttributePath.render [name] = name := rfl

theorem map_render (h : FlatPaths paths) :
    paths.map (fun path => [AttributePath.render path]) = paths := by
  refine (List.map_congr_left fun path hpath => ?_).trans (List.map_id paths)
  obtain ⟨name, rfl⟩ := h path hpath
  rw [render_singleton]
  rfl

-- ---------------------------------------------------------------------------
-- Fields
-- ---------------------------------------------------------------------------

theorem defaultValue_ofText (h : HoldableAttribute a) :
    (a.defaultValue.map DefaultValue.ofText).map (·.text) = a.defaultValue := by
  cases hdefault : a.defaultValue with
  | none => rfl
  | some text => exact congrArg some (text_ofText (h.defaultValue text hdefault))

theorem extra_ofMark (h : HoldableAttribute a) :
    (if isAutoIncrement a then [(autoIncrementKey, Json.bool true)] else []) = a.extra := by
  rcases h.extra with hextra | hextra <;> simp [isAutoIncrement, hextra]

/-- A field gives its attribute back, which is nullable no more if the field is the key. -/
theorem attribute_ofAttribute (h : HoldableAttribute a) :
    (Field.ofAttribute e a).attribute =
      { a with nullable := a.nullable && !(fieldKey? e == some [a.name]) } := by
  show Attribute.mk a.name a.type (!!a.nullable && !(fieldKey? e == some [a.name])) false
    ((a.defaultValue.map DefaultValue.ofText).map (·.text)) [] a.doc
    (if isAutoIncrement a then [(autoIncrementKey, Json.bool true)] else []) = _
  rw [Bool.not_not, defaultValue_ofText h, extra_ofMark h, ← h.nested, ← h.generated]

-- ---------------------------------------------------------------------------
-- Indexes
-- ---------------------------------------------------------------------------

section
variable {i : TableIndex} {paths : List AttributePath} {texts : List String}

theorem texts_column (h : i.columns = columnsOf paths ++ texts.map (⟨.expression, ·⟩)) :
    i.texts .column = paths.map AttributePath.render := by
  have hnone : (texts.map (IndexColumn.mk .expression)).filter (·.kind = .column) = [] :=
    List.filter_eq_nil_iff.mpr (by simp)
  have hall : (columnsOf paths).filter (·.kind = .column) = columnsOf paths :=
    List.filter_eq_self.mpr (by simp [columnsOf])
  rw [TableIndex.texts, h, List.filter_append, hall, hnone, List.append_nil, columnsOf, List.map_map]
  rfl

theorem texts_expression (h : i.columns = columnsOf paths ++ texts.map (⟨.expression, ·⟩)) :
    i.texts .expression = texts := by
  have hnone : (columnsOf paths).filter (·.kind = .expression) = [] :=
    List.filter_eq_nil_iff.mpr (by simp [columnsOf])
  have hall : (texts.map (IndexColumn.mk .expression)).filter (·.kind = .expression) =
      texts.map (IndexColumn.mk .expression) := List.filter_eq_self.mpr (by simp)
  rw [TableIndex.texts, h, List.filter_append, hall, hnone, List.nil_append, List.map_map]
  exact List.map_id texts

/-- Columns give paths back, each as one name. -/
theorem attrs_of_columns (h : i.columns = columnsOf paths ++ texts.map (⟨.expression, ·⟩)) :
    i.attrs = paths.map fun path => [path.render] := by
  rw [TableIndex.attrs, texts_column h, List.map_map]
  rfl

end

theorem index_ofIndex {i : Index} (hpaths : FlatPaths i.attrs) (hcondition : i.condition = none) :
    (TableIndex.ofIndex i).index = i := by
  obtain ⟨name, attrs, unique, condition, definition, doc⟩ := i
  obtain rfl : condition = none := hcondition
  have hattrs : (TableIndex.ofIndex ⟨name, attrs, unique, none, definition, doc⟩).attrs = attrs :=
    (attrs_of_columns rfl).trans (map_render hpaths)
  have htexts : (TableIndex.ofIndex ⟨name, attrs, unique, none, definition, doc⟩).texts .expression =
      definition.toList := texts_expression rfl
  rw [TableIndex.index, hattrs, htexts]
  cases definition <;> rfl

-- ---------------------------------------------------------------------------
-- Tables
-- ---------------------------------------------------------------------------

/-- Of distinct names, those that stand in a sublist are this sublist. -/
theorem filter_of_sublist {names kept : List String} (hnames : names.Nodup) (h : kept.Sublist names) :
    names.filter (· ∈ kept) = kept := by
  have hall : kept.filter (· ∈ kept) = kept := List.filter_eq_self.mpr (by simp)
  have hsub : kept.Sublist (names.filter (· ∈ kept)) := by
    simpa only [hall] using h.filter (· ∈ kept)
  have hback : List.Subperm (names.filter (· ∈ kept)) kept :=
    List.subperm_of_subset (hnames.filter _) fun name hname => by simpa using (List.mem_filter.mp hname).2
  exact (hsub.eq_of_length_le hback.length_le).symm

/-- What an index says of one field it says of the field that is its only column. -/
theorem isFieldUnique_eq_false (h : isAnyFieldUnique i = false) : isFieldUnique name i = false := by
  refine Bool.eq_false_iff.mpr fun hfield => ?_
  have hattrs : i.attrs = [[name]] := by
    simp only [isFieldUnique, Bool.and_eq_true, beq_iff_eq] at hfield
    exact hfield.2
  rw [isAnyFieldUnique, hattrs] at h
  exact absurd hfield (by simpa using h)

theorem isFieldUnique_fieldIndex : isFieldUnique name (fieldIndex column) = decide (name = column) := by
  simp [isFieldUnique, fieldIndex, Bool.beq_eq_decide_eq, eq_comm]

theorem isAnyFieldUnique_fieldIndex (column : String) : isAnyFieldUnique (fieldIndex column) = true := by
  simp [isAnyFieldUnique, fieldIndex, isFieldUnique]

theorem isKey_of_mem_keyIndexes (h : i ∈ keyIndexes e) : i.isKey = true := by
  unfold keyIndexes at h
  split at h
  · exact absurd h List.not_mem_nil
  · obtain ⟨key, -, rfl⟩ := List.mem_map.mp h
    rfl

/-- The indexes that are read back: those that fields stand for and then those that none does. -/
theorem indexes_entity_ofEntity (space : Namespace) (e : Entity) : (Table.entity space (.ofEntity e)).indexes =
    (((Table.ofEntity e).fields.filter (·.unique)).map (·.name)).map fieldIndex ++
      (e.indexes.filter (!isAnyFieldUnique ·)).map fun i => (TableIndex.ofIndex i).index := by
  have hkey : (keyIndexes e).filter (!·.isKey) = [] :=
    List.filter_eq_nil_iff.mpr fun i hi => by simp [isKey_of_mem_keyIndexes hi]
  have hback : ∀ others : List Index,
      (others.map TableIndex.ofIndex).filter (!·.isKey) = others.map TableIndex.ofIndex := fun _ =>
    List.filter_eq_self.mpr (by simp [TableIndex.ofIndex])
  show (((Table.ofEntity e).fields.filter (·.unique)).map fun f => fieldIndex f.name) ++
    (((keyIndexes e ++ (e.indexes.filter (!isAnyFieldUnique ·)).map TableIndex.ofIndex).filter
      (!·.isKey)).map TableIndex.index) = _
  rw [List.filter_append, hkey, List.nil_append, hback, List.map_map, List.map_map]
  rfl

/-- Indexes that no field stands for come back as they are, if their paths are flat. -/
theorem map_index_ofIndex {indexes : List Index} (hpaths : ∀ i ∈ indexes, FlatPaths i.attrs)
    (hconditions : ∀ i ∈ indexes, i.condition = none) :
    (indexes.filter (!isAnyFieldUnique ·)).map (fun i => (TableIndex.ofIndex i).index) =
      indexes.filter (!isAnyFieldUnique ·) := by
  refine (List.map_congr_left fun i hi => ?_).trans (List.map_id _)
  have hi : i ∈ indexes := (List.mem_filter.mp hi).1
  exact index_ofIndex (hpaths i hi) (hconditions i hi)

/-- The indexes of a table are read back. -/
theorem indexes_ofEntity (h : HoldableEntity e) :
    (Table.entity space (.ofEntity e)).indexes = e.indexes := by
  obtain ⟨columns, others, hcolumns, hindexes, hothers⟩ := h.fieldIndexes
  have hunique : ∀ name, e.indexes.any (isFieldUnique name) = decide (name ∈ columns) := fun name => by
    have hnone : others.any (isFieldUnique name) = false :=
      List.any_eq_false.mpr fun i hi => by simp [isFieldUnique_eq_false (hothers i hi)]
    rw [hindexes, List.any_append, hnone, Bool.or_false, List.any_map, Bool.eq_iff_iff]
    simp [isFieldUnique_fieldIndex]
  have hfields : ((e.attrs.map (Field.ofAttribute e)).filter (·.unique)).map (·.name) = columns := by
    have hnames : (e.attrs.map (Field.ofAttribute e)).map (·.name) = e.attrs.map (·.name) := by
      simp [Field.ofAttribute]
    calc ((e.attrs.map (Field.ofAttribute e)).filter (·.unique)).map (·.name)
      _ = (e.attrs.map (·.name)).filter (· ∈ columns) := by
        simp only [List.filter_map, List.map_map]
        exact congrArg₂ _ rfl (List.filter_congr fun a _ => hunique a.name)
      _ = columns := filter_of_sublist h.names hcolumns
  have hothers' : e.indexes.filter (!isAnyFieldUnique ·) = others := by
    have hnone : (columns.map fieldIndex).filter (!isAnyFieldUnique ·) = [] :=
      List.filter_eq_nil_iff.mpr (by simp [isAnyFieldUnique_fieldIndex])
    have hall : others.filter (!isAnyFieldUnique ·) = others :=
      List.filter_eq_self.mpr fun i hi => by simp [hothers i hi]
    rw [hindexes, List.filter_append, hnone, hall, List.nil_append]
  have hnames : ((Table.ofEntity e).fields.filter (·.unique)).map (·.name) = columns := hfields
  rw [indexes_entity_ofEntity, map_index_ofIndex h.indexPaths h.conditions, hothers', hnames, hindexes]

theorem fieldKey?_eq_some :
    fieldKey? e = some path ↔ e.primaryKey = some { attrs := [path] } := by
  unfold fieldKey?
  constructor
  · intro h
    split at h
    · next hkey => rw [hkey, Option.some.inj h]
    · exact absurd h (by simp)
  · intro h
    rw [h]

/-- The field that carries the key is the only one that does. -/
theorem filter_inKey (hnames : (e.attrs.map (·.name)).Nodup) (ha : a ∈ e.attrs) (hkey : fieldKey? e = some [a.name]) :
    ((Table.ofEntity e).fields.filter (·.inKey)).map (·.name) = [a.name] := by
  have honly : [a.name].Sublist (e.attrs.map (·.name)) :=
    List.singleton_sublist.mpr (List.mem_map_of_mem ha)
  calc ((e.attrs.map (Field.ofAttribute e)).filter (·.inKey)).map (·.name)
    _ = (e.attrs.map (·.name)).filter (· ∈ [a.name]) := by
      simp only [List.filter_map, List.map_map]
      have hcarries : ∀ b ∈ e.attrs, (Field.ofAttribute e b).inKey = decide (b.name ∈ [a.name]) :=
        fun b _ => by simp [Field.ofAttribute, hkey, eq_comm, Bool.beq_eq_decide_eq]
      exact congrArg₂ _ rfl (List.filter_congr hcarries)
    _ = [a.name] := filter_of_sublist hnames honly

/-- A primary key with each of its paths as one name. -/
def renderedKey (key : PrimaryKey) : PrimaryKey :=
  { key with attrs := key.attrs.map fun path => [path.render] }

/-- The primary key of a table is read back, from a field or from an index. -/
theorem renderedKey_ofEntity (hnames : (e.attrs.map (·.name)).Nodup)
    (hfieldKey : ∀ path ∈ fieldKey? e, ∃ a ∈ e.attrs, path = [a.name]) :
    (Table.ofEntity e).primaryKey = e.primaryKey.map renderedKey := by
  have hplain : ((e.indexes.filter (!isAnyFieldUnique ·)).map
      TableIndex.ofIndex).reverse.find? (·.isKey) = none := by
    refine List.find?_eq_none.mpr fun i hi => ?_
    obtain ⟨j, -, rfl⟩ := List.mem_map.mp (List.mem_reverse.mp hi)
    exact Bool.false_ne_true
  have hfind : (Table.ofEntity e).indexes.reverse.find? (·.isKey) =
      (keyIndexes e).reverse.find? (·.isKey) := by
    show (keyIndexes e ++ _).reverse.find? _ = _
    rw [List.reverse_append, List.find?_append, hplain, Option.none_or]
  rw [Table.primaryKey, hfind]
  cases hfield : fieldKey? e with
  | some path =>
    obtain ⟨a, ha, rfl⟩ := hfieldKey path hfield
    have honly := filter_inKey hnames ha hfield
    have hpaths : ((Table.ofEntity e).fields.filter (·.inKey)).map (fun f => [f.name]) = [[a.name]] := by
      simpa using congrArg (List.map fun name => [name]) honly
    rw [fieldKey?_eq_some.mp hfield]
    simp [keyIndexes, hfield, hpaths, renderedKey]
  | none =>
    cases hkey : e.primaryKey with
    | none => simp [keyIndexes, hfield, hkey, Table.ofEntity, Field.ofAttribute]
    | some key =>
      have hcolumns : columnsOf key.attrs =
          columnsOf key.attrs ++ ([] : List String).map (⟨.expression, ·⟩) := by simp
      have hattrs : TableIndex.attrs { name := key.name, columns := columnsOf key.attrs, isKey := true } =
          key.attrs.map fun path => [path.render] := attrs_of_columns hcolumns
      simp [keyIndexes, hfield, hkey, hattrs, renderedKey]

/-- A primary key on flat paths is read back as it is. -/
theorem primaryKey_ofEntity (hnames : (e.attrs.map (·.name)).Nodup)
    (hkeyPaths : ∀ key ∈ e.primaryKey, FlatPaths key.attrs)
    (hfieldKey : ∀ path ∈ fieldKey? e, ∃ a ∈ e.attrs, path = [a.name]) :
    (Table.ofEntity e).primaryKey = e.primaryKey := by
  rw [renderedKey_ofEntity hnames hfieldKey]
  cases hkey : e.primaryKey with
  | none => rfl
  | some key => rw [Option.map_some, renderedKey, map_render (hkeyPaths key hkey)]

theorem with_nullable {a : Attribute} (h : a.nullable = b) : { a with nullable := b } = a := by
  subst h
  cases a
  rfl

/-- What the fields of a table are read as, the key making its attributes non-null, are the attributes. -/
theorem attrs_ofEntity (h : HoldableEntity e) : (Table.entity space (.ofEntity e)).attrs = e.attrs := by
  have hinKey : ∀ a ∈ e.attrs,
      (((e.primaryKey.map (·.attrs)).getD []).any fun path => path.headD "" == a.name) = true →
        a.nullable = false := by
    intro a ha hin
    cases hkey : e.primaryKey with
    | none => simp [hkey] at hin
    | some key =>
      rw [hkey] at hin
      obtain ⟨path, hpath, hhead⟩ := List.any_eq_true.mp hin
      obtain ⟨name, rfl⟩ := h.keyPaths key hkey path hpath
      obtain rfl : name = a.name := beq_iff_eq.mp hhead
      exact h.keyAttrs key hkey a ha hpath
  have hfield : ∀ a ∈ e.attrs, (a.nullable && !(fieldKey? e == some [a.name])) = a.nullable := by
    intro a ha
    cases hcarries : fieldKey? e == some [a.name] with
    | false => simp
    | true =>
      have hkey := fieldKey?_eq_some.mp (beq_iff_eq.mp hcarries)
      simp [h.keyAttrs _ hkey a ha (by simp)]
  show ((e.attrs.map (Field.ofAttribute e)).map Field.attribute).map (fun a =>
    if ((((Table.ofEntity e).primaryKey).map (·.attrs)).getD []).any (fun path => path.headD "" == a.name)
    then { a with nullable := false } else a) = e.attrs
  rw [primaryKey_ofEntity h.names h.keyPaths h.fieldKey, List.map_map, List.map_map]
  refine (List.map_congr_left fun a ha => ?_).trans (List.map_id e.attrs)
  simp only [Function.comp_apply, attribute_ofAttribute (h.attrs a ha), hfield a ha, id]
  split
  · next hin => exact with_nullable (hinKey a ha hin)
  · exact with_nullable rfl

/-- A table gives its entity back. -/
theorem entity_ofEntity (h : HoldableEntity e) : Table.entity e.space (.ofEntity e) = e := by
  have hentity : Entity.mk e.space e.name e.attrs e.primaryKey e.indexes e.checks e.doc e.stats
      e.extra = e := rfl
  rw [h.checks, h.stats, h.extra] at hentity
  have hattrs : (Table.entity e.space (.ofEntity e)).attrs = e.attrs := attrs_ofEntity h
  have hindexes : (Table.entity e.space (.ofEntity e)).indexes = e.indexes := indexes_ofEntity h
  show Entity.mk e.space e.name (Table.entity e.space (.ofEntity e)).attrs (Table.ofEntity e).primaryKey
    (Table.entity e.space (.ofEntity e)).indexes [] e.doc [] [] = e
  rw [hattrs, primaryKey_ofEntity h.names h.keyPaths h.fieldKey, hindexes, hentity]

-- ---------------------------------------------------------------------------
-- Enumerations
-- ---------------------------------------------------------------------------

/-- An enumeration is written, and gives its type back. -/
theorem type_ofType (h : HoldableType t) : ∃ enum, Enum.ofType t = .ok enum ∧ enum.type t.space = t := by
  obtain ⟨space, name, values, definition, doc, extra⟩ := t
  obtain ⟨-, hvalues, rfl, rfl⟩ := h
  obtain ⟨values, rfl⟩ := Option.isSome_iff_exists.mp hvalues
  have hnames : (values.map fun v => ({ name := v } : EnumValue)).map (·.name) = values := by
    rw [List.map_map]
    exact List.map_id values
  refine ⟨_, rfl, ?_⟩
  simp only [Enum.type, hnames]

-- ---------------------------------------------------------------------------
-- References
-- ---------------------------------------------------------------------------

theorem link_ofLink (h : HoldableLink l) : (Endpoint.ofLink l implied).link = l := by
  obtain ⟨⟨space, name⟩, attrs, cardinality⟩ := l
  obtain ⟨hspace, hpaths, hcardinality⟩ := h
  obtain ⟨cardinality, rfl⟩ := Option.isSome_iff_exists.mp hcardinality
  have hattrs : (attrs.map AttributePath.render).map (fun name => [name]) = attrs := by
    rw [List.map_map]
    exact map_render hpaths
  cases cardinality <;>
    simp [Endpoint.link, Endpoint.ofLink, spaceOf_schemaNameOf hspace, hattrs, -List.map_map]

/-- The source of a relation is not the end that is taken for the target. -/
theorem pointsAtFirst_eq_false (h : HoldableRelation db r) : pointsAtFirst db r.source r.target = false := by
  obtain ⟨source, hsource⟩ := Option.isSome_iff_exists.mp h.source.cardinality
  obtain ⟨target, htarget⟩ := Option.isSome_iff_exists.mp h.target.cardinality
  cases source with
  | many => simp [pointsAtFirst, hsource]
  | one =>
    obtain ⟨hone, hkeys⟩ := h.direction hsource
    cases hkey : isKeyOf db r.source with
    | false => simp [pointsAtFirst, hsource, hone, hkey]
    | true => simp [pointsAtFirst, hsource, hone, hkeys hkey]

/-- A reference is turned the way its relation went. -/
theorem relation_ofRelation (h : HoldableRelation db r) : (Reference.ofRelation r).relation db = r := by
  have hrelation : Relation.mk r.name r.source r.target r.onDelete r.onUpdate r.doc r.extra = r := rfl
  rw [h.doc, h.extra] at hrelation
  simp only [Reference.relation, Reference.ofRelation, link_ofLink h.source, link_ofLink h.target,
    pointsAtFirst_eq_false h]
  exact hrelation

/-- Groups of entities are read back. -/
theorem group_ofGroup (h : ∀ e ∈ g.entities, HoldableSpace e.space) : (TableGroup.ofGroup g).group = g := by
  obtain ⟨name, entities⟩ := g
  have hentities : (entities.map fun e => GroupTable.mk (schemaNameOf e.space) e.name).map
      (fun t => EntityName.mk (spaceOf t.schema) t.name) = entities := by
    rw [List.map_map]
    refine (List.map_congr_left fun e he => ?_).trans (List.map_id entities)
    simp [spaceOf_schemaNameOf (h e he)]
  simp only [TableGroup.group, TableGroup.ofGroup, hentities]

-- ---------------------------------------------------------------------------
-- Groups among the metadata
-- ---------------------------------------------------------------------------

/-- A list is decoded if each of its items is. -/
theorem decode_items {encode : α → Json} {d : Decoder α}
    (h : ∀ x ∈ xs, d (Node.ofValue (sorted (encode x))) = .ok x) :
    Decoder.list d (Node.ofValue (.arr (sortedItems (xs.map encode)))) = .ok xs := by
  have hitems : (Node.ofItems (sortedItems (xs.map encode))).mapM d = .ok xs := by
    induction xs with
    | nil => rfl
    | cons x xs ih =>
      obtain ⟨hx, hxs⟩ := List.forall_mem_cons.mp h
      simp only [List.map_cons, sortedItems, Node.ofItems, List.mapM_cons, hx, ih hxs]
      rfl
  simp only [Decoder.list, Node.ofValue, hitems]
  rfl

/-- The name of an entity is decoded from its members in order. -/
theorem decode_entityName (h : HoldableSpace e.space) :
    decodeEntityName (Node.ofValue (sorted e.encode)) = .ok e := by
  obtain ⟨⟨database, catalog, schema⟩, name⟩ := e
  obtain ⟨rfl, rfl, -⟩ := h
  cases schema with
  | none => rfl
  | some schema =>
    have hsorted : sorted (EntityName.encode ⟨⟨none, none, some schema⟩, name⟩) =
        .obj [("entity", .str name), ("schema", .str schema)] :=
      congrArg Json.obj (if_pos (by decide : ("entity" : String) < "schema"))
    rw [hsorted]
    rfl

theorem decode_group (h : ∀ e ∈ g.entities, HoldableSpace e.space) :
    Group.decode (Node.ofValue (sorted g.encode)) = .ok g := by
  obtain ⟨name, entities⟩ := g
  have hsorted : sorted (Group.encode ⟨name, entities⟩) =
      .obj [("entities", .arr (sortedItems (entities.map EntityName.encode))), ("name", .str name)] :=
    congrArg Json.obj (if_pos (by decide : ("entities" : String) < "name"))
  have hentities : Decoder.list decodeEntityName
      (Node.ofValue (.arr (sortedItems (entities.map EntityName.encode)))) = .ok entities :=
    decode_items fun e he => decode_entityName (h e he)
  let r : Record Group := Group.mk <$> Record.required "name" Decoder.string <*>
    Record.required "entities" (Decoder.list decodeEntityName)
  have hmembers : r.ofMembers r.start (Node.ofMembers
      [("entities", .arr (sortedItems (entities.map EntityName.encode))), ("name", .str name)]) =
      .ok (some name, some entities) := by
    have hfirst : (none, ·) <$> (some <$> Decoder.list decodeEntityName
        (Node.ofValue (.arr (sortedItems (entities.map EntityName.encode))))) =
        (.ok (none, some entities) : Except Fault (Option String × Option (List EntityName))) := by
      rw [hentities]
      rfl
    exact (Record.ofMembers_value rfl rfl hfirst).trans rfl
  rw [hsorted]
  show (do let s ← r.ofMembers r.start (Node.ofMembers _); (r.finish s).mapError (⟨·, none⟩)) = _
  rw [hmembers]
  rfl

/-- The groups of a schema are found among its metadata. -/
theorem groups_of_metadata {db : Database} {groups : List Group}
    (hextra : db.extra = [(Group.key, Group.metadata groups)])
    (h : ∀ g ∈ groups, ∀ e ∈ g.entities, HoldableSpace e.space) : db.groups = .ok (some groups) := by
  have hdecode : Decoder.list Group.decode (Node.ofValue (Group.metadata groups)) = .ok groups :=
    decode_items fun g hg => decode_group (h g hg)
  have hlookup : db.extra.lookup Group.key = some (Group.metadata groups) := by simp [hextra]
  rw [Database.groups, hlookup]
  show some <$> Decoder.list Group.decode (Node.ofValue (Group.metadata groups)) = _
  rw [hdecode]
  rfl

end SchemaDialects.Tables
