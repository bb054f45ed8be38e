import SchemaDialects.Proofs.Tables.Regrouping

/-!
# Table documents settle

A document that is read and written comes back regrouped, with its keys and unique fields put where the
writer puts them, its default values told apart by their texts and its references turned.
`ofDatabase_database_stable`: the second time nothing moves.
-/

namespace SchemaDialects.Tables

open Json

-- ---------------------------------------------------------------------------
-- Documents that settle
-- ---------------------------------------------------------------------------

/-- A default value whose text is no number, or an integer as it is printed. -/
def RegularDefault (text : String) : Prop :=
  ∀ value, number? text.toList = some value → ∃ n : Int, value = .int n ∧ text = toString n

/-- Fields have names of their own, and the columns of a key are among them. -/
structure RegularTable (t : Table) : Prop where
  names : (t.fields.map (·.name)).Nodup
  keyColumns : ∀ i ∈ t.indexes, i.isKey = true → ∀ name ∈ i.texts .column, name ∈ t.fields.map (·.name)
  defaults : ∀ f ∈ t.fields, ∀ d ∈ f.defaultValue, RegularDefault d.text

def RegularDocument (d : Document) : Prop :=
  ∀ s ∈ d.schemas, ∀ t ∈ s.tables, RegularTable t

-- ---------------------------------------------------------------------------
-- Default values
-- ---------------------------------------------------------------------------

theorem ofText_quoted (cs : List Char) :
    DefaultValue.ofText (String.ofList ('\'' :: doubleApostrophes cs ++ ['\''])) =
      ⟨.string, .str (String.ofList cs)⟩ := by
  have hinner : (Text.dropHead? ['\''] ('\'' :: doubleApostrophes cs ++ ['\''])).bind
      (Text.dropTail? ['\'']) = some (doubleApostrophes cs) := inner_eq_some.mpr rfl
  simp only [DefaultValue.ofText, String.toList_ofList, hinner, undouble_double]

theorem text_string (cs : List Char) : DefaultValue.text ⟨.string, .str (String.ofList cs)⟩ =
    String.ofList ('\'' :: doubleApostrophes cs ++ ['\'']) := by
  apply String.toList_injective
  simp [DefaultValue.text, doubleApostrophes]

theorem text_integer (n : Int) : DefaultValue.text ⟨.number, .int n⟩ = toString n := by
  simp [DefaultValue.text, compact, compactChars, atom]

/-- The text of a default value is told apart like the text that it was told apart from. -/
theorem ofText_text_ofText (h : RegularDefault text) :
    DefaultValue.ofText (DefaultValue.ofText text).text = DefaultValue.ofText text := by
  cases hinner : (Text.dropHead? ['\''] text.toList).bind (Text.dropTail? ['\'']) with
  | some inner =>
    have hstring : DefaultValue.ofText text = ⟨.string, .str (String.ofList (undoubleApostrophes inner))⟩ := by
      simp only [DefaultValue.ofText, hinner]
    rw [hstring, text_string, ofText_quoted]
  | none =>
    -- Without apostrophes around it the text itself is kept.
    have htext : (DefaultValue.ofText text).text = text := by
      cases hnumber : number? text.toList with
      | some value =>
        obtain ⟨n, rfl, htext⟩ := h value hnumber
        have hinteger : DefaultValue.ofText text = ⟨.number, .int n⟩ := by
          simp only [DefaultValue.ofText, hinner, hnumber]
        rw [hinteger, text_integer, htext]
      | none =>
        simp only [DefaultValue.ofText, hinner, hnumber]
        split
        · next htrue => rw [htrue]; decide
        · split
          · next hfalse => rw [hfalse]; decide
          · rfl
    rw [htext]

-- ---------------------------------------------------------------------------
-- Tables
-- ---------------------------------------------------------------------------

/-- Whether the primary key has a column of the name. -/
def keyNames (key : Option PrimaryKey) (name : String) : Bool :=
  (key.map (·.attrs)).getD [] |>.any fun path => path.headD "" == name

theorem flatPaths_names (names : List String) : FlatPaths (names.map fun name => [name]) := by
  simp [FlatPaths]

/-- The attribute of a field of a table with the key, which makes it non-null. -/
def Field.attributeIn (key : Option PrimaryKey) (f : Field) : Attribute :=
  { f.attribute with nullable := f.attribute.nullable && !keyNames key f.name }

section
variable {t : Table} {space : Namespace}

theorem attrs_entity : (Table.entity space t).attrs = t.fields.map (Field.attributeIn t.primaryKey) := by
  show ((t.fields.map Field.attribute).map fun a =>
    if keyNames t.primaryKey a.name then { a with nullable := false } else a) = _
  rw [List.map_map]
  refine List.map_congr_left fun f _ => ?_
  show (if keyNames t.primaryKey f.name then { f.attribute with nullable := false } else f.attribute) = _
  rw [Field.attributeIn]
  cases keyNames t.primaryKey f.name with
  | true => simp
  | false => simpa using (with_nullable (a := f.attribute) rfl).symm

theorem names_entity : (Table.entity space t).attrs.map (·.name) = t.fields.map (·.name) := by
  rw [attrs_entity, List.map_map]
  rfl

theorem flatPaths_primaryKey : ∀ key ∈ t.primaryKey, FlatPaths key.attrs := by
  intro key hkey
  rw [Table.primaryKey] at hkey
  split at hkey
  · obtain rfl := Option.some.inj hkey
    exact flatPaths_names _
  · dsimp only at hkey
    split at hkey
    · cases hkey
    · obtain rfl := Option.some.inj hkey
      exact List.forall_mem_map.mpr fun f _ => ⟨f.name, rfl⟩

/-- The columns of a primary key are fields of its table. -/
theorem primaryKey_fields (h : RegularTable t) (hkey : t.primaryKey = some key) (hpath : path ∈ key.attrs) :
    ∃ name ∈ t.fields.map (·.name), path = [name] := by
  rw [Table.primaryKey] at hkey
  split at hkey
  · next i hfind =>
    obtain rfl := Option.some.inj hkey
    obtain ⟨name, hname, rfl⟩ := List.mem_map.mp hpath
    have hi : i ∈ t.indexes := List.mem_reverse.mp (List.mem_of_find?_eq_some hfind)
    exact ⟨name, h.keyColumns i hi (List.find?_some hfind) name hname, rfl⟩
  · dsimp only at hkey
    split at hkey
    · cases hkey
    · obtain rfl := Option.some.inj hkey
      obtain ⟨f, hf, rfl⟩ := List.mem_map.mp hpath
      exact ⟨f.name, List.mem_map_of_mem (List.mem_filter.mp hf).1, rfl⟩

/-- The primary key stays when its table is written and read. -/
theorem primaryKey_entity (h : RegularTable t) :
    (Table.ofEntity (Table.entity space t)).primaryKey = t.primaryKey := by
  refine primaryKey_ofEntity (e := Table.entity space t) (names_entity.symm ▸ h.names) flatPaths_primaryKey
    fun path hpath => ?_
  have hkey : t.primaryKey = some { attrs := [path] } := fieldKey?_eq_some.mp hpath
  obtain ⟨name, hname, rfl⟩ := primaryKey_fields h hkey List.mem_cons_self
  have hname : name ∈ (Table.entity space t).attrs.map (·.name) := names_entity.symm ▸ hname
  obtain ⟨a, ha, rfl⟩ := List.mem_map.mp hname
  exact ⟨a, ha, rfl⟩

theorem indexes_entity : (Table.entity space t).indexes =
    ((t.fields.filter (·.unique)).map (·.name)).map fieldIndex ++
      (t.indexes.filter (!·.isKey)).map TableIndex.index := by
  rw [List.map_map]
  rfl

theorem flatPaths_indexes : ∀ i ∈ (Table.entity space t).indexes, FlatPaths i.attrs := by
  rw [indexes_entity]
  refine List.forall_mem_append.mpr ⟨?_, ?_⟩
  · exact List.forall_mem_map.mpr fun name _ => flatPaths_names [name]
  · exact List.forall_mem_map.mpr fun i _ => flatPaths_names _

theorem condition_indexes : ∀ i ∈ (Table.entity space t).indexes, i.condition = none := by
  rw [indexes_entity]
  exact List.forall_mem_append.mpr
    ⟨List.forall_mem_map.mpr fun _ _ => rfl, List.forall_mem_map.mpr fun _ _ => rfl⟩

end

section
variable {t : Table} {space : Namespace} {e : Entity}

/-- Indexes that no field stands for stay as they are. -/
theorem filter_indexes_settled (hpaths : ∀ i ∈ e.indexes, FlatPaths i.attrs)
    (hconditions : ∀ i ∈ e.indexes, i.condition = none) :
    (Table.entity space (.ofEntity e)).indexes.filter (!isAnyFieldUnique ·) =
      e.indexes.filter (!isAnyFieldUnique ·) := by
  have hnone : ∀ names : List String, (names.map fieldIndex).filter (!isAnyFieldUnique ·) = [] := fun _ =>
    List.filter_eq_nil_iff.mpr (by simp [isAnyFieldUnique_fieldIndex])
  rw [indexes_entity_ofEntity, map_index_ofIndex hpaths hconditions, List.filter_append, hnone, List.nil_append, List.filter_filter]
  simp only [Bool.and_self]

/-- The fields that are unique are so again. -/
theorem any_isFieldUnique_settled (hpaths : ∀ i ∈ e.indexes, FlatPaths i.attrs)
    (hconditions : ∀ i ∈ e.indexes, i.condition = none) (ha : a ∈ e.attrs) :
    (Table.entity space (.ofEntity e)).indexes.any (isFieldUnique a.name) =
      e.indexes.any (isFieldUnique a.name) := by
  have hothers : (e.indexes.filter (!isAnyFieldUnique ·)).any (isFieldUnique a.name) = false :=
    List.any_eq_false.mpr fun i hi => by
      have hi : isAnyFieldUnique i = false := by simpa using (List.mem_filter.mp hi).2
      simp [isFieldUnique_eq_false hi]
  rw [indexes_entity_ofEntity, map_index_ofIndex hpaths hconditions, List.any_append, hothers, Bool.or_false, Bool.eq_iff_iff]
  constructor
  · intro hany
    obtain ⟨i, hi, hunique⟩ := List.any_eq_true.mp hany
    obtain ⟨name, hname, rfl⟩ := List.mem_map.mp hi
    obtain ⟨f, hf, rfl⟩ := List.mem_map.mp hname
    obtain ⟨hf, hmarked⟩ := List.mem_filter.mp hf
    obtain ⟨b, -, rfl⟩ := List.mem_map.mp hf
    have hname : a.name = b.name := by simpa [isFieldUnique_fieldIndex, Field.ofAttribute] using hunique
    rw [hname]
    exact hmarked
  · intro hany
    have hf : Field.ofAttribute e a ∈ (Table.ofEntity e).fields.filter (·.unique) :=
      List.mem_filter.mpr ⟨List.mem_map_of_mem ha, hany⟩
    refine List.any_eq_true.mpr ⟨fieldIndex a.name, ?_, by simp [isFieldUnique_fieldIndex]⟩
    exact List.mem_map_of_mem (List.mem_map.mpr ⟨_, hf, rfl⟩)

end

theorem fieldKey?_congr (h : e.primaryKey = e'.primaryKey) : fieldKey? e = fieldKey? e' := by
  rw [fieldKey?, h, fieldKey?]

theorem keyIndexes_congr (h : e.primaryKey = e'.primaryKey) : keyIndexes e = keyIndexes e' := by
  rw [keyIndexes, fieldKey?_congr h, h, keyIndexes]

/-- A field that is read and written once more stays as it is. -/
theorem field_settled (hkey : e'.primaryKey = e.primaryKey)
    (hunique : e'.indexes.any (isFieldUnique a.name) = e.indexes.any (isFieldUnique a.name))
    (hdefault : ∀ text ∈ a.defaultValue,
      DefaultValue.ofText (DefaultValue.ofText text).text = DefaultValue.ofText text)
    (hnullable : keyNames e.primaryKey a.name = true → a.nullable = false) :
    Field.ofAttribute e' ((Field.ofAttribute e a).attributeIn e.primaryKey) = Field.ofAttribute e a := by
  have hinKey : fieldKey? e = some [a.name] → keyNames e.primaryKey a.name = true := fun h => by
    simp [keyNames, fieldKey?_eq_some.mp h]
  have hnotNull : (!!a.nullable && !(fieldKey? e == some [a.name]) && !keyNames e.primaryKey a.name) =
      a.nullable := by
    cases hnames : keyNames e.primaryKey a.name with
    | true => simp [hnullable hnames]
    | false =>
      have hfield : (fieldKey? e == some [a.name]) = false :=
        beq_eq_false_iff_ne.mpr fun h => by simp [hinKey h] at hnames
      simp [hfield]
  have hvalue : ((a.defaultValue.map DefaultValue.ofText).map (·.text)).map DefaultValue.ofText =
      a.defaultValue.map DefaultValue.ofText := by
    cases hsome : a.defaultValue with
    | none => rfl
    | some text => exact congrArg some (hdefault text hsome)
  have hmark : isAutoIncrement ((Field.ofAttribute e a).attributeIn e.primaryKey) = isAutoIncrement a := by
    have hextra : ((Field.ofAttribute e a).attributeIn e.primaryKey).extra =
        if isAutoIncrement a then [(autoIncrementKey, Json.bool true)] else [] := rfl
    rw [isAutoIncrement, hextra]
    cases isAutoIncrement a <;> simp
  show Field.mk a.name ⟨a.type, none⟩ (fieldKey? e' == some [a.name])
    (e'.indexes.any (isFieldUnique a.name))
    (!(!!a.nullable && !(fieldKey? e == some [a.name]) && !keyNames e.primaryKey a.name))
    (isAutoIncrement ((Field.ofAttribute e a).attributeIn e.primaryKey))
    (((a.defaultValue.map DefaultValue.ofText).map (·.text)).map DefaultValue.ofText) a.doc = _
  rw [fieldKey?_congr hkey, hunique, hnotNull, hmark, hvalue]
  rfl

/-- A table that is read and written once more stays as it is. -/
theorem table_settled (h : RegularTable t) (space space' : Namespace) :
    Table.ofEntity (Table.entity space' (Table.ofEntity (Table.entity space t))) =
      Table.ofEntity (Table.entity space t) := by
  let e := Table.entity space t
  let e' := Table.entity space' (Table.ofEntity e)
  have hkey : e'.primaryKey = e.primaryKey := primaryKey_entity h
  have hothers : e'.indexes.filter (!isAnyFieldUnique ·) = e.indexes.filter (!isAnyFieldUnique ·) :=
    filter_indexes_settled flatPaths_indexes condition_indexes
  have hfields : e'.attrs.map (Field.ofAttribute e') = e.attrs.map (Field.ofAttribute e) := by
    have hattrs : e'.attrs = e.attrs.map fun a => (Field.ofAttribute e a).attributeIn e.primaryKey := by
      rw [attrs_entity, primaryKey_entity h]
      exact List.map_map
    rw [hattrs, List.map_map]
    refine List.map_congr_left fun a ha => ?_
    refine field_settled hkey (any_isFieldUnique_settled flatPaths_indexes condition_indexes ha) ?_ ?_
    · intro text htext
      rw [attrs_entity] at ha
      obtain ⟨f, hf, rfl⟩ := List.mem_map.mp ha
      obtain ⟨d, hd, rfl⟩ := Option.map_eq_some_iff.mp htext
      exact ofText_text_ofText (h.defaults f hf d hd)
    · intro hnames
      rw [attrs_entity] at ha
      obtain ⟨f, hf, rfl⟩ := List.mem_map.mp ha
      have hnames : keyNames t.primaryKey f.name = true := hnames
      simp [Field.attributeIn, hnames]
  show Table.mk t.name (e'.attrs.map (Field.ofAttribute e'))
    (keyIndexes e' ++ (e'.indexes.filter (!isAnyFieldUnique ·)).map TableIndex.ofIndex) t.note = _
  rw [hfields, keyIndexes_congr hkey, hothers]
  rfl

-- ---------------------------------------------------------------------------
-- References
-- ---------------------------------------------------------------------------

theorem holdable_spaceOf (schema : Option String) : HoldableSpace (spaceOf schema) := by
  cases schema with
  | none => exact ⟨rfl, rfl, by simp [spaceOf]⟩
  | some name =>
    rw [spaceOf]
    split
    · exact ⟨rfl, rfl, by simp⟩
    · next h =>
      push Not at h
      exact ⟨rfl, rfl, by simpa using h⟩

theorem holdable_link (e : Endpoint) : HoldableLink e.link :=
  ⟨holdable_spaceOf e.schema, flatPaths_names e.fields, rfl⟩

/-- A reference is turned so that it is not turned again. -/
theorem holdable_relation (db : Database) (r : Reference) : HoldableRelation db (r.relation db) := by
  have hfirst := holdable_link r.endpoints.1
  have hsecond := holdable_link r.endpoints.2
  rw [Reference.relation]
  dsimp only
  cases hturned : pointsAtFirst db r.endpoints.1.link r.endpoints.2.link with
  | true =>
    refine ⟨hsecond, hfirst, fun hone => ?_, rfl, rfl⟩
    have hone : r.endpoints.2.link.cardinality = some .one := hone
    rw [pointsAtFirst, hone] at hturned
    split at hturned
    · next hmany => cases hmany
    · next htarget _ =>
      obtain ⟨hkey, -⟩ := Bool.and_eq_true_iff.mp hturned
      exact ⟨htarget, fun _ => hkey⟩
    · cases hturned
  | false =>
    refine ⟨hfirst, hsecond, fun hone => ?_, rfl, rfl⟩
    have hone : r.endpoints.1.link.cardinality = some .one := hone
    obtain ⟨cardinality, hcardinality⟩ := Option.isSome_iff_exists.mp hsecond.cardinality
    rw [pointsAtFirst, hone, hcardinality] at hturned
    cases cardinality with
    | many => cases hturned
    | one =>
      refine ⟨hcardinality, fun hkey => ?_⟩
      have hkey : isKeyOf db r.endpoints.1.link = true := hkey
      show isKeyOf db r.endpoints.2.link = true
      simpa [hkey] using hturned

-- ---------------------------------------------------------------------------
-- Whole documents
-- ---------------------------------------------------------------------------

/-- The enumeration of a type that has values. -/
def enumOf (t : NamedType) : Enum where
  name := t.name
  values := (t.values.getD []).map fun v => { name := v }
  note := t.doc

theorem enumOf_type (space : Namespace) (t : NamedType) : enumOf ((enumOf t).type space) = enumOf t := by
  simp [enumOf, Enum.type]

/-- The enumerations with the names of the schemas that they are put into. -/
def enumsUnder (db : Database) : List (String × Enum) := db.types.map fun t => (schemaOf t.space, enumOf t)

/-- The tables with the names of the schemas that they are put into. -/
def tablesUnder (db : Database) : List (String × Table) :=
  db.entities.map fun e => (schemaOf e.space, .ofEntity e)

theorem enterAll_under (db : Database) : enterAll (enumsUnder db) (tablesUnder db) =
    db.entities.foldl addTable ((db.types.map fun t => (t.space, enumOf t)).foldl addEnum []) := by
  rw [enterAll, enumsUnder, tablesUnder, List.foldl_map, List.foldl_map, List.foldl_map]
  rfl

/-- The document of a schema of enumerations. -/
theorem ofDatabase_eq {db : Database} (hvalues : ∀ t ∈ db.types, t.values.isSome = true)
    (hgroups : db.groups = .ok groups) : Document.ofDatabase db = .ok {
      schemas := enterAll (enumsUnder db) (tablesUnder db)
      references := db.relations.map Reference.ofRelation
      groups := (groups.getD []).map TableGroup.ofGroup } := by
  have henums : ∀ types : List NamedType, (∀ t ∈ types, t.values.isSome = true) →
      types.mapM (fun t => (t.space, ·) <$> Enum.ofType t) = .ok (types.map fun t => (t.space, enumOf t)) := by
    intro types htypes
    induction types with
    | nil => rfl
    | cons t types ih =>
      obtain ⟨ht, htypes⟩ := List.forall_mem_cons.mp htypes
      obtain ⟨values, hvalues⟩ := Option.isSome_iff_exists.mp ht
      have hfirst : Enum.ofType t = .ok (enumOf t) := by simp [Enum.ofType, enumOf, hvalues]
      simp only [List.mapM_cons, hfirst, ih htypes]
      rfl
  rw [Document.ofDatabase, henums db.types hvalues, hgroups, enterAll_under]
  rfl

/-- An entity is found among tables by the schema under which its table stands. -/
theorem find?_tables (tables : List (String × Table)) (name : EntityName)
    (hnames : ∀ item ∈ tables, schemaOf (spaceOf (some item.1)) = item.1) :
    (tables.map fun item => Table.entity (spaceOf (some item.1)) item.2).find? (·.id == name) =
      ((tables.filter (·.1 = schemaOf name.space)).map fun item =>
        Table.entity (spaceOf (some item.1)) item.2).find? (·.id == name) := by
  rw [List.find?_map, List.find?_map, ← List.head?_filter, ← List.head?_filter, List.filter_filter]
  refine congrArg (fun found => Option.map _ (List.head? found)) (List.filter_congr fun item hitem => ?_)
  cases hid : ((fun e : Entity => e.id == name) ∘
      fun item : String × Table => Table.entity (spaceOf (some item.1)) item.2) item with
  | false => rfl
  | true =>
    have hspace : spaceOf (some item.1) = name.space := congrArg EntityName.space (beq_iff_eq.mp hid)
    simp [← hspace, hnames item hitem]

/-- What is found keeps what a change leaves to all. -/
theorem find?_bind_map {entities : List Entity} {change : Entity → Entity}
    (h : ∀ e ∈ entities, (change e).id = e.id ∧ (change e).primaryKey = e.primaryKey) :
    ((entities.map change).find? (·.id == name)).bind (·.primaryKey) =
      (entities.find? (·.id == name)).bind (·.primaryKey) := by
  induction entities with
  | nil => rfl
  | cons e entities ih =>
    obtain ⟨⟨hid, hkey⟩, h⟩ := List.forall_mem_cons.mp h
    rw [List.map_cons, List.find?_cons, List.find?_cons, hid]
    cases e.id == name with
    | true => exact hkey
    | false => exact ih h

section
variable {d : Document}

theorem mem_entities_database (h : e ∈ d.database.entities) :
    ∃ s ∈ d.schemas, ∃ t ∈ s.tables, e = Table.entity (spaceOf (some s.name)) t := by
  obtain ⟨s, hs, he⟩ := List.mem_flatMap.mp h
  obtain ⟨t, ht, rfl⟩ := List.mem_map.mp he
  exact ⟨s, hs, t, ht, rfl⟩

theorem mem_types_database (h : t ∈ d.database.types) :
    HoldableSpace t.space ∧ t.values.isSome = true := by
  obtain ⟨s, -, ht⟩ := List.mem_flatMap.mp h
  obtain ⟨enum, -, rfl⟩ := List.mem_map.mp ht
  exact ⟨holdable_spaceOf (some s.name), rfl⟩

theorem holdable_extra_database : HoldableExtra d.database.extra := by
  show HoldableExtra (if d.groups.isEmpty then [] else _)
  split
  · exact .inl rfl
  · next hsome =>
    refine .inr ⟨d.groups.map TableGroup.group, by simpa using hsome, ?_, rfl⟩
    exact List.forall_mem_map.mpr fun g _ => List.forall_mem_map.mpr fun t _ => holdable_spaceOf t.schema

/-- Only the entities are asked how references go. -/
theorem relations_database : d.database.relations = d.references.map (Reference.relation d.database) := rfl

end

section
variable {d settled : Document}
  (hschemas : settled.schemas = enterAll (enumsUnder d.database) (tablesUnder d.database))

include hschemas

/-- The enumerations that are read again are those that were written. -/
theorem enumsUnder_settled : enumsUnder settled.database = contents Schema.enums settled.schemas := by
  show (settled.schemas.flatMap fun s => s.enums.map (Enum.type (spaceOf (some s.name)))).map _ = _
  rw [map_contents Enum.type, List.map_map]
  refine (List.map_congr_left fun item hitem => ?_).trans (List.map_id _)
  obtain ⟨t, ht, rfl⟩ := List.mem_map.mp (mem_enums_enterAll (hschemas ▸ hitem))
  simp only [Function.comp_apply, enumOf_type, id]
  rw [Enum.type, spaceOf_schemaOf (mem_types_database ht).1]

/-- The tables that are read again are those that were written. -/
theorem tablesUnder_settled (h : RegularDocument d) :
    tablesUnder settled.database = contents Schema.tables settled.schemas := by
  show (settled.schemas.flatMap fun s => s.tables.map (Table.entity (spaceOf (some s.name)))).map _ = _
  rw [map_contents Table.entity, List.map_map]
  refine (List.map_congr_left fun item hitem => ?_).trans (List.map_id _)
  obtain ⟨e, he, rfl⟩ := List.mem_map.mp (mem_tables_enterAll (hschemas ▸ hitem))
  obtain ⟨s, hs, t, ht, rfl⟩ := mem_entities_database he
  have hspace : spaceOf (some (schemaOf (Table.entity (spaceOf (some s.name)) t).space)) =
      spaceOf (some s.name) := spaceOf_schemaOf (holdable_spaceOf (some s.name))
  simp only [Function.comp_apply, hspace, table_settled (h s hs t ht), id]
  rfl

/-- The first entity of a name is still the first, with the key that it had. -/
theorem keys_settled (h : RegularDocument d) (name : EntityName) :
    (settled.database.entity? name).bind (·.primaryKey) = (d.database.entity? name).bind (·.primaryKey) := by
  let read (item : String × Table) : Entity := Table.entity (spaceOf (some item.1)) item.2
  have hentities : settled.database.entities = (contents Schema.tables settled.schemas).map read :=
    map_contents Table.entity Schema.tables settled.schemas
  have hnames : ∀ item ∈ tablesUnder d.database, schemaOf (spaceOf (some item.1)) = item.1 := by
    refine List.forall_mem_map.mpr fun e he => ?_
    obtain ⟨s, hs, t, ht, rfl⟩ := mem_entities_database he
    exact congrArg schemaOf (spaceOf_schemaOf (holdable_spaceOf (some s.name)))
  have hfind : settled.database.entities.find? (·.id == name) =
      ((tablesUnder d.database).map read).find? (·.id == name) := by
    rw [hentities, find?_tables _ _ fun item hitem => hnames item (mem_tables_enterAll (hschemas ▸ hitem)),
      find?_tables _ _ hnames, hschemas, filter_contents_enterAll]
  have hreread : (tablesUnder d.database).map read =
      d.database.entities.map fun e => Table.entity (spaceOf (some (schemaOf e.space))) (.ofEntity e) :=
    List.map_map
  have hsame : ∀ e ∈ d.database.entities,
      (Table.entity (spaceOf (some (schemaOf e.space))) (.ofEntity e)).id = e.id ∧
        (Table.entity (spaceOf (some (schemaOf e.space))) (.ofEntity e)).primaryKey = e.primaryKey := by
    intro e he
    obtain ⟨s, hs, t, ht, rfl⟩ := mem_entities_database he
    refine ⟨?_, primaryKey_entity (h s hs t ht)⟩
    exact congrArg (EntityName.mk · t.name) (spaceOf_schemaOf (holdable_spaceOf (some s.name)))
  rw [Database.entity?, hfind, hreread, Database.entity?]
  exact find?_bind_map hsame

/-- References are not turned once more. -/
theorem references_settled (h : RegularDocument d)
    (hreferences : settled.references = d.database.relations.map Reference.ofRelation) :
    settled.database.relations.map Reference.ofRelation = settled.references := by
  have hback : ∀ r ∈ d.database.relations, (Reference.ofRelation r).relation settled.database = r := by
    intro r hr
    rw [relations_database] at hr
    obtain ⟨r, -, rfl⟩ := List.mem_map.mp hr
    rw [relation_congr_keys (keys_settled hschemas h)]
    exact relation_ofRelation (holdable_relation d.database r)
  rw [relations_database, hreferences, List.map_map, List.map_map]
  exact List.map_congr_left fun r hr => congrArg Reference.ofRelation (hback r hr)

end

/-- A document that is read and written comes back in a form that reading and writing keeps. -/
theorem ofDatabase_database_stable (h : RegularDocument d) : ∃ settled,
    Document.ofDatabase d.database = .ok settled ∧ Document.ofDatabase settled.database = .ok settled := by
  have hholdable : HoldableExtra d.database.extra := holdable_extra_database
  obtain ⟨groups, hgroups, hextra⟩ := extra_of_groups hholdable
  let settled : Document := {
    schemas := enterAll (enumsUnder d.database) (tablesUnder d.database)
    references := d.database.relations.map Reference.ofRelation
    groups := (groups.getD []).map TableGroup.ofGroup }
  have hsettledGroups : settled.database.groups = .ok groups := by
    have hsame : settled.database.extra = d.database.extra := hextra
    rw [← hgroups, Database.groups, hsame, Database.groups]
  have hschemas : enterAll (enumsUnder settled.database) (tablesUnder settled.database) = settled.schemas := by
    rw [enumsUnder_settled rfl, tablesUnder_settled rfl h]
    exact (gathered_enterAll _ _).regather
  refine ⟨settled, ofDatabase_eq (fun t ht => (mem_types_database ht).2) hgroups, ?_⟩
  rw [ofDatabase_eq (fun t ht => (mem_types_database ht).2) hsettledGroups, hschemas,
    references_settled rfl h rfl]

def scatteredUsers : Table where
  name := "users"
  fields := [
    { name := "id", type := { name := "int4" }, inKey := true, increment := true },
    { name := "age", type := { name := "int4" }, defaultValue := some ⟨.number, .int (-1)⟩ },
    { name := "email", type := { name := "text" }, unique := true,
      defaultValue := some ⟨.expression, .str "now()"⟩ }]
  indexes := [{ columns := [⟨.column, "email"⟩], unique := true }]

def scatteredOrders : Table where
  name := "orders"
  fields := [
    { name := "user_id", type := { name := "int4" } },
    { name := "state", type := { name := "state", schema := some "shop" } }]
  indexes := [
    { columns := [⟨.column, "state"⟩, ⟨.expression, "lower(state)"⟩, ⟨.expression, "user_id + 1"⟩] },
    { columns := [⟨.column, "state"⟩, ⟨.column, "user_id"⟩], isKey := true }]

/-- A document with one schema in two places, enumerations behind tables and a reference turned around. -/
def scattered : Document where
  schemas := [
    { name := "", tables := [scatteredUsers] },
    { name := "shop", tables := [scatteredOrders], enums := [{ name := "state", values := [{ name := "new" }] }] },
    { name := "public", tables := [{ name := "users" }], note := some "Once more" }]
  references := [{
    endpoints := (
      { table := "users", fields := ["id"], relation := "1" },
      { schema := some "shop", table := "orders", fields := ["user_id"], relation := "*" }) }]
  groups := [{ name := "people", tables := [{ schema := some "public", name := "users" }] }]

theorem regular_scattered : RegularDocument scattered := by
  have hnumber : RegularDefault (DefaultValue.text ⟨.number, .int (-1)⟩) := by
    intro value hvalue
    rw [text_integer, number?_toString (by decide) (by decide)] at hvalue
    exact ⟨-1, (Option.some.inj hvalue).symm, text_integer (-1)⟩
  have hcall : RegularDefault (DefaultValue.text ⟨.expression, .str "now()"⟩) := by
    have hnone : number? "now()".toList = none := by decide
    intro value hvalue
    exact absurd (hnone.symm.trans hvalue) (by simp)
  have husers : RegularTable scatteredUsers := by
    refine ⟨by decide, by decide, ?_⟩
    simp only [scatteredUsers, List.forall_mem_cons]
    exact ⟨by simp, by simpa using hnumber, by simpa using hcall, by simp⟩
  have horders : RegularTable scatteredOrders := by
    refine ⟨by decide, by decide, ?_⟩
    simp only [scatteredOrders, List.forall_mem_cons]
    exact ⟨by simp, by simp, by simp⟩
  simp only [RegularDocument, scattered, List.forall_mem_cons]
  exact ⟨⟨husers, by simp⟩, ⟨horders, by simp⟩, ⟨⟨by simp, by simp, by simp⟩, by simp⟩, by simp⟩

theorem ofDatabase_database_stable_scattered : RegularDocument scattered ∧ ∃ settled,
    Document.ofDatabase scattered.database = .ok settled ∧ Document.ofDatabase settled.database = .ok settled :=
  ⟨regular_scattered, ofDatabase_database_stable regular_scattered⟩

end SchemaDialects.Tables
