import SchemaDialects.Proofs.Sql.Sections
import SchemaDialects.Proofs.Sql.Taken

/-!
# Schemas whose text is settled

The reader does not guarantee that the writer's text of its schema is read as that schema again. The texts of
types, values and predicates are put together from tokens and may fall into other tokens, the fields of a
composite type and some names are written without the quotes that they need, and a key column may be allowed
to be null. `Settled` excludes these, and nothing else: a schema that was read (`Built`) and is settled has the
text of a schema in normal form (`Normal`), namely of its own normal form (`normalForm`).
-/

namespace SchemaDialects.Sql

open Text Production

-- ---------------------------------------------------------------------------
-- Definitions of indexes
-- ---------------------------------------------------------------------------

/-- The expressions that the definition of an index lists. -/
def textsOf (definition : String) : List String := (splitCommas 0 (tokensOf definition)).map (renderTokens false)

/-- The definition of an index that is read as the same definition again. -/
structure DefinitionText (definition : String) : Prop where
  text : definition = ", ".intercalate (textsOf definition)
  expression : ∀ text ∈ textsOf definition, ExpressionText endsIndexColumn text
  complex : ∃ text ∈ textsOf definition, simpleColumn? text = none

/-- A comma outside parentheses ends an expression that is closed. -/
theorem splitCommas_append (hstop : stop .comma = true) (h : isClosed stop depth ts = true)
    (hus : splitCommas 0 us = first :: rest) : splitCommas depth (ts ++ us) = (ts ++ first) :: rest := by
  induction ts generalizing depth with
  | nil =>
    obtain rfl : depth = 0 := of_decide_eq_true h
    exact hus
  | cons t ts ih =>
    rw [isClosed] at h
    rw [List.cons_append, splitCommas]
    split at h
    · cases h
    · cases h
    · rename_i hopen
      rw [hopen]
      dsimp only
      rw [ih h]
      rfl
    · rename_i hclose
      rw [hclose]
      dsimp only
      rw [ih (Bool.and_eq_true_iff.mp h).2]
      rfl
    · obtain ⟨hgo, hclosed⟩ := Bool.and_eq_true_iff.mp h
      split
      · rename_i hcomma
        have hdepth : depth ≠ 0 := by
          rintro rfl
          simp [hcomma, hstop] at hgo
        rw [if_neg hdepth, ih hclosed]
        rfl
      · contradiction
      · contradiction
      · rw [ih hclosed]
        rfl

theorem splitCommas_intercalate (hstop : stop .comma = true) (hne : tss ≠ [])
    (h : ∀ ts ∈ tss, isClosed stop 0 ts = true) : splitCommas 0 ([commaToken].intercalate tss) = tss := by
  induction tss with
  | nil => exact absurd rfl hne
  | cons ts tss ih =>
    obtain ⟨hfirst, hmore⟩ := List.forall_mem_cons.mp h
    cases tss with
    | nil =>
      have hnil : splitCommas 0 [] = [[]] := rfl
      rw [List.intercalate_singleton, ← List.append_nil ts, splitCommas_append hstop hfirst hnil]
    | cons us uss =>
      have hrest : splitCommas 0 (commaToken :: [commaToken].intercalate (us :: uss)) = [] :: us :: uss := by
        show [] :: splitCommas 0 ([commaToken].intercalate (us :: uss)) = _
        rw [ih (List.cons_ne_nil _ _) hmore]
      rw [List.intercalate_cons_cons, List.append_assoc, List.singleton_append, splitCommas_append hstop hfirst hrest,
        List.append_nil]

theorem tokensOf_of_lexes {text : String} (h : Lexes text.toList [] ws) : tokensOf text = ws := by
  obtain ⟨ps, htiles, -, rfl⟩ := h
  rw [tokensOf, ← List.append_nil text.toList, htiles, tiles_nil, List.append_nil]

theorem textsOf_intercalate (hne : texts ≠ []) (h : ∀ text ∈ texts, ExpressionText endsIndexColumn text) :
    textsOf (", ".intercalate texts) = texts := by
  have htokens : tokensOf (", ".intercalate texts) = [commaToken].intercalate (texts.map tokensOf) :=
    tokensOf_of_lexes (lexes_texts (fun text htext => (h text htext).toEvenText) nofun)
  have hclosed : ∀ ts ∈ texts.map tokensOf, isClosed endsIndexColumn 0 ts = true :=
    List.forall_mem_map.mpr fun text htext => (h text htext).closed
  rw [textsOf, htokens, splitCommas_intercalate rfl (by simpa using hne) hclosed, List.map_map]
  exact (List.map_congr_left fun text htext => (h text htext).even).trans (List.map_id _)

theorem definitionText_intercalate (h : ∀ text ∈ texts, ExpressionText endsIndexColumn text)
    (hcomplex : ∃ text ∈ texts, simpleColumn? text = none) : DefinitionText (", ".intercalate texts) := by
  have htexts := textsOf_intercalate (List.ne_nil_of_mem hcomplex.choose_spec.1) h
  exact ⟨by rw [htexts], by rwa [htexts], by rwa [htexts]⟩

-- ---------------------------------------------------------------------------
-- What is read
-- ---------------------------------------------------------------------------

/-- The text of a value as it is taken from a script. -/
def TakenValue (generated : Bool) (text : String) : Prop :=
  if generated then TakenText (fun _ => false) text else TakenDefault text

theorem TakenDefault.taken (h : TakenDefault text) (generated : Bool) : TakenValue generated text := by
  cases generated with
  | false => exact h
  | true =>
    obtain ⟨heven, hnull | ⟨hne, hinside⟩⟩ := h
    · obtain ⟨t, ht, hlexeme⟩ := List.map_eq_singleton_iff.mp hnull
      exact ⟨heven, by rw [ht]; exact List.cons_ne_nil _ _, by rw [ht, isInside, hlexeme]; rfl⟩
    · exact ⟨heven, hne, isInside_never hinside⟩

structure BuiltAttribute (a : Attribute) : Prop where
  value : ∀ text ∈ a.defaultValue, TakenValue a.generated text
  generated : a.generated = true → a.defaultValue.isSome = true
  nested : a.nested = []
  doc : ∀ doc ∈ a.doc, Literal doc
  extra : a.extra = [] ∨ a.extra = [(autoIncrementKey, .bool true)]

structure BuiltIndex (i : Index) : Prop where
  single : ∀ path ∈ i.attrs, ∃ name, path = [name]
  nonempty : i.definition = none → i.attrs ≠ []
  definition : ∀ definition ∈ i.definition, DefinitionText definition
  condition : ∀ text ∈ i.condition, TakenText (fun _ => false) text
  doc : i.doc = none

structure BuiltCheck (c : Check) : Prop where
  predicate : ExpressionText (fun _ => false) c.predicate
  doc : c.doc = none

structure BuiltEntity (e : Entity) : Prop where
  space : SpellableSpace e.space
  attrs : ∀ a ∈ e.attrs, BuiltAttribute a
  key : ∀ key ∈ e.primaryKey, IsColumns key.attrs
  index : ∀ i ∈ e.indexes, BuiltIndex i
  check : ∀ c ∈ e.checks, BuiltCheck c
  doc : ∀ doc ∈ e.doc, Literal doc
  stats : e.stats = []
  extra : e.extra = []

structure BuiltNamedType (t : NamedType) : Prop where
  space : SpellableSpace t.space
  values : ∀ values ∈ t.values, (∀ value ∈ values, Literal value) ∧ t.definition = none
  doc : t.doc = none
  extra : t.extra = []

/-- Schemas that the reader can give. -/
structure Built (db : Database) : Prop where
  entity : ∀ e ∈ db.entities, BuiltEntity e
  entities : (db.entities.map Entity.id).Nodup
  type : ∀ t ∈ db.types, BuiltNamedType t
  relation : ∀ r ∈ db.relations, SpellableRelation db r
  extra : db.extra = []
  stats : db.stats = none

-- ---------------------------------------------------------------------------
-- Conditions
-- ---------------------------------------------------------------------------

/-- The text of a type that is read as the same type again. -/
structure SettledType (type : String) : Prop where
  tidy : ∀ p ∈ tiles cut type.toList, Tidy p
  nonempty : tokensOf type ≠ []
  head : ∀ t ∈ (tokensOf type).head?, t.lexeme ≠ .keyword .KEY ∧ t.lexeme ≠ .keyword .INDEX
  closed : isClosed breaksType 0 (tokensOf type) = true
  normalized : normalizeType (renderTokens false (tokensOf type)) .postgres = type

structure SettledAttribute (a : Attribute) : Prop where
  type : SettledType (spellType a.type .postgres)
  value : ∀ text ∈ a.defaultValue, Balanced text

/-- The columns of a key may not be null, unless the key is written at its column. -/
def SettledKey (e : Entity) (key : PrimaryKey) : Prop :=
  keyAtColumn e key = false → ∀ a ∈ e.attrs, [a.name] ∈ key.attrs → a.nullable = false

/-- The grammar takes `concurrently` in front of the name of an index for a word of its own, and `nulls` behind
a column of an index. -/
structure SettledIndex (i : Index) : Prop where
  name : i.name ≠ some "concurrently"
  columns : i.definition = none → ["nulls"] ∉ i.attrs
  condition : ∀ text ∈ i.condition, Balanced text

structure SettledEntity (e : Entity) : Prop where
  attrs : ∀ a ∈ e.attrs, SettledAttribute a
  distinct : (e.attrs.map (·.name)).Nodup
  key : ∀ key ∈ e.primaryKey, SettledKey e key
  index : ∀ i ∈ e.indexes.filter hasStatement, SettledIndex i

/-- A field of a composite type, whose name is written without quotes. -/
structure SettledField (f : Field) : Prop where
  tidy : ∀ p ∈ tiles cut f.name.toList, Tidy p
  name : (tokensOf f.name).map (fun t => (identifier? t).map (·.value)) = [some f.name]
  type : SettledType f.type

structure SettledDefinition (definition : String) : Prop where
  text : definition = ", ".intercalate ((fieldsOf definition).map Field.text)
  field : ∀ f ∈ fieldsOf definition, SettledField f

structure Settled (db : Database) : Prop where
  entity : ∀ e ∈ db.entities, SettledEntity e
  type : ∀ t ∈ db.types, ∀ definition ∈ t.definition, SettledDefinition definition

-- ---------------------------------------------------------------------------
-- The conditions can be checked
-- ---------------------------------------------------------------------------

instance (type : String) : Decidable (SettledType type) :=
  decidable_of_iff ((∀ p ∈ tiles cut type.toList, Tidy p) ∧ tokensOf type ≠ [] ∧
      (∀ t ∈ (tokensOf type).head?, t.lexeme ≠ .keyword .KEY ∧ t.lexeme ≠ .keyword .INDEX) ∧
      isClosed breaksType 0 (tokensOf type) = true ∧
      normalizeType (renderTokens false (tokensOf type)) .postgres = type)
    ⟨fun ⟨a, b, c, d, e⟩ => ⟨a, b, c, d, e⟩, fun ⟨a, b, c, d, e⟩ => ⟨a, b, c, d, e⟩⟩

instance (a : Attribute) : Decidable (SettledAttribute a) :=
  decidable_of_iff (SettledType (spellType a.type .postgres) ∧ ∀ text ∈ a.defaultValue, Balanced text)
    ⟨fun ⟨a, b⟩ => ⟨a, b⟩, fun ⟨a, b⟩ => ⟨a, b⟩⟩

instance (e : Entity) (key : PrimaryKey) : Decidable (SettledKey e key) :=
  inferInstanceAs (Decidable (_ → ∀ a ∈ e.attrs, _))

instance (i : Index) : Decidable (SettledIndex i) :=
  decidable_of_iff (i.name ≠ some "concurrently" ∧ (i.definition = none → i.attrs.contains ["nulls"] = false) ∧
      ∀ text ∈ i.condition, Balanced text)
    ⟨fun ⟨a, b, c⟩ => ⟨a, by simpa using b, c⟩, fun ⟨a, b, c⟩ => ⟨a, by simpa using b, c⟩⟩

instance (e : Entity) : Decidable (SettledEntity e) :=
  decidable_of_iff ((∀ a ∈ e.attrs, SettledAttribute a) ∧ (e.attrs.map (·.name)).Nodup ∧
      (∀ key ∈ e.primaryKey, SettledKey e key) ∧ ∀ i ∈ e.indexes.filter hasStatement, SettledIndex i)
    ⟨fun ⟨a, b, c, d⟩ => ⟨a, b, c, d⟩, fun ⟨a, b, c, d⟩ => ⟨a, b, c, d⟩⟩

instance (f : Field) : Decidable (SettledField f) :=
  decidable_of_iff ((∀ p ∈ tiles cut f.name.toList, Tidy p) ∧
      (tokensOf f.name).map (fun t => (identifier? t).map (·.value)) = [some f.name] ∧ SettledType f.type)
    ⟨fun ⟨a, b, c⟩ => ⟨a, b, c⟩, fun ⟨a, b, c⟩ => ⟨a, b, c⟩⟩

instance (definition : String) : Decidable (SettledDefinition definition) :=
  decidable_of_iff (definition = ", ".intercalate ((fieldsOf definition).map Field.text) ∧
      ∀ f ∈ fieldsOf definition, SettledField f)
    ⟨fun ⟨a, b⟩ => ⟨a, b⟩, fun ⟨a, b⟩ => ⟨a, b⟩⟩

instance (db : Database) : Decidable (Settled db) :=
  decidable_of_iff ((∀ e ∈ db.entities, SettledEntity e) ∧
      ∀ t ∈ db.types, ∀ definition ∈ t.definition, SettledDefinition definition)
    ⟨fun ⟨a, b⟩ => ⟨a, b⟩, fun ⟨a, b⟩ => ⟨a, b⟩⟩

-- ---------------------------------------------------------------------------
-- Normal forms
-- ---------------------------------------------------------------------------

/-- A column of the key is not null, a type is as it is written. -/
def normalAttribute (e : Entity) (a : Attribute) : Attribute :=
  { a with type := spellType a.type .postgres, nullable := !keyedAt e a && a.nullable }

/-- The name is read as a column of an index, and as nothing more. -/
def isSimpleColumn (path : AttributePath) : Bool :=
  (simpleColumn? (Flavor.postgres.quoteName (path.headD ""))).isSome

/-- An index over expressions has the columns that its text mentions. A name with quotes in it is taken for an
expression. -/
def normalIndex (i : Index) : Index :=
  match i.definition with
  | some definition => { i with attrs := ownColumns ((textsOf definition).flatMap columnsOf) }
  | none =>
    if i.attrs.all isSimpleColumn then i else { i with definition := some (Flavor.postgres.columnList i.attrs) }

theorem normalIndex_eq (i : Index) : ∃ attrs definition, normalIndex i = { i with attrs, definition } := by
  rw [normalIndex]
  split
  · exact ⟨_, i.definition, rfl⟩
  · split
    · exact ⟨i.attrs, i.definition, rfl⟩
    · exact ⟨i.attrs, _, rfl⟩

/-- The check has those columns that its text mentions and that are there. -/
def normalCheck (e : Entity) (c : Check) : Check :=
  { c with attrs := (ownColumns (columnsOf c.predicate)).filter e.hasAttribute }

/-- Indexes that are not written are left out, the others stand in the order in which they are written. -/
def normalEntity (e : Entity) : Entity :=
  { e with
    attrs := e.attrs.map (normalAttribute e)
    indexes := (e.attrs.filter (uniqueAt e)).map columnIndex ++ e.indexes.filter isTableUnique ++
      (e.indexes.filter hasStatement).map normalIndex
    checks := e.checks.map (normalCheck e) }

def normalForm (db : Database) : Database := { db with entities := db.entities.map normalEntity }

-- ---------------------------------------------------------------------------
-- Attributes and types
-- ---------------------------------------------------------------------------

theorem spellType_spellType (type : String) :
    spellType (spellType type .postgres) .postgres = spellType type .postgres := by
  have hstamp : spellType "timestamp" .postgres = "timestamp" := by decide
  have hspell : ∀ type, spellType type .postgres =
      if Text.lowercase type == "datetime" then "timestamp" else type := fun _ => rfl
  rw [hspell type]
  split
  · exact hstamp
  · rename_i hother
    rw [hspell, if_neg hother]

theorem SettledType.readable (h : SettledType type) : ReadableType type where
  lexes _ hrest := lexes_tidy h.tidy hrest
  head := by
    obtain ⟨t, more, hmore⟩ := List.exists_cons_of_ne_nil h.nonempty
    exact ⟨t, more, hmore, h.head t (by rw [hmore]; rfl)⟩
  closed := h.closed

theorem TakenDefault.closed (h : TakenDefault text) (hclosed : Balanced text) : DefaultText text where
  toEvenText := h.toEvenText
  value := h.value.imp_right fun ⟨hne, hinside⟩ => ⟨hne, by rw [isClosed_eq, hinside, Bool.true_and]; exact hclosed⟩

theorem TakenValue.closed {generated : Bool} (h : TakenValue generated text) (hclosed : Balanced text) :
    ValueText generated text := by
  cases generated with
  | true => exact TakenText.closed h hclosed
  | false => exact TakenDefault.closed h hclosed

theorem normal_normalAttribute (hbuilt : BuiltAttribute a) (h : SettledAttribute a) (e : Entity) :
    NormalAttribute (normalAttribute e a) where
  type := h.type.readable
  normalized := h.type.normalized
  spelled := spellType_spellType a.type
  value text htext := (hbuilt.value text htext).closed (h.value text htext)
  generated := hbuilt.generated
  nested := hbuilt.nested
  doc := hbuilt.doc
  extra := hbuilt.extra

theorem normal_namedType (hbuilt : BuiltNamedType t) (h : ∀ definition ∈ t.definition, SettledDefinition definition) :
    NormalNamedType t where
  space := hbuilt.space
  values := hbuilt.values
  definition definition hdefinition := by
    obtain ⟨htext, hfield⟩ := h definition hdefinition
    exact ⟨htext, fun f hf => ⟨(hfield f hf).tidy, (hfield f hf).name, (hfield f hf).type.readable⟩,
      fun f hf => (hfield f hf).type.normalized⟩
  doc := hbuilt.doc
  extra := hbuilt.extra

-- ---------------------------------------------------------------------------
-- Indexes
-- ---------------------------------------------------------------------------

theorem isTableUnique_columnIndex (a : Attribute) : isTableUnique (columnIndex a) = false := rfl

theorem hasStatement_columnIndex (a : Attribute) : hasStatement (columnIndex a) = false := by
  simp [hasStatement, isOwnColumnUnique, isColumnUnique, columnIndex]

theorem isColumnUnique_columnIndex (a : Attribute) (name : String) :
    isColumnUnique [name] (columnIndex a) = true ↔ a.name = name := by
  simp [isColumnUnique, columnIndex]

theorem hasStatement_of_definition {i : Index} (h : i.definition.isSome = true) : hasStatement i = true := by
  have hnone : i.definition.isNone = false := by simpa using h
  refine hasStatement_iff.mpr ⟨?_, ?_⟩
  · rw [isOwnColumnUnique]
    split
    · simp [isColumnUnique, hnone]
    · rfl
  · simp [isTableUnique, hnone]

theorem hasStatement_normalIndex {i : Index} (h : hasStatement i = true) : hasStatement (normalIndex i) = true := by
  rw [normalIndex]
  split
  · rename_i definition hdefinition
    exact hasStatement_of_definition (by rw [hdefinition]; rfl)
  · split
    · exact h
    · exact hasStatement_of_definition rfl

section
variable (e : Entity)

theorem filter_isTableUnique_normalEntity :
    (normalEntity e).indexes.filter isTableUnique = e.indexes.filter isTableUnique := by
  have hcolumns : ((e.attrs.filter (uniqueAt e)).map columnIndex).filter isTableUnique = [] := by
    refine List.filter_eq_nil_iff.mpr (List.forall_mem_map.mpr fun a _ => ?_)
    rw [isTableUnique_columnIndex]
    exact Bool.false_ne_true
  have hstatements : ((e.indexes.filter hasStatement).map normalIndex).filter isTableUnique = [] := by
    refine List.filter_eq_nil_iff.mpr (List.forall_mem_map.mpr fun i hi => ?_)
    rw [(hasStatement_iff.mp (hasStatement_normalIndex (List.mem_filter.mp hi).2)).2]
    exact Bool.false_ne_true
  rw [normalEntity, List.filter_append, List.filter_append, hcolumns, hstatements, List.filter_filter]
  simp

theorem filter_hasStatement_normalEntity :
    (normalEntity e).indexes.filter hasStatement = (e.indexes.filter hasStatement).map normalIndex := by
  have hcolumns : ((e.attrs.filter (uniqueAt e)).map columnIndex).filter hasStatement = [] := by
    refine List.filter_eq_nil_iff.mpr (List.forall_mem_map.mpr fun a _ => ?_)
    rw [hasStatement_columnIndex]
    exact Bool.false_ne_true
  have htable : (e.indexes.filter isTableUnique).filter hasStatement = [] := by
    refine List.filter_eq_nil_iff.mpr fun i hi hstatement => ?_
    have htable := (List.mem_filter.mp hi).2
    rw [(hasStatement_iff.mp hstatement).2] at htable
    contradiction
  have hstatements : ((e.indexes.filter hasStatement).map normalIndex).filter hasStatement =
      (e.indexes.filter hasStatement).map normalIndex := by
    refine List.filter_eq_self.mpr (List.forall_mem_map.mpr fun i hi => ?_)
    exact hasStatement_normalIndex (List.mem_filter.mp hi).2
  rw [normalEntity, List.filter_append, List.filter_append, hcolumns, htable, hstatements]
  rfl

theorem uniqueAt_normalEntity (ha : a ∈ e.attrs) : uniqueAt (normalEntity e) (normalAttribute e a) = uniqueAt e a := by
  rw [Bool.eq_iff_iff, uniqueAt, List.any_eq_true]
  constructor
  · rintro ⟨i, hi, hunique⟩
    have hown := isOwnColumnUnique_of_column hunique
    rcases List.mem_append.mp hi with hi | hi
    · rcases List.mem_append.mp hi with hi | hi
      · obtain ⟨b, hb, rfl⟩ := List.mem_map.mp hi
        have hname : b.name = a.name := (isColumnUnique_columnIndex b a.name).mp hunique
        have hb := (List.mem_filter.mp hb).2
        rwa [uniqueAt, hname] at hb
      · rw [isOwnColumnUnique_of_table (List.mem_filter.mp hi).2] at hown
        contradiction
    · obtain ⟨j, hj, rfl⟩ := List.mem_map.mp hi
      rw [(hasStatement_iff.mp (hasStatement_normalIndex (List.mem_filter.mp hj).2)).1] at hown
      contradiction
  · intro hunique
    refine ⟨columnIndex a, ?_, (isColumnUnique_columnIndex a a.name).mpr rfl⟩
    exact List.mem_append_left _ (List.mem_append_left _
      (List.mem_map_of_mem (List.mem_filter.mpr ⟨ha, hunique⟩)))

theorem writtenIndexes_normalEntity : writtenIndexes (normalEntity e) = (normalEntity e).indexes := by
  have hcolumns : ((normalEntity e).attrs.filter (uniqueAt (normalEntity e))).map columnIndex =
      (e.attrs.filter (uniqueAt e)).map columnIndex := by
    have hfilter : e.attrs.filter (uniqueAt (normalEntity e) ∘ normalAttribute e) = e.attrs.filter (uniqueAt e) :=
      List.filter_congr fun a ha => uniqueAt_normalEntity e ha
    show ((e.attrs.map (normalAttribute e)).filter _).map columnIndex = _
    rw [List.filter_map, hfilter, List.map_map]
    rfl
  rw [writtenIndexes, filter_isTableUnique_normalEntity, filter_hasStatement_normalEntity]
  exact congrArg (fun columns => columns ++ _ ++ _) hcolumns

end

/-- Names that are written as expressions are read as those columns. -/
theorem spellableDefinition_columnList (hsingle : ∀ path ∈ attrs, ∃ name, path = [name]) (hnulls : ["nulls"] ∉ attrs)
    (hcomplex : ¬attrs.all isSimpleColumn = true) :
    SpellableDefinition (attrs.map fun path => Flavor.postgres.quoteName (path.headD "")) attrs where
  expression := List.forall_mem_map.mpr fun path hpath => by
    obtain ⟨name, rfl⟩ := hsingle path hpath
    exact expressionText_quoteName fun hname => hnulls (hname ▸ hpath)
  complex := by
    obtain ⟨path, hpath, hother⟩ : ∃ path ∈ attrs, ¬isSimpleColumn path = true := by simpa using hcomplex
    exact ⟨_, List.mem_map_of_mem hpath, by simpa [isSimpleColumn] using hother⟩
  attrs := by
    have hcolumns : (attrs.map fun path => Flavor.postgres.quoteName (path.headD "")).flatMap columnsOf =
        attrs.map fun path => ⟨none, path.headD ""⟩ := by
      simp only [List.flatMap_map, columnsOf_quoteName]
      exact List.map_eq_flatMap.symm
    have hown : (attrs.map fun path => (⟨none, path.headD ""⟩ : ColumnRef)).filter (·.scope.isNone) = _ :=
      List.filter_eq_self.mpr (List.forall_mem_map.mpr fun _ _ => rfl)
    rw [ownColumns, hcolumns, hown, List.map_map]
    refine ((List.map_congr_left fun path hpath => ?_).trans (List.map_id attrs)).symm
    obtain ⟨name, rfl⟩ := hsingle path hpath
    rfl

theorem spellable_normalIndex (hbuilt : BuiltIndex i) (h : SettledIndex i) : SpellableStatement (normalIndex i) := by
  have hcondition : ∀ text ∈ i.condition, ExpressionText (fun _ => false) text :=
    fun text htext => (hbuilt.condition text htext).closed (h.condition text htext)
  rw [normalIndex]
  split
  · rename_i definition hdefinition
    refine ⟨h.name, hcondition, fun hnone => absurd (hdefinition.symm.trans hnone) nofun, fun d hd => ?_⟩
    obtain rfl : definition = d := Option.some.inj (hdefinition.symm.trans hd)
    obtain ⟨htext, hexpression, hcomplex⟩ := hbuilt.definition definition hdefinition
    exact ⟨_, htext, hexpression, hcomplex, rfl⟩
  · rename_i hdefinition
    have hnulls := h.columns hdefinition
    split
    · rename_i hsimple
      refine ⟨h.name, hcondition, fun _ => ⟨⟨hbuilt.nonempty hdefinition, hbuilt.single⟩, fun name hname => ?_⟩, ?_⟩
      · have hread := List.all_eq_true.mp hsimple [name] hname
        exact spellableIndexColumn_of_simple (fun hnull => hnulls (hnull ▸ hname)) hread
      · rw [hdefinition]
        nofun
    · rename_i hcomplex
      refine ⟨h.name, hcondition, nofun, ?_⟩
      rintro _ ⟨⟩
      exact ⟨_, rfl, spellableDefinition_columnList hbuilt.single hnulls hcomplex⟩

-- ---------------------------------------------------------------------------
-- Entities and schemas
-- ---------------------------------------------------------------------------

theorem hasAttribute_normalEntity (e : Entity) (path : AttributePath) :
    (normalEntity e).hasAttribute path = e.hasAttribute path := by
  have hfind : ∀ name, (normalEntity e).attrs.find? (·.name == name) =
      (e.attrs.find? (·.name == name)).map (normalAttribute e) := fun name => List.find?_map
  rw [Entity.hasAttribute, Entity.hasAttribute, Entity.attribute?, Entity.attribute?]
  rcases path with _ | ⟨name, _ | ⟨next, rest⟩⟩
  · rfl
  · rw [findAttribute?, findAttribute?, hfind, Option.isSome_map]
  · rw [findAttribute?, findAttribute?, hfind]
    · cases e.attrs.find? (·.name == name) <;> rfl
    · exact List.cons_ne_nil next rest
    · exact List.cons_ne_nil next rest

/-- A key that is written at its column makes this column not null. -/
theorem required_normalEntity {key : PrimaryKey} (hkey : e.primaryKey = some key) (hsettled : SettledKey e key) :
    ∀ a ∈ (normalEntity e).attrs, [a.name] ∈ key.attrs → a.nullable = false := by
  refine List.forall_mem_map.mpr fun a ha hmem => ?_
  show (!keyedAt e a && a.nullable) = false
  cases hat : keyAtColumn e key with
  | false => rw [hsettled hat a ha hmem, Bool.and_false]
  | true =>
    rw [keyAtColumn] at hat
    split at hat
    · rename_i path hpath
      obtain rfl : [a.name] = path := by
        rw [hpath] at hmem
        exact List.mem_singleton.mp hmem
      have hkeyed : keyedAt e a = true := by
        simp [keyedAt, Entity.isWholeKey, hkey, hpath, (Bool.and_eq_true_iff.mp hat).1]
      rw [hkeyed]
      rfl
    · contradiction

theorem normal_normalEntity (hbuilt : BuiltEntity e) (h : SettledEntity e) : NormalEntity (normalEntity e) where
  space := hbuilt.space
  attrs := List.forall_mem_map.mpr fun a ha => normal_normalAttribute (hbuilt.attrs a ha) (h.attrs a ha) e
  distinct := by
    have hnames : (normalEntity e).attrs.map (·.name) = e.attrs.map (·.name) := List.map_map
    rw [hnames]
    exact h.distinct
  key key hkey := ⟨hbuilt.key key hkey, required_normalEntity hkey (h.key key hkey)⟩
  index := by
    refine List.forall_mem_append.mpr ⟨List.forall_mem_append.mpr ⟨List.forall_mem_map.mpr fun a _ => ?_, ?_⟩,
      List.forall_mem_map.mpr fun i hi => ?_⟩
    · refine ⟨fun htable => ?_, fun hstatement => ?_, rfl⟩
      · rw [isTableUnique_columnIndex] at htable
        contradiction
      · rw [hasStatement_columnIndex] at hstatement
        contradiction
    · intro i hi
      obtain ⟨hmem, htable⟩ := List.mem_filter.mp hi
      refine ⟨fun _ => ⟨?_, (hbuilt.index i hmem).single⟩, fun hstatement => ?_, (hbuilt.index i hmem).doc⟩
      · simp only [isTableUnique, Bool.and_eq_true, Bool.not_eq_true', List.isEmpty_eq_false_iff] at htable
        exact htable.1.2
      · rw [(hasStatement_iff.mp hstatement).2] at htable
        contradiction
    · obtain ⟨hmem, hstatement⟩ := List.mem_filter.mp hi
      refine ⟨fun htable => ?_, fun _ => spellable_normalIndex (hbuilt.index i hmem) (h.index i hi), ?_⟩
      · rw [(hasStatement_iff.mp (hasStatement_normalIndex hstatement)).2] at htable
        contradiction
      · obtain ⟨attrs, definition, hnormal⟩ := normalIndex_eq i
        rw [hnormal]
        exact (hbuilt.index i hmem).doc
  indexes := writtenIndexes_normalEntity e
  check := List.forall_mem_map.mpr fun c hc => by
    refine ⟨(hbuilt.check c hc).predicate, ?_, (hbuilt.check c hc).doc⟩
    exact List.filter_congr fun path _ => (hasAttribute_normalEntity e path).symm
  doc := hbuilt.doc
  stats := hbuilt.stats
  extra := hbuilt.extra

theorem ids_normalForm (db : Database) : (normalForm db).entities.map Entity.id = db.entities.map Entity.id :=
  List.map_map

theorem normal_normalForm (hbuilt : Built db) (h : Settled db) : Normal (normalForm db) where
  entity := List.forall_mem_map.mpr fun e he => normal_normalEntity (hbuilt.entity e he) (h.entity e he)
  entities := by
    rw [ids_normalForm]
    exact hbuilt.entities
  type t ht := normal_namedType (hbuilt.type t ht) (h.type t ht)
  relation r hr := { hbuilt.relation r hr with source := ids_normalForm db ▸ (hbuilt.relation r hr).source }
  extra := hbuilt.extra
  stats := hbuilt.stats

end SchemaDialects.Sql
