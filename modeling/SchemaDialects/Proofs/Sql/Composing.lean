import SchemaDialects.Proofs.Sql.Sections
import SchemaDialects.Proofs.Sql.Stumbling

/-!
# Scripts command by command

The commands of which the script of a schema consists (`sectionsOf`, `writeSchema_sections`). Less is asked of
the schema than for reading the same schema again: attributes may be nested, keys and indexes may be about
nested attributes, of which the outermost names are written, and relations may lead anywhere.
-/

namespace SchemaDialects.Sql

-- ---------------------------------------------------------------------------
-- Commands
-- ---------------------------------------------------------------------------

def typeCommand (t : NamedType) : Command := .type t.space t.name (bodyOf t)

/-- An index over columns. -/
def columnsForm (id : EntityName) (i : Index) : IndexForm :=
  ⟨i.name, i.unique, id, (namesOf i.attrs).map Flavor.postgres.quoteName, i.condition⟩

def indexCommands (e : Entity) : List Command :=
  (e.indexes.filter hasStatement).map fun i => .index (columnsForm e.id i)

def docCommands (e : Entity) : List Command :=
  e.doc.toList.map (.tableDoc e.id) ++ e.attrs.flatMap fun a => a.doc.toList.map (.columnDoc e.id a.name)

/-- A table with its indexes and comments. -/
def tableCommands (e : Entity) : List Command :=
  .table e.id (e.attrs.map (writtenColumn e)) (constraintsOf e) :: (indexCommands e ++ docCommands e)

/-- The action that a text names in letters of whichever case. -/
def actionOf (text : String) : Option ReferentialAction :=
  [.cascade, .restrict, .setNull, .setDefault, .noAction].find? fun a => Text.uppercase a.text == Text.uppercase text

def relationCommand (r : Relation) : Command :=
  .key r.source.entity (foreignKeyOf r (r.onDelete.bind actionOf) (r.onUpdate.bind actionOf))

def sectionsOf (db : Database) : List (List Command) :=
  (if db.types.isEmpty then [] else [db.types.map typeCommand]) ++ db.entities.map tableCommands ++
    if db.relations.isEmpty then [] else [db.relations.map relationCommand]

theorem flatten_optional (commands : List Command) :
    (if commands.isEmpty then [] else [commands]).flatten = commands := by
  cases commands <;> simp

theorem flatten_sectionsOf (db : Database) : (sectionsOf db).flatten =
    db.types.map typeCommand ++ (db.entities.map tableCommands).flatten ++ db.relations.map relationCommand := by
  have htypes := flatten_optional (db.types.map typeCommand)
  have hrelations := flatten_optional (db.relations.map relationCommand)
  rw [List.isEmpty_map] at htypes hrelations
  rw [sectionsOf, List.flatten_append, List.flatten_append, htypes, hrelations]

-- ---------------------------------------------------------------------------
-- Schemas that can be written so
-- ---------------------------------------------------------------------------

/-- A type whose values and fields can be read again. -/
structure ScriptableType (t : NamedType) : Prop where
  values : ∀ values ∈ t.values, ∀ value ∈ values, Literal value
  definition : t.values = none → ∀ definition ∈ t.definition,
    definition = ", ".intercalate ((fieldsOf definition).map Field.text) ∧ ∀ f ∈ fieldsOf definition, f.Fits

/-- A column whose type can be read again, without a value. -/
structure ScriptableAttribute (a : Attribute) : Prop where
  type : ReadableType (spellType a.type .postgres)
  value : a.defaultValue = none
  doc : ∀ doc ∈ a.doc, Literal doc

/-- An index over columns. If it has a statement of its own, no word of the grammar may stand in it as a name. -/
structure ScriptableIndex (i : Index) : Prop where
  attrs : i.attrs ≠ []
  condition : i.condition = none
  definition : i.definition = none
  name : hasStatement i = true → i.name ≠ some "concurrently"
  columns : hasStatement i = true → "nulls" ∉ namesOf i.attrs

structure ScriptableEntity (e : Entity) : Prop where
  attrs : ∀ a ∈ e.attrs, ScriptableAttribute a
  key : ∀ key ∈ e.primaryKey, key.attrs ≠ []
  index : ∀ i ∈ e.indexes, ScriptableIndex i
  checks : e.checks = []
  doc : ∀ doc ∈ e.doc, Literal doc

structure ScriptableRelation (r : Relation) : Prop where
  onDelete : ∀ text ∈ r.onDelete, (actionOf text).isSome = true
  onUpdate : ∀ text ∈ r.onUpdate, (actionOf text).isSome = true

structure Scriptable (db : Database) : Prop where
  type : ∀ t ∈ db.types, ScriptableType t
  entity : ∀ e ∈ db.entities, ScriptableEntity e
  relation : ∀ r ∈ db.relations, ScriptableRelation r

-- ---------------------------------------------------------------------------
-- The text
-- ---------------------------------------------------------------------------

theorem sectionText_map (xs : List α) (command : α → Command) :
    sectionText (xs.map command) = String.join (xs.map fun x => (command x).text ++ ";\n") := by
  rw [sectionText, List.map_map]
  rfl

theorem sectionText_singleton (c : Command) : sectionText [c] = c.text ++ ";\n" := by
  rw [sectionText, List.map_singleton, String.join_cons, String.join_nil, String.append_empty]

theorem sectionText_append (cs ds : List Command) : sectionText (cs ++ ds) = sectionText cs ++ sectionText ds := by
  rw [sectionText, sectionText, sectionText, List.map_append, String.join_append]

theorem docTexts_eq (e : Entity) : String.join (Flavor.postgres.commentTexts e) = sectionText (docCommands e) := by
  have htexts : Flavor.postgres.commentTexts e = (docCommands e).map fun c => c.text ++ ";\n" := by
    rw [docCommands, List.map_append, List.map_map, List.map_flatMap]
    refine congrArg₂ (· ++ ·) rfl (List.flatMap_congr fun a _ => ?_)
    rw [List.map_map]
    rfl
  rw [htexts, sectionText]

theorem tableText_eq (types : List NamedType) (h : ∀ i ∈ e.indexes, i.definition = none) :
    Flavor.postgres.tableText types e = sectionText (tableCommands e) := by
  have hindexes : (e.indexes.filter hasStatement).map (Flavor.postgres.indexText e) =
      (e.indexes.filter hasStatement).map fun i => (Command.index (columnsForm e.id i)).text ++ ";\n" := by
    refine List.map_congr_left fun i hi => indexText_written e ?_
    rw [h i (List.mem_filter.mp hi).1, Option.getD_none, ← columnList_names, columnListText, ← pathsOf,
      columnList_pathsOf]
  have htable : sectionText (tableCommands e) =
      (Command.table e.id (e.attrs.map (writtenColumn e)) (constraintsOf e)).text ++ ";\n" ++
        String.join ((e.indexes.filter hasStatement).map (Flavor.postgres.indexText e)) ++
        String.join (Flavor.postgres.commentTexts e) := by
    rw [hindexes, docTexts_eq, tableCommands, ← List.singleton_append, sectionText_append, sectionText_append,
      sectionText_singleton, indexCommands, sectionText_map]
    simp only [String.append_assoc]
  rw [htable, ← createText_written types]
  rfl

theorem names_actionOf (h : ∀ t ∈ text, (actionOf t).isSome = true) : Names text (text.bind actionOf) := by
  cases text with
  | none => rfl
  | some text =>
    obtain ⟨action, haction⟩ := Option.isSome_iff_exists.mp (h text rfl)
    have hnamed : Text.uppercase action.text = Text.uppercase text := by simpa using List.find?_some haction
    rw [Names, Option.bind_some, haction, Option.map_some, Option.map_some, hnamed]

theorem relationTexts_eq {relations : List Relation} (h : ∀ r ∈ relations, ScriptableRelation r) :
    String.join (relations.map Flavor.postgres.relationText) = sectionText (relations.map relationCommand) := by
  rw [sectionText_map]
  refine congrArg String.join (List.map_congr_left fun r hr => ?_)
  exact relationText_eq (names_actionOf (h r hr).onDelete) (names_actionOf (h r hr).onUpdate)

theorem writeSchema_sections (h : Scriptable db) :
    writeSchema db .postgres = .ok ("\n".intercalate ((sectionsOf db).map sectionText)) := by
  have htypes : db.types.mapM Flavor.postgres.typeText =
      .ok (db.types.map fun t => (typeCommand t).text ++ ";\n") :=
    typeTexts_eq fun t ht hvalues definition hdefinition =>
      ((h.type t ht).definition hvalues definition hdefinition).1
  have htables : db.entities.map (Flavor.postgres.tableText db.types) =
      (db.entities.map tableCommands).map sectionText := by
    rw [List.map_map]
    exact List.map_congr_left fun e he => tableText_eq db.types fun i hi => ((h.entity e he).index i hi).definition
  have hoptional {α : Type} (xs : List α) (command : α → Command) :
      (if (sectionText (xs.map command)).isEmpty then [] else [sectionText (xs.map command)]) =
        (if xs.isEmpty then [] else [xs.map command]).map sectionText := by
    rw [section_optional, List.isEmpty_map]
  rw [sectionsOf, List.map_append, List.map_append, ← htables, ← hoptional, ← hoptional, ← relationTexts_eq h.relation,
    sectionText_map, writeSchema, if_neg (by decide), htypes]
  rfl

-- ---------------------------------------------------------------------------
-- What can be read of it
-- ---------------------------------------------------------------------------

theorem forall_sectionsOf {P : Command → Prop} (htype : ∀ t ∈ db.types, P (typeCommand t))
    (htable : ∀ e ∈ db.entities, ∀ c ∈ tableCommands e, P c)
    (hrelation : ∀ r ∈ db.relations, P (relationCommand r)) : ∀ c ∈ (sectionsOf db).flatten, P c := by
  rw [flatten_sectionsOf]
  refine List.forall_mem_append.mpr ⟨List.forall_mem_append.mpr ⟨List.forall_mem_map.mpr htype, ?_⟩,
    List.forall_mem_map.mpr hrelation⟩
  exact List.forall_mem_flatten.mpr (List.forall_mem_map.mpr htable)

theorem typeCommand_fits (h : ScriptableType t) : (typeCommand t).Fits := by
  obtain ⟨space, name, values, definition, doc, extra⟩ := t
  cases values with
  | some values => exact h.values values rfl
  | none =>
    cases definition with
    | none => trivial
    | some definition => exact (h.definition rfl definition rfl).2

theorem columnsForm_fits (h : ScriptableIndex i) (hstatement : hasStatement i = true) (id : EntityName) :
    (columnsForm id i).Fits where
  name := h.name hstatement
  nonempty := by simpa [columnsForm] using namesOf_ne_nil h.attrs
  columns := List.forall_mem_map.mpr fun name hname =>
    expressionText_quoteName fun hnulls => h.columns hstatement (hnulls ▸ hname)
  condition := by
    intro text htext
    exact absurd (h.condition.symm.trans htext) (Option.some_ne_none text).symm

theorem tableCommands_fit (h : ScriptableEntity e) : ∀ c ∈ tableCommands e, c.Fits := by
  have htable : (Command.table e.id (e.attrs.map (writtenColumn e)) (constraintsOf e)).Fits := by
    refine table_fits (fun a ha => column_fits (h.attrs a ha).type ?_) h.key
      (fun i hi _ => (h.index i hi).attrs) ?_
    · rw [(h.attrs a ha).value]
      exact fun text htext => absurd htext (Option.some_ne_none text).symm
    · rw [h.checks]
      exact fun c hc => absurd hc List.not_mem_nil
  have hindexes : ∀ c ∈ indexCommands e, c.Fits := by
    refine List.forall_mem_map.mpr fun i hi => ?_
    obtain ⟨hmem, hstatement⟩ := List.mem_filter.mp hi
    exact columnsForm_fits (h.index i hmem) hstatement e.id
  have hdocs : ∀ c ∈ docCommands e, c.Fits := by
    refine List.forall_mem_append.mpr ⟨?_, List.forall_mem_flatMap.mpr fun a ha => ?_⟩
    · exact List.forall_mem_map.mpr fun doc hdoc => h.doc doc (Option.mem_toList.mp hdoc)
    · exact List.forall_mem_map.mpr fun doc hdoc => (h.attrs a ha).doc doc (Option.mem_toList.mp hdoc)
  exact List.forall_mem_cons.mpr ⟨htable, List.forall_mem_append.mpr ⟨hindexes, hdocs⟩⟩

/-- The foreign key of a relation is read, or passed over if it leaves out columns. -/
theorem gives_relation (script : List Char) (r : Relation) :
    (relationCommand r).Gives script fun outcome => (relationCommand r).Meant outcome ∨ outcome.1 = [] := by
  by_cases hsource : namesOf r.source.attrs = []
  · exact (gives_key script rfl (.inl hsource)).mono fun _ h => .inr h
  · by_cases htarget : namesOf r.target.attrs = []
    · exact (gives_key script rfl (.inr htarget)).mono fun _ h => .inr h
    · have hfits : (relationCommand r).Fits := ⟨⟨hsource, htarget⟩, rfl⟩
      exact (gives_command script hfits).mono fun _ h => .inl h

theorem lexes_sections (h : Scriptable db) :
    Lexes ("\n".intercalate ((sectionsOf db).map sectionText)).toList [] (scriptTokens (sectionsOf db).flatten) :=
  lexes_script (List.forall_mem_flatten.mp (forall_sectionsOf (fun t ht => (typeCommand_fits (h.type t ht)).even)
    (fun e he c hc => (tableCommands_fit (h.entity e he) c hc).even) fun _ _ => trivial))

end SchemaDialects.Sql
