import SchemaDialects.Proofs.Sql.IndexColumns

/-!
# The sections of a script

What the writer puts out for types, for a table with what belongs to it and for relations is a text of
commands each time (`Carries`), and carrying out the commands builds the schema up: its types, then each
table with its indexes and comments, then the relations.
-/

namespace SchemaDialects.Sql

-- ---------------------------------------------------------------------------
-- Texts of commands
-- ---------------------------------------------------------------------------

/-- The text is written as commands, and carrying them out leads from one schema to another. -/
def Carries (text : String) (before after : Database) : Prop :=
  ∃ commands, text = sectionText commands ∧ (∀ c ∈ commands, c.Fits) ∧ Leads commands before after

namespace Carries

theorem single (hleads : Leads [c] before after) (h : c.Fits) :
    Carries (c.text ++ ";\n") before after :=
  ⟨[c], by simp [sectionText, String.join_cons], List.forall_mem_singleton.mpr h, hleads⟩

theorem append (h : Carries text before next) (hmore : Carries more next after) :
    Carries (text ++ more) before after := by
  obtain ⟨cs, rfl, hcs, hleads⟩ := h
  obtain ⟨ds, rfl, hds, hrest⟩ := hmore
  refine ⟨cs ++ ds, ?_, List.forall_mem_append.mpr ⟨hcs, hds⟩, hleads.append hrest⟩
  rw [sectionText, sectionText, sectionText, List.map_append, String.join_append]

theorem empty : Carries "" db db := ⟨[], rfl, by simp, .nil⟩

/-- Texts for the items of a list, each leading one item further. -/
theorem join (xs : List α) (text : α → String) (after : List α → Database)
    (h : ∀ front x back, xs = front ++ x :: back →
      Carries (text x) (after front) (after (front ++ [x]))) :
    Carries (String.join (xs.map text)) (after []) (after xs) := by
  suffices hall : ∀ front back, xs = front ++ back →
      Carries (String.join (back.map text)) (after front) (after xs) from hall [] xs rfl
  intro front back hxs
  induction back generalizing front with
  | nil =>
    rw [hxs, List.append_nil]
    exact empty
  | cons x back ih =>
    rw [List.map_cons, String.join_cons]
    refine (h front x back hxs).append (ih (front ++ [x]) ?_)
    rw [hxs, List.append_assoc, List.singleton_append]

end Carries

/-- A section that is left out when there is nothing in it. -/
theorem section_optional (commands : List Command) :
    (if (sectionText commands).isEmpty then [] else [sectionText commands]) =
      (if commands.isEmpty then [] else [commands]).map sectionText := by
  cases commands with
  | nil => rfl
  | cons c commands =>
    have hsome : ¬(sectionText (c :: commands)).isEmpty = true := by
      rw [String.isEmpty_iff, sectionText, List.map_cons, String.join_cons, String.append_assoc]
      simp
    rw [if_neg hsome]
    rfl

/-- The same for the sections of a script. -/
def CarriesAll (sections : List String) (before after : Database) : Prop :=
  ∃ commands : List (List Command), sections = commands.map sectionText ∧
    (∀ s ∈ commands, ∀ c ∈ s, c.Fits) ∧ Leads commands.flatten before after

namespace CarriesAll

theorem nil : CarriesAll [] db db := ⟨[], rfl, by simp, .nil⟩

theorem single (h : Carries text before after) : CarriesAll [text] before after := by
  obtain ⟨cs, rfl, hcs, hleads⟩ := h
  exact ⟨[cs], rfl, List.forall_mem_singleton.mpr hcs, by simpa using hleads⟩

theorem append (h : CarriesAll texts before next) (hmore : CarriesAll more next after) :
    CarriesAll (texts ++ more) before after := by
  obtain ⟨cs, rfl, hcs, hleads⟩ := h
  obtain ⟨ds, rfl, hds, hrest⟩ := hmore
  refine ⟨cs ++ ds, List.map_append.symm, List.forall_mem_append.mpr ⟨hcs, hds⟩, ?_⟩
  rw [List.flatten_append]
  exact hleads.append hrest

theorem map (xs : List α) (text : α → String) (after : List α → Database)
    (h : ∀ front x back, xs = front ++ x :: back →
      Carries (text x) (after front) (after (front ++ [x]))) :
    CarriesAll (xs.map text) (after []) (after xs) := by
  suffices hall : ∀ front back, xs = front ++ back →
      CarriesAll (back.map text) (after front) (after xs) from hall [] xs rfl
  intro front back hxs
  induction back generalizing front with
  | nil =>
    rw [hxs, List.append_nil]
    exact nil
  | cons x back ih =>
    refine (single (h front x back hxs)).append (ih (front ++ [x]) ?_)
    rw [hxs, List.append_assoc, List.singleton_append]

end CarriesAll

-- ---------------------------------------------------------------------------
-- Types
-- ---------------------------------------------------------------------------

theorem typeText_eq (h : t.values = none → ∀ definition ∈ t.definition,
      definition = ", ".intercalate ((fieldsOf definition).map Field.text)) :
    Flavor.postgres.typeText t = .ok ((Command.type t.space t.name (bodyOf t)).text ++ ";\n") := by
  obtain ⟨space, name, values, definition, doc, extra⟩ := t
  have hflavor : Flavor.postgres ≠ .mysql := by decide
  have hend : ");\n" = ")" ++ ";\n" := by decide
  have htext (body : TypeBody) : (Command.type space name body).text =
      "CREATE TYPE " ++ Flavor.postgres.qualified space name ++ body.text := rfl
  rw [Flavor.typeText]
  cases values with
  | some values =>
    have hbody : (TypeBody.enumeration values).text =
        " AS ENUM (" ++ ", ".intercalate (values.map stringLiteral) ++ ")" := rfl
    simp only [if_neg hflavor, bodyOf, htext, hbody, hend, String.append_assoc]
  | none =>
    cases definition with
    | none =>
      have hbody : TypeBody.shell.text = "" := rfl
      simp only [if_neg hflavor, bodyOf, htext, hbody, String.append_empty]
    | some definition =>
      have hbody : (TypeBody.composite (fieldsOf definition)).text =
          " AS (" ++ ", ".intercalate ((fieldsOf definition).map Field.text) ++ ")" := rfl
      rw [← h rfl definition rfl] at hbody
      simp only [if_neg hflavor, bodyOf, htext, hbody, hend, String.append_assoc]

theorem typeTexts_eq {types : List NamedType} (h : ∀ t ∈ types, t.values = none → ∀ definition ∈ t.definition,
      definition = ", ".intercalate ((fieldsOf definition).map Field.text)) :
    types.mapM Flavor.postgres.typeText =
      .ok (types.map fun t => (Command.type t.space t.name (bodyOf t)).text ++ ";\n") := by
  induction types with
  | nil => rfl
  | cons t types ih =>
    obtain ⟨hfirst, hmore⟩ := List.forall_mem_cons.mp h
    rw [List.mapM_cons, typeText_eq hfirst, ih hmore]
    rfl

theorem body_fits (h : NormalNamedType t) : (bodyOf t).Fits := by
  obtain ⟨space, name, values, definition, doc, extra⟩ := t
  cases values with
  | some values => exact (h.values values rfl).1
  | none =>
    cases definition with
    | none => trivial
    | some definition => exact (h.definition definition rfl).fits

theorem types_carries (h : ∀ t ∈ types, NormalNamedType t) :
    Carries (String.join (types.map fun t => (Command.type t.space t.name (bodyOf t)).text ++ ";\n"))
      {} { types } := by
  refine Carries.join types _ (fun front => { types := front }) fun front t back hback => ?_
  have ht := h t (by rw [hback]; simp)
  exact .single (createType_leads ht) (body_fits ht)

-- ---------------------------------------------------------------------------
-- The text of a table
-- ---------------------------------------------------------------------------

/-- The column of an attribute as it is written, with its type as the flavor spells it. -/
def writtenColumn (e : Entity) (a : Attribute) : Column := ⟨a.name, spellType a.type .postgres, marksOf e a⟩

theorem columnText_written (types : List NamedType) (e : Entity) (a : Attribute) :
    Flavor.postgres.columnText types e a = (writtenColumn e a).text := by
  have hkey : (if e.isWholeKey [a.name] && (e.primaryKey.map (·.name.isNone)).getD false then " PRIMARY KEY"
      else if a.nullable then "" else " NOT NULL") = String.join ((keyMarks e a).map Mark.text) := by
    rw [keyMarks, keyedAt]
    split
    · rfl
    · split <;> rfl
  have hnumbering : (if Flavor.isAutoIncrement a then Flavor.postgres.autoIncrementText else "") =
      String.join ((numberingMarks a).map Mark.text) := by
    rw [numberingMarks]
    split <;> rfl
  have hvalue : (a.defaultValue.elim "" fun text =>
      if a.generated then " GENERATED ALWAYS AS (" ++ text ++ ") STORED" else " DEFAULT " ++ text) =
      String.join ((valueMarks a).map Mark.text) := by
    rw [valueMarks]
    cases a.defaultValue with
    | none => rfl
    | some text =>
      rw [List.map_singleton, String.join_cons, String.join_nil, String.append_empty, Option.elim_some]
      split <;> rfl
  have hunique : (if e.indexes.any (isColumnUnique [a.name]) then " UNIQUE" else "") =
      String.join ((uniqueMarks e a).map Mark.text) := by
    rw [uniqueMarks, uniqueAt]
    split <;> rfl
  have hspelled : Flavor.postgres.columnText types e a =
      Flavor.postgres.quoteName a.name ++ " " ++ spellType a.type .postgres ++
        (if e.isWholeKey [a.name] && (e.primaryKey.map (·.name.isNone)).getD false then " PRIMARY KEY"
          else if a.nullable then "" else " NOT NULL") ++
        (if Flavor.isAutoIncrement a then Flavor.postgres.autoIncrementText else "") ++
        (a.defaultValue.elim "" fun text =>
          if a.generated then " GENERATED ALWAYS AS (" ++ text ++ ") STORED" else " DEFAULT " ++ text) ++
        (if e.indexes.any (isColumnUnique [a.name]) then " UNIQUE" else "") ++ "" := by
    delta Flavor.columnText
    cases a.defaultValue <;> cases a.doc <;> rfl
  have hmarks : String.join ((marksOf e a).map Mark.text) = String.join ((keyMarks e a).map Mark.text) ++
      String.join ((numberingMarks a).map Mark.text) ++ String.join ((valueMarks a).map Mark.text) ++
      String.join ((uniqueMarks e a).map Mark.text) := by
    rw [marksOf, List.map_append, List.map_append, List.map_append, String.join_append, String.join_append,
      String.join_append]
  have hwritten : (writtenColumn e a).text = Flavor.postgres.quoteName a.name ++ " " ++
      spellType a.type .postgres ++ String.join ((marksOf e a).map Mark.text) := rfl
  rw [hspelled, hkey, hnumbering, hvalue, hunique, hwritten, hmarks, String.append_empty]
  simp only [String.append_assoc]

/-- A type in normal form is spelled as it is. -/
theorem writtenColumn_eq (h : NormalAttribute a) : writtenColumn e a = columnOf e a := by
  rw [writtenColumn, h.spelled, columnOf]

theorem columnList_names (attrs : List AttributePath) :
    columnListText (namesOf attrs) = Flavor.postgres.columnList attrs := by
  rw [columnListText, Flavor.columnList, Flavor.columnList, namesOf, List.map_map, List.map_map]
  rfl

theorem constraintLines_eq (e : Entity) :
    Flavor.postgres.constraintLines e = (constraintsOf e).map Constraint.text := by
  have hkey : Flavor.postgres.keyLines e = (keyConstraints e).map Constraint.text := by
    rw [Flavor.keyLines, keyConstraints]
    cases e.primaryKey with
    | none => rfl
    | some key =>
      show (if keyAtColumn e key then [] else [_]) =
        (if keyAtColumn e key then [] else [_]).map Constraint.text
      split
      · rfl
      · rw [List.map_singleton, Constraint.text_key, columnList_names]
        simp only [String.append_assoc]
  have hunique : (fun i : Index => Flavor.postgres.constraintName i.name ++ "UNIQUE (" ++
      Flavor.postgres.columnList i.attrs ++ ")") = Constraint.text ∘ uniqueConstraint := by
    funext i
    rw [Function.comp_apply, uniqueConstraint, Constraint.text_unique, columnList_names]
    simp only [String.append_assoc]
  have hcheck : (fun c : Check => Flavor.postgres.constraintName c.name ++ "CHECK (" ++ c.predicate ++ ")") =
      Constraint.text ∘ checkConstraint := by
    funext c
    rw [Function.comp_apply, checkConstraint, Constraint.text_check]
    simp only [String.append_assoc]
  rw [Flavor.constraintLines, constraintsOf, List.map_append, List.map_append, List.map_map, List.map_map,
    hkey, hunique, hcheck]

/-- The text of a table without its indexes and comments. -/
theorem createText_written (types : List NamedType) (e : Entity) :
    let lines := e.attrs.map (Flavor.postgres.columnText types e) ++ Flavor.postgres.constraintLines e
    "CREATE TABLE " ++ Flavor.postgres.qualifiedEntity e.id ++ " (" ++
        (if lines.isEmpty then ");\n" else "\n  " ++ ",\n  ".intercalate lines ++ "\n);\n") =
      (Command.table e.id (e.attrs.map (writtenColumn e)) (constraintsOf e)).text ++ ";\n" := by
  intro lines
  have hlines : lines = (tableParts (e.attrs.map (writtenColumn e)) (constraintsOf e)).map Part.text := by
    rw [tableParts, List.map_append, List.map_map, List.map_map, List.map_map]
    refine congrArg₂ (· ++ ·) (List.map_congr_left fun a _ => columnText_written types e a) ?_
    rw [constraintLines_eq]
    rfl
  have hbody : (if lines.isEmpty then ");\n" else "\n  " ++ ",\n  ".intercalate lines ++ "\n);\n") =
      tableBodyText (tableParts (e.attrs.map (writtenColumn e)) (constraintsOf e)) ++ ";\n" := by
    have hempty : ");\n" = ")" ++ ";\n" := by decide
    have hend : "\n);\n" = "\n)" ++ ";\n" := by decide
    rw [tableBodyText, hlines, List.isEmpty_map, hempty, hend]
    split
    · rfl
    · simp only [String.append_assoc]
  have htext : (Command.table e.id (e.attrs.map (writtenColumn e)) (constraintsOf e)).text =
      "CREATE TABLE " ++ Flavor.postgres.qualifiedEntity e.id ++ " (" ++
        tableBodyText (tableParts (e.attrs.map (writtenColumn e)) (constraintsOf e)) := rfl
  rw [hbody, htext]
  simp only [String.append_assoc]

theorem createText_eq (types : List NamedType) (h : ∀ a ∈ e.attrs, NormalAttribute a) :
    let lines := e.attrs.map (Flavor.postgres.columnText types e) ++ Flavor.postgres.constraintLines e
    "CREATE TABLE " ++ Flavor.postgres.qualifiedEntity e.id ++ " (" ++
        (if lines.isEmpty then ");\n" else "\n  " ++ ",\n  ".intercalate lines ++ "\n);\n") =
      (Command.table e.id (e.attrs.map (columnOf e)) (constraintsOf e)).text ++ ";\n" := by
  have hcolumns : e.attrs.map (writtenColumn e) = e.attrs.map (columnOf e) :=
    List.map_congr_left fun a ha => writtenColumn_eq (h a ha)
  rw [← hcolumns]
  exact createText_written types e

theorem indexText_written (e : Entity) {i : Index}
    (h : i.definition.getD (Flavor.postgres.columnList i.attrs) = ", ".intercalate columns) :
    Flavor.postgres.indexText e i = (Command.index ⟨i.name, i.unique, e.id, columns, i.condition⟩).text ++ ";\n" := by
  have hname : Flavor.postgres.indexName e i = indexNameText i.name := by
    rw [Flavor.indexName]
    cases i.name <;> rfl
  have htext : (Command.index ⟨i.name, i.unique, e.id, columns, i.condition⟩).text = "CREATE " ++
      ((if i.unique then "UNIQUE " else "") ++ "INDEX" ++ indexNameText i.name ++ " ON " ++
        Flavor.postgres.qualifiedEntity e.id ++ " (" ++ ", ".intercalate columns ++ ")" ++
        conditionText i.condition) := rfl
  delta Flavor.indexText
  rewrite [hname, h, htext]
  cases i.condition with
  | none => simp only [String.append_assoc, conditionText]
  | some condition => simp only [String.append_assoc, conditionText]

theorem columnList_pathsOf (names : List String) :
    Flavor.postgres.columnList (pathsOf names) = ", ".intercalate (names.map Flavor.postgres.quoteName) := by
  rw [Flavor.columnList, pathsOf, List.map_map]
  rfl

theorem indexText_eq {form : IndexForm} (h : form.Spells e.id i) :
    Flavor.postgres.indexText e i = (Command.index form).text ++ ";\n" := by
  obtain ⟨name, unique, table, columns, condition⟩ := form
  obtain ⟨rfl, rfl, rfl, rfl, hcolumns⟩ := h
  refine indexText_written e ?_
  cases hcolumns with
  | byName names definition attrs => rw [definition, attrs, Option.getD_none, columnList_pathsOf]
  | byText texts definition => rw [definition, Option.getD_some]

-- ---------------------------------------------------------------------------
-- Tables
-- ---------------------------------------------------------------------------

theorem namesOf_ne_nil {paths : List AttributePath} (h : paths ≠ []) : namesOf paths ≠ [] := by
  simpa [namesOf] using h

theorem column_fits (htype : ReadableType type) (h : ∀ text ∈ a.defaultValue, ValueText a.generated text) :
    Column.Fits ⟨a.name, type, marksOf e a⟩ := by
  refine ⟨htype, ?_⟩
  have hvalue : ∀ m ∈ valueMarks a, m.Fits := by
    rw [valueMarks]
    cases hdefault : a.defaultValue with
    | none => exact List.forall_mem_nil _
    | some text =>
      have htext := h text hdefault
      refine List.forall_mem_singleton.mpr ?_
      cases hgenerated : a.generated with
      | true => rwa [ValueText, if_pos hgenerated] at htext
      | false => rwa [ValueText, if_neg (by simp [hgenerated])] at htext
  refine List.forall_mem_append.mpr ⟨List.forall_mem_append.mpr ⟨List.forall_mem_append.mpr ⟨?_, ?_⟩, hvalue⟩, ?_⟩
  · rw [keyMarks]
    split
    · exact List.forall_mem_singleton.mpr trivial
    · split
      · exact List.forall_mem_nil _
      · exact List.forall_mem_singleton.mpr trivial
  · rw [numberingMarks]
    split
    · exact List.forall_mem_singleton.mpr trivial
    · exact List.forall_mem_nil _
  · rw [uniqueMarks]
    split
    · exact List.forall_mem_singleton.mpr trivial
    · exact List.forall_mem_nil _

theorem table_fits {column : Attribute → Column} (hcolumns : ∀ a ∈ e.attrs, (column a).Fits)
    (hkey : ∀ key ∈ e.primaryKey, key.attrs ≠ []) (hunique : ∀ i ∈ e.indexes, isTableUnique i = true → i.attrs ≠ [])
    (hcheck : ∀ c ∈ e.checks, ExpressionText (fun _ => false) c.predicate) :
    (Command.table e.id (e.attrs.map column) (constraintsOf e)).Fits := by
  refine List.forall_mem_append.mpr ⟨?_, ?_⟩
  · rintro _ hp
    obtain ⟨_, hc, rfl⟩ := List.mem_map.mp hp
    obtain ⟨a, ha, rfl⟩ := List.mem_map.mp hc
    exact hcolumns a ha
  · rintro _ hp
    obtain ⟨c, hc, rfl⟩ := List.mem_map.mp hp
    refine forall_constraintsOf (P := fun c => (Part.constraint c).Fits) ?_ ?_ ?_ c hc
    · exact fun key hmem => ⟨namesOf_ne_nil (hkey key hmem), fun _ => trivial⟩
    · exact fun i hi htable => ⟨namesOf_ne_nil (hunique i hi htable), fun _ => trivial⟩
    · exact fun c hc => ⟨hcheck c hc, fun _ => trivial⟩

theorem normalTable_fits (h : NormalEntity e) :
    (Command.table e.id (e.attrs.map (columnOf e)) (constraintsOf e)).Fits :=
  table_fits (fun a ha => column_fits (h.attrs a ha).type (h.attrs a ha).value)
    (fun key hkey => (h.key key hkey).columns.nonempty)
    (fun i hi htable => ((h.index i hi).constraint htable).nonempty) fun c hc => (h.check c hc).predicate

theorem join_flatMap {xs : List α} {f : α → List String} :
    String.join (xs.flatMap f) = String.join (xs.map fun x => String.join (f x)) := by
  induction xs with
  | nil => rfl
  | cons x xs ih => rw [List.flatMap_cons, String.join_append, ih, List.map_cons, String.join_cons]

theorem bareAttribute_of_doc_none (h : a.doc = none) : bareAttribute a = a := by
  obtain ⟨_, _, _, _, _, _, doc, _⟩ := a
  obtain rfl : doc = none := h
  rfl

theorem bareAttribute_with_doc (h : a.doc = some doc) : { bareAttribute a with doc := some doc } = a := by
  obtain ⟨_, _, _, _, _, _, doc', _⟩ := a
  obtain rfl : doc' = some doc := h
  rfl

section
variable {db : Database} {e : Entity} (h : NormalEntity e) (hnew : e.id ∉ db.entities.map Entity.id)

include h hnew

/-- The statements of indexes add the indexes that the table does not have yet. -/
theorem indexes_carries :
    Carries (String.join ((e.indexes.filter hasStatement).map (Flavor.postgres.indexText e)))
      (withTable db (bareEntity e))
      (withTable db { e with attrs := e.attrs.map bareAttribute, doc := none }) := by
  have hstep := Carries.join (e.indexes.filter hasStatement) (Flavor.postgres.indexText e)
    fun front => withTable db { bareEntity e with indexes := (bareEntity e).indexes ++ front }
  have hall : (bareEntity e).indexes ++ e.indexes.filter hasStatement = e.indexes := h.indexes
  rw [List.append_nil, hall] at hstep
  refine hstep fun front i back hback => ?_
  have hi : i ∈ e.indexes.filter hasStatement := by
    rw [hback]
    simp
  obtain ⟨hmem, hown⟩ := List.mem_filter.mp hi
  have hindex := h.index i hmem
  obtain ⟨form, hform, hfits⟩ := exists_form (hindex.statement hown) e.id
  rw [indexText_eq hform, ← List.append_assoc]
  exact .single (index_leads hform hindex.doc hnew h.space) hfits

/-- The comment on the table gives it its text. -/
theorem tableDoc_carries :
    Carries (String.join (e.doc.toList.map fun doc =>
        "COMMENT ON TABLE " ++ Flavor.postgres.qualifiedEntity e.id ++ " IS " ++ stringLiteral doc ++ ";\n"))
      (withTable db { e with attrs := e.attrs.map bareAttribute, doc := none })
      (withTable db { e with attrs := e.attrs.map bareAttribute }) := by
  cases hdoc : e.doc with
  | none => exact .empty
  | some doc =>
    rw [Option.toList_some, List.map_singleton, String.join_cons, String.join_nil, String.append_empty]
    exact .single (tableDoc_leads { e with attrs := e.attrs.map bareAttribute, doc := none } hnew
      h.space doc) (h.doc doc hdoc)

/-- The comment on one column: the columns in front of it have theirs, those behind it do not yet. -/
theorem columnDoc_carries (hback : e.attrs = front ++ a :: back) :
    Carries (String.join (a.doc.toList.map fun doc => "COMMENT ON COLUMN " ++
        Flavor.postgres.qualifiedEntity e.id ++ "." ++ Flavor.postgres.quoteName a.name ++ " IS " ++
          stringLiteral doc ++ ";\n"))
      (withTable db { e with attrs := front ++ bareAttribute a :: back.map bareAttribute })
      (withTable db { e with attrs := front ++ a :: back.map bareAttribute }) := by
  cases hdoc : a.doc with
  | none =>
    rw [bareAttribute_of_doc_none hdoc]
    exact .empty
  | some doc =>
    have ha : a ∈ e.attrs := by
      rw [hback]
      simp
    have hdistinct : ∀ b ∈ front, b.name ≠ a.name := by
      have hnames := h.distinct
      rw [hback, List.map_append, List.map_cons, List.nodup_append] at hnames
      exact fun b hb => hnames.2.2 _ (List.mem_map_of_mem hb) _ List.mem_cons_self
    rw [Option.toList_some, List.map_singleton, String.join_cons, String.join_nil, String.append_empty]
    have hleads := columnDoc_leads
      { e with attrs := front ++ bareAttribute a :: back.map bareAttribute } hnew h.space rfl hdistinct doc
    rw [bareAttribute_with_doc hdoc] at hleads
    exact .single hleads ((h.attrs a ha).doc doc hdoc)

/-- Comments give the table and its columns their texts. -/
theorem comments_carries :
    Carries (String.join (Flavor.postgres.commentTexts e))
      (withTable db { e with attrs := e.attrs.map bareAttribute, doc := none }) (withTable db e) := by
  have hcolumns := Carries.join e.attrs
    (fun a => String.join (a.doc.toList.map fun doc => "COMMENT ON COLUMN " ++
      Flavor.postgres.qualifiedEntity e.id ++ "." ++ Flavor.postgres.quoteName a.name ++ " IS " ++
        stringLiteral doc ++ ";\n"))
    fun front => withTable db { e with attrs := front ++ (e.attrs.drop front.length).map bareAttribute }
  rw [List.length_nil, List.drop_zero, List.nil_append, List.drop_length, List.map_nil, List.append_nil,
    ← join_flatMap] at hcolumns
  have hall := (tableDoc_carries h hnew).append (hcolumns fun front a back hback => ?_)
  · rw [← String.join_append] at hall
    exact hall
  have hnext : e.attrs.drop (front ++ [a]).length = back := by
    rw [hback, List.append_cons front a back, List.drop_left]
  have hhere : e.attrs.drop front.length = a :: back := by
    rw [hback, List.drop_left]
  rw [hnext, hhere, List.map_cons, List.append_assoc, List.singleton_append]
  exact columnDoc_carries h hnew hback

/-- A table with its indexes and comments. -/
theorem table_carries (types : List NamedType) :
    Carries (Flavor.postgres.tableText types e) db (withTable db e) := by
  have hcreate := Carries.single (createTable_leads h hnew) (normalTable_fits h)
  rw [← createText_eq types h.attrs] at hcreate
  exact (hcreate.append (indexes_carries h hnew)).append (comments_carries h hnew)

end

-- ---------------------------------------------------------------------------
-- Relations
-- ---------------------------------------------------------------------------

theorem exists_action {text : Option String}
    (h : ∀ t ∈ text, ∃ action : ReferentialAction, action.text = t) :
    ∃ action : Option ReferentialAction, text = action.map (·.text) := by
  cases text with
  | none => exact ⟨none, rfl⟩
  | some t =>
    obtain ⟨action, rfl⟩ := h t rfl
    exact ⟨some action, rfl⟩

/-- The text names the action, in letters of whichever case. -/
def Names (text : Option String) (action : Option ReferentialAction) : Prop :=
  text.map Text.uppercase = action.map (Text.uppercase ·.text)

theorem names_text (action : Option ReferentialAction) : Names (action.map (·.text)) action := by
  cases action <;> rfl

theorem actionText_of_names (event : Keyword) : Names text action →
    (match text with
      | some a => " ON " ++ event.text ++ " " ++ Text.uppercase a
      | none => "") = actionText event action := by
  intro h
  cases text with
  | none =>
    cases action with
    | none => rfl
    | some action => exact absurd h (Option.some_ne_none _).symm
  | some text =>
    cases action with
    | none => exact absurd h (Option.some_ne_none _)
    | some action =>
      have hcapitals : Text.uppercase text = Text.uppercase action.text := Option.some.inj h
      show " ON " ++ event.text ++ " " ++ Text.uppercase text = _
      rw [hcapitals]
      rfl

theorem relationText_eq {r : Relation} (hdelete : Names r.onDelete onDelete) (hupdate : Names r.onUpdate onUpdate) :
    Flavor.postgres.relationText r =
      (Command.key r.source.entity (foreignKeyOf r onDelete onUpdate)).text ++ ";\n" := by
  have hkey : (Command.key r.source.entity (foreignKeyOf r onDelete onUpdate)).text =
      "ALTER TABLE " ++ Flavor.postgres.qualifiedEntity r.source.entity ++ " ADD " ++
        (Flavor.postgres.constraintName r.name ++ ("FOREIGN KEY (" ++
          columnListText (namesOf r.source.attrs) ++ ") " ++ ("REFERENCES " ++
            Flavor.postgres.qualifiedEntity r.target.entity ++ " (" ++
            columnListText (namesOf r.target.attrs) ++ ")" ++ actionText .DELETE onDelete ++
            actionText .UPDATE onUpdate))) := rfl
  have htext : Flavor.postgres.relationText r =
      "ALTER TABLE " ++ Flavor.postgres.qualifiedEntity r.source.entity ++ " ADD " ++
        Flavor.postgres.constraintName r.name ++ "FOREIGN KEY (" ++
        Flavor.postgres.columnList r.source.attrs ++ ") REFERENCES " ++
        Flavor.postgres.qualifiedEntity r.target.entity ++ " (" ++
        Flavor.postgres.columnList r.target.attrs ++ ")" ++ actionText .DELETE onDelete ++
        actionText .UPDATE onUpdate ++ ";\n" := by
    rewrite [← actionText_of_names .DELETE hdelete, ← actionText_of_names .UPDATE hupdate]
    rfl
  have hreferences : ") REFERENCES " = ") " ++ "REFERENCES " := by decide
  rw [htext, hkey, columnList_names, columnList_names, hreferences]
  simp only [String.append_assoc]

theorem relation_carries (h : SpellableRelation schema r)
    (hsource : r.source.entity ∈ db.entities.map Entity.id) (hspace : SpellableSpace r.source.entity.space) :
    Carries (Flavor.postgres.relationText r) db { db with relations := db.relations ++ [r] } := by
  obtain ⟨onDelete, hdelete⟩ := exists_action h.onDelete
  obtain ⟨onUpdate, hupdate⟩ := exists_action h.onUpdate
  rw [relationText_eq (hdelete ▸ names_text onDelete) (hupdate ▸ names_text onUpdate)]
  exact .single (foreignKey_leads h hdelete hupdate hsource hspace)
    ⟨⟨namesOf_ne_nil h.sourceColumns.nonempty, namesOf_ne_nil h.targetColumns.nonempty⟩, rfl⟩

end SchemaDialects.Sql
