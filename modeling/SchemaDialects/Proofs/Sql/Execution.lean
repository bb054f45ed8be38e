import SchemaDialects.Proofs.Lookup
import SchemaDialects.Proofs.Sql.Scripts
import SchemaDialects.Proofs.Sql.Tables

/-!
# Carrying out commands

`Leads commands before after`: whatever is read of the commands, carrying it out on the schema `before`
makes the schema `after` of it. Each command of the writer leads one step further: to one more type,
table, index, comment or foreign key. Remarks on the way do not count.
-/

namespace SchemaDialects.Sql

/-- The schema so far. -/
structure Holds (db : Database) (s : ImportState) : Prop where
  tables : s.tables = db.entities
  types : s.types = db.types
  relations : s.trace.pending.map (·.relation) = db.relations

def Leads (commands : List Command) (before after : Database) : Prop :=
  ∀ found, List.Forall₂ Command.Says commands found → ∀ s, Holds before s →
    Holds after (found.foldl (ImportState.statement .postgres) s)

namespace Leads

theorem nil : Leads [] db db := by
  rintro _ ⟨⟩ s hs
  exact hs

theorem single
    (h : ∀ st, c.Says st → ∀ s, Holds before s → Holds after (s.statement .postgres st)) :
    Leads [c] before after := by
  rintro _ (_ | ⟨hst, ⟨⟩⟩) s hs
  exact h _ hst s hs

theorem append (h : Leads cs before next) (hmore : Leads ds next after) :
    Leads (cs ++ ds) before after := by
  intro found hfound s hs
  have hfront := (List.forall₂_take_append _ _ _ hfound.flip).flip
  have hback := (List.forall₂_drop_append _ _ _ hfound.flip).flip
  rw [← List.take_append_drop cs.length found, List.foldl_append]
  exact hmore _ hback _ (h _ hfront s hs)

end Leads

-- ---------------------------------------------------------------------------
-- Changes of the last table
-- ---------------------------------------------------------------------------

theorem find?_append_last {tables : List Entity} {table : Entity}
    (h : table.id ∉ tables.map Entity.id) :
    (tables ++ [table]).find? (·.id == table.id) = some table := by
  rw [List.find?_append, List.find?_eq_none.mpr]
  · simp
  · intro other hother heq
    exact h (List.mem_map.mpr ⟨other, hother, by simpa using heq⟩)

section
variable {db : Database} {table : Entity}

/-- A schema with one table more. -/
def withTable (db : Database) (table : Entity) : Database :=
  { db with entities := db.entities ++ [table] }

theorem change_last (hnew : table.id ∉ db.entities.map Entity.id) (hs : Holds (withTable db table) s)
    (hf : (f table).1 = changed ∧ (f table).2.pending = []) :
    Holds (withTable db changed) (s.change table.id position f) := by
  obtain ⟨rfl, hpending⟩ := hf
  obtain ⟨htables, htypes, hrelations⟩ := hs
  have hfind : s.find? table.id = some table := by
    rw [ImportState.find?, htables]
    exact find?_append_last hnew
  have hother : ∀ other ∈ db.entities, (other.id == table.id) = false := by
    intro other hother
    exact beq_eq_false_iff_ne.mpr fun heq => hnew (heq ▸ List.mem_map_of_mem hother)
  rw [ImportState.change, hfind]
  refine ⟨?_, htypes, ?_⟩
  · show modifyFirst _ _ s.tables = _
    rw [htables]
    exact modifyFirst_append hother (beq_self_eq_true _)
  · show (s.trace.pending ++ (f table).2.pending).map _ = _
    rw [hpending, List.append_nil]
    exact hrelations

end

-- ---------------------------------------------------------------------------
-- Commands
-- ---------------------------------------------------------------------------

/-- The fields of a composite type are put together to its definition again. -/
theorem fieldTexts_of_read (h : List.Forall₂ Field.Says fields columns)
    (hnormal : ∀ f ∈ fields, normalizeType (renderTokens false (tokensOf f.type)) .postgres = f.type) :
    columns.map (ImportState.fieldText .postgres) = fields.map Field.text := by
  induction h with
  | nil => rfl
  | cons hfirst _ ih =>
    obtain ⟨hf, hmore⟩ := List.forall_mem_cons.mp hnormal
    rw [List.map_cons, List.map_cons, ih hmore, ImportState.fieldText, hfirst.name, hfirst.type, hf]
    rfl

theorem createType_leads {t : NamedType} (h : NormalNamedType t) :
    Leads [.type t.space t.name (bodyOf t)] db { db with types := db.types ++ [t] } := by
  refine .single fun st hst s hs => ?_
  cases st with
  | createType c =>
    obtain ⟨hname, hdefinition⟩ := hst
    have hid : c.name.entityName = { space := t.space, name := t.name } := by
      rw [QualifiedName.entityName, hname]
      exact nameParts_entity h.space
    refine ⟨hs.tables, ?_, hs.relations⟩
    show s.types ++ [_] = db.types ++ [t]
    rw [hs.types, hid]
    obtain ⟨space, name, values, definition, doc, extra⟩ := t
    obtain ⟨-, hvalues, hcomposite, rfl, rfl⟩ := h
    cases values with
    | some values =>
      obtain rfl : definition = none := (hvalues values rfl).2
      have hread : c.definition = .enumeration values := hdefinition
      rw [hread]
    | none =>
      cases definition with
      | none =>
        have hread : c.definition = .shell := hdefinition
        rw [hread]
      | some definition =>
        obtain ⟨columns, hread, hcolumns⟩ : ∃ columns, c.definition = .composite columns ∧
          List.Forall₂ Field.Says (fieldsOf definition) columns := hdefinition
        obtain ⟨htext, -, hnormal⟩ := hcomposite definition rfl
        rw [hread]
        dsimp only
        rw [fieldTexts_of_read hcolumns hnormal, ← htext]
  | _ => exact hst.elim

theorem createTable_leads {e : Entity} (h : NormalEntity e) (hnew : e.id ∉ db.entities.map Entity.id) :
    Leads [.table e.id (e.attrs.map (columnOf e)) (constraintsOf e)] db (withTable db (bareEntity e)) := by
  refine .single fun st hst s hs => ?_
  cases st with
  | createTable c =>
    obtain ⟨hid, htable, hpending⟩ := buildTable_of_read h hst
    have hfind : s.find? e.id = none := by
      refine List.find?_eq_none.mpr fun other hother heq => hnew ?_
      rw [← hs.tables]
      exact List.mem_map.mpr ⟨other, hother, by simpa using heq⟩
    show Holds _ (s.createTable .postgres c)
    rw [ImportState.createTable, hid, hfind]
    refine ⟨?_, hs.types, ?_⟩
    · show s.tables ++ [_] = db.entities ++ [_]
      rw [hs.tables, htable]
    · show (s.trace.pending ++ (buildTable .postgres c).2.pending).map _ = _
      rw [hpending, List.append_nil]
      exact hs.relations
  | _ => exact hst.elim

theorem splitColumn?_of_values {q : QualifiedName} (h : SpellableSpace space)
    (hq : q.values = nameParts space name ++ [column]) :
    q.splitColumn? = some ({ space, name }, column) := by
  have hreverse : (nameParts space name).reverse = name ::
      ([space.database, space.catalog, space.schema].filterMap (fun part => part)).reverse := by
    rw [nameParts, List.reverse_append]
    rfl
  rw [QualifiedName.splitColumn?, hq, List.reverse_append, hreverse]
  show some (QualifiedName.entityOf _, column) = _
  rw [← hreverse, List.reverse_reverse, nameParts_entity h]

section
variable {db : Database} (table : Entity) (hnew : table.id ∉ db.entities.map Entity.id)

include hnew

theorem tableDoc_leads (hspace : SpellableSpace table.space) (doc : String) :
    Leads [.tableDoc table.id doc] (withTable db table) (withTable db { table with doc := some doc }) := by
  refine .single fun st hst s hs => ?_
  cases st with
  | commentOn c =>
    obtain ⟨target, text, position⟩ := c
    obtain ⟨name, rfl, hname, rfl⟩ := hst
    have hid : name.entityName = table.id := by
      rw [QualifiedName.entityName, hname]
      exact nameParts_entity hspace
    show Holds _ (s.change name.entityName name.position fun table => ({ table with doc := some doc }, {}))
    rw [hid]
    exact change_last hnew hs ⟨rfl, rfl⟩
  | _ => exact hst.elim

theorem columnDoc_leads (hspace : SpellableSpace table.space) (hattrs : table.attrs = front ++ a :: back)
    (hdistinct : ∀ b ∈ front, b.name ≠ a.name) (doc : String) :
    Leads [.columnDoc table.id a.name doc] (withTable db table)
      (withTable db { table with attrs := front ++ { a with doc := some doc } :: back }) := by
  refine .single fun st hst s hs => ?_
  cases st with
  | commentOn c =>
    obtain ⟨target, text, position⟩ := c
    obtain ⟨name, rfl, hname, rfl⟩ := hst
    have hsplit : name.splitColumn? = some (table.id, a.name) :=
      splitColumn?_of_values hspace hname
    have hhas : table.hasAttribute [a.name] = true :=
      hasAttribute_iff.mpr ⟨a, by rw [hattrs]; simp, rfl⟩
    have hmodify : modifyAttribute (fun b => { b with doc := some doc }) table.attrs [a.name] =
        front ++ { a with doc := some doc } :: back := by
      rw [hattrs]
      exact modifyFirst_append (fun b hb => beq_eq_false_iff_ne.mpr (hdistinct b hb))
        (beq_self_eq_true _)
    show Holds _ (s.commentOn ⟨.column name, some doc, position⟩)
    simp only [ImportState.commentOn, hsplit]
    refine change_last hnew hs ?_
    rw [if_pos hhas, hmodify]
    exact ⟨rfl, rfl⟩
  | _ => exact hst.elim

end

theorem modifyFirst_found {p : α → Bool} (h : l.find? p = some a) : modifyFirst p (fun _ => a) l = l := by
  induction l with
  | nil => rfl
  | cons b l ih =>
    rw [modifyFirst]
    cases hb : p b with
    | true =>
      rw [List.find?_cons_of_pos hb] at h
      rw [Option.some.inj h]
      rfl
    | false =>
      rw [List.find?_cons_of_neg (by simp [hb])] at h
      rw [ih h]
      rfl

/-- The foreign key of a relation. -/
def foreignKeyOf (r : Relation) (onDelete onUpdate : Option ReferentialAction) : Constraint where
  name := r.name
  clause := .foreignKey (namesOf r.source.attrs)
    ⟨r.target.entity, namesOf r.target.attrs, onDelete, onUpdate⟩

theorem Holds.exists_find? {id : EntityName} (hs : Holds db s) (hmem : id ∈ db.entities.map Entity.id) :
    ∃ owner, s.find? id = some owner ∧ owner.id = id := by
  obtain ⟨e, he, heq⟩ := List.mem_map.mp hmem
  have hsome : (s.find? id).isSome = true := by
    rw [ImportState.find?, hs.tables]
    exact List.find?_isSome.mpr ⟨e, he, by simpa using heq⟩
  obtain ⟨owner, hfind⟩ := Option.isSome_iff_exists.mp hsome
  exact ⟨owner, hfind, by simpa using List.find?_some hfind⟩

/-- What is read of a foreign key is put together to its relation again. -/
theorem relation_of_read {r : Relation} (h : SpellableRelation schema r)
    (hdelete : r.onDelete = onDelete.map (·.text)) (hupdate : r.onUpdate = onUpdate.map (·.text))
    (hids : ids.map (·.value) = namesOf r.source.attrs)
    (htarget : Reference.Says ⟨r.target.entity, namesOf r.target.attrs, onDelete, onUpdate⟩ target) :
    { Relation.manyToOne r.source.entity (columnPaths ids) target.table.entityName
        (columnPaths target.columns) with
          name := r.name
          onDelete := target.onDelete.map (·.text)
          onUpdate := target.onUpdate.map (·.text) } = r := by
  have hreferenced : target.table.entityName = r.target.entity := by
    rw [QualifiedName.entityName, htarget.table]
    exact nameParts_entity h.target
  rw [hreferenced, columnPaths_eq hids, columnPaths_eq htarget.columns, pathsOf_namesOf h.sourceColumns.single,
    pathsOf_namesOf h.targetColumns.single, htarget.onDelete, htarget.onUpdate]
  obtain ⟨name, ⟨source, sourceAttrs, many⟩, ⟨target, targetAttrs, one⟩, onDelete, onUpdate, doc, extra⟩ := r
  obtain ⟨-, -, -, -, ⟨rfl, rfl⟩, -, -, rfl, rfl⟩ := h
  obtain rfl := hdelete
  obtain rfl := hupdate
  rfl

theorem foreignKey_leads {r : Relation} (h : SpellableRelation schema r)
    (hdelete : r.onDelete = onDelete.map (·.text)) (hupdate : r.onUpdate = onUpdate.map (·.text))
    (hsource : r.source.entity ∈ db.entities.map Entity.id) (hspace : SpellableSpace r.source.entity.space) :
    Leads [.key r.source.entity (foreignKeyOf r onDelete onUpdate)] db
      { db with relations := db.relations ++ [r] } := by
  refine .single fun st hst s hs => ?_
  cases st with
  | alterTable a =>
    obtain ⟨table, actions, position⟩ := a
    obtain ⟨hname, c, rfl, hc⟩ := hst
    obtain ⟨id, rule, place⟩ := c
    obtain ⟨hkey, ids, target, rfl, hids, htarget⟩ := hc
    have hid : table.entityName = r.source.entity := by
      rw [QualifiedName.entityName, hname]
      exact nameParts_entity hspace
    obtain ⟨owner, hfind, howner⟩ := hs.exists_find? hsource
    have hrelation := relation_of_read h hdelete hupdate hids htarget
    have hnamed : nameOf id = r.name := hkey
    rw [← howner, ← hnamed] at hrelation
    show Holds _ (s.change table.entityName table.position fun table =>
      runSteps (alterStep .postgres) table [.addConstraint ⟨id, .foreignKey ids target, place⟩])
    rw [hid, ImportState.change, hfind]
    refine ⟨?_, hs.types, ?_⟩
    · show modifyFirst _ (fun _ => owner) s.tables = _
      rw [modifyFirst_found hfind]
      exact hs.tables
    · show (s.trace.pending ++ ([] ++ (foreignKey _ _ _ _ _).pending)).map _ = db.relations ++ [r]
      rw [List.map_append, hs.relations]
      exact congrArg (db.relations ++ [·]) hrelation
  | _ => exact hst.elim

end SchemaDialects.Sql
