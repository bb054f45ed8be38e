import SchemaDialects.Proofs.Sql.Composing
import SchemaDialects.Proofs.Sql.Counting

/-!
# Keys and indexes that a script keeps

A schema that is written for PostgreSQL and read again has the same tables, each with as many indexes and with
a key if it had one (`exists_script_tallies`), unless a key or a unique index is written at a column that is
not there: a constraint on a single attribute is left out in favour of a mark at its column, and a nested
attribute has no column.
-/

namespace SchemaDialects.Sql

/-- The unique indexes that are written at columns are each at a column of the entity, no two at the same. -/
structure UniqueInPlace (e : Entity) : Prop where
  column : ∀ i ∈ e.indexes, isOwnColumnUnique i = true → ∃ name, i.attrs = [[name]]
  distinct : ∀ i ∈ e.indexes, isOwnColumnUnique i = true → ∀ j ∈ e.indexes, isOwnColumnUnique j = true →
    i.attrs = j.attrs → i = j

/-- An entity whose keys the writer keeps. -/
structure KeptKeys (e : Entity) : Prop extends SoundKeys e, UniqueInPlace e where
  place : KeyInPlace e
  space : SpellableSpace e.space

-- ---------------------------------------------------------------------------
-- One table
-- ---------------------------------------------------------------------------

theorem marksOf_count (h : a.defaultValue = none) (t : Tally) :
    (marksOf e a).foldl (fun t m => m.rule.count t) t = t.more (keyedAt e a) (if uniqueAt e a then 1 else 0) := by
  have hkey (t : Tally) : (keyMarks e a).foldl (fun t m => m.rule.count t) t = t.more (keyedAt e a) 0 := by
    rw [keyMarks]
    cases keyedAt e a with
    | true => rfl
    | false => cases a.nullable <;> exact t.more_none.symm
  have hnumbering (t : Tally) : (numberingMarks a).foldl (fun t m => m.rule.count t) t = t := by
    rw [numberingMarks]
    split <;> rfl
  have hvalue : valueMarks a = [] := by rw [valueMarks, h]
  have hunique (t : Tally) : (uniqueMarks e a).foldl (fun t m => m.rule.count t) t =
      t.more false (if uniqueAt e a then 1 else 0) := by
    rw [uniqueMarks]
    split
    · rfl
    · exact t.more_none.symm
  rw [marksOf, hvalue, List.append_nil, List.foldl_append, List.foldl_append, hkey, hnumbering, hunique,
    Tally.more_more, Bool.or_false, Nat.zero_add]

theorem columns_count {attrs : List Attribute} (h : ∀ a ∈ attrs, a.defaultValue = none) (t : Tally) :
    (attrs.map (writtenColumn e)).foldl Column.count t =
      t.more (attrs.any (keyedAt e)) (attrs.filter (uniqueAt e)).length := by
  induction attrs generalizing t with
  | nil => exact t.more_none.symm
  | cons a attrs ih =>
    obtain ⟨ha, hattrs⟩ := List.forall_mem_cons.mp h
    have hcolumn : Column.count t (writtenColumn e a) = t.more (keyedAt e a) (if uniqueAt e a then 1 else 0) :=
      marksOf_count ha t
    rw [List.map_cons, List.foldl_cons, hcolumn, ih hattrs, Tally.more_more, List.any_cons, List.filter_cons]
    split
    · rw [List.length_cons, Nat.add_comm]
    · rw [Nat.zero_add]

theorem constraints_count (h : e.checks = []) (t : Tally) :
    (constraintsOf e).foldl Constraint.count t =
      t.more (!(keyConstraints e).isEmpty) (e.indexes.filter isTableUnique).length := by
  have hkey (t : Tally) : (keyConstraints e).foldl Constraint.count t = t.more (!(keyConstraints e).isEmpty) 0 := by
    rw [keyConstraints]
    split
    · exact t.more_none.symm
    · split
      · exact t.more_none.symm
      · rfl
  have hunique (indexes : List Index) (t : Tally) :
      (indexes.map uniqueConstraint).foldl Constraint.count t = t.more false indexes.length := by
    induction indexes generalizing t with
    | nil => exact t.more_none.symm
    | cons i indexes ih =>
      rw [List.map_cons, List.foldl_cons, ih, List.length_cons, Nat.add_comm]
      exact t.more_more false false 1 indexes.length
  rw [constraintsOf, h, List.map_nil, List.append_nil, List.foldl_append, hkey, hunique, Tally.more_more,
    Bool.or_false, Nat.zero_add]

/-- A primary key is written either at its column or among the constraints. -/
theorem keyed_written (h : KeptKeys e) :
    (e.attrs.any (keyedAt e) || !(keyConstraints e).isEmpty) = e.primaryKey.isSome := by
  cases hkey : e.primaryKey with
  | none =>
    have hnone : e.attrs.any (keyedAt e) = false := by
      refine List.any_eq_false.mpr fun a _ hat => ?_
      rw [keyedAt_eq hat] at hkey
      contradiction
    rw [hnone, keyConstraints, hkey]
    rfl
  | some key =>
    rw [keyConstraints, hkey]
    dsimp only
    cases hat : keyAtColumn e key with
    | false => simp
    | true =>
      rw [any_keyedAt hkey h.place, hat]
      rfl

theorem isColumnUnique_eq (path : AttributePath) (i : Index) :
    isColumnUnique path i = (isOwnColumnUnique i && i.attrs == [path]) := by
  rw [Bool.eq_iff_iff, Bool.and_eq_true, beq_iff_eq]
  constructor
  · intro h
    have hattrs := h
    simp only [isColumnUnique, Bool.and_eq_true, beq_iff_eq] at hattrs
    exact ⟨isOwnColumnUnique_of_column h, hattrs.2⟩
  · rintro ⟨hown, hattrs⟩
    rwa [isOwnColumnUnique, hattrs] at hown

/-- The unique indexes at columns, counted at the columns. -/
theorem uniqueAt_count (h : KeptKeys e) :
    (e.attrs.filter (uniqueAt e)).length = (e.indexes.filter isOwnColumnUnique).length := by
  have hat : uniqueAt e = fun a => (e.indexes.filter isOwnColumnUnique).any (·.attrs == [[a.name]]) := by
    funext a
    rw [uniqueAt, List.any_filter]
    exact congrArg (e.indexes.any ·) (funext fun i => isColumnUnique_eq [a.name] i)
  have hdistinct : ((e.indexes.filter isOwnColumnUnique).map (·.attrs)).Nodup := by
    refine (h.indexes.filter _).map_on fun i hi j hj => ?_
    obtain ⟨hi, hown⟩ := List.mem_filter.mp hi
    obtain ⟨hj, hother⟩ := List.mem_filter.mp hj
    exact h.distinct i hi hown j hj hother
  rw [hat]
  refine length_of_columns h.names hdistinct fun i hi => ?_
  obtain ⟨hmem, hown⟩ := List.mem_filter.mp hi
  obtain ⟨name, hattrs⟩ := h.column i hmem hown
  obtain ⟨a, ha, rfl⟩ := hasAttribute_iff.mp ((h.index i hmem).2 [name] (hattrs ▸ List.mem_cons_self))
  exact ⟨a, ha, hattrs⟩

/-- Every index is written once: at a column, among the constraints, or in a statement of its own. -/
theorem indexes_written (h : KeptKeys e) :
    (e.attrs.filter (uniqueAt e)).length + (e.indexes.filter isTableUnique).length +
      (e.indexes.filter hasStatement).length = e.indexes.length := by
  have htable : (e.indexes.filter fun i => !isOwnColumnUnique i).filter isTableUnique =
      e.indexes.filter isTableUnique := by
    rw [List.filter_filter]
    refine List.filter_congr fun i _ => ?_
    cases htable : isTableUnique i with
    | true => rw [isOwnColumnUnique_of_table htable, Bool.not_false, Bool.and_true]
    | false => rfl
  have hstatement : (e.indexes.filter fun i => !isOwnColumnUnique i).filter (fun i => !isTableUnique i) =
      e.indexes.filter hasStatement := by
    rw [List.filter_filter]
    refine List.filter_congr fun i _ => ?_
    rw [hasStatement, Bool.not_or, Bool.and_comm]
  have hown := List.length_eq_length_filter_add (l := e.indexes) isOwnColumnUnique
  have hother := List.length_eq_length_filter_add (l := e.indexes.filter fun i => !isOwnColumnUnique i) isTableUnique
  rw [htable, hstatement] at hother
  rw [uniqueAt_count h, Nat.add_assoc, ← hother, ← hown]

-- ---------------------------------------------------------------------------
-- Commands of a table
-- ---------------------------------------------------------------------------

theorem readName_eq {id : EntityName} (h : SpellableSpace id.space) : readName id = id := nameParts_entity h

section
variable {tallies : List Tally} {t : Tally} (hnew : t.id ∉ tallies.map Tally.id)

include hnew

theorem modifyLast (f : Tally → Tally) :
    modifyFirst (fun u : Tally => u.id == t.id) f (tallies ++ [t]) = tallies ++ [f t] := by
  refine modifyFirst_append (fun u hu => beq_eq_false_iff_ne.mpr fun hid => hnew ?_) (beq_self_eq_true _)
  rw [← hid]
  exact List.mem_map_of_mem hu

theorem indexes_count (hspace : SpellableSpace t.id.space) (indexes : List Index) :
    (indexes.map fun i => Command.index (columnsForm t.id i)).foldl Command.count (tallies ++ [t]) =
      tallies ++ [t.more false indexes.length] := by
  induction indexes generalizing t with
  | nil => simp
  | cons i indexes ih =>
    have hindex : Command.count (tallies ++ [t]) (.index (columnsForm t.id i)) = tallies ++ [t.more false 1] := by
      rw [Command.count, columnsForm, readName_eq hspace]
      exact modifyLast hnew (·.more false 1)
    have hmore := ih (t := t.more false 1) hnew hspace
    rw [List.map_cons, List.foldl_cons, hindex]
    refine hmore.trans ?_
    rw [Tally.more_more, List.length_cons, Nat.add_comm, Bool.or_false]

end

/-- Commands that are about neither keys nor indexes. -/
theorem foldl_count_self {commands : List Command} (h : ∀ c ∈ commands, ∀ tallies, Command.count tallies c = tallies)
    (tallies : List Tally) : commands.foldl Command.count tallies = tallies :=
  List.foldlRecOn (motive := (· = tallies)) _ _ rfl fun _ hsame c hc => (h c hc _).trans hsame

theorem tableCommands_count (h : KeptKeys e) (hscript : ScriptableEntity e) (hnew : e.id ∉ tallies.map Tally.id) :
    (tableCommands e).foldl Command.count tallies = tallies ++ [e.tally] := by
  have hname : readName e.id = e.id := readName_eq h.space
  have habsent : tallies.any (·.id == e.id) = false := by
    refine List.any_eq_false.mpr fun t ht hid => hnew ?_
    rw [← beq_iff_eq.mp hid]
    exact List.mem_map_of_mem ht
  have hcreate : Command.count tallies (.table e.id (e.attrs.map (writtenColumn e)) (constraintsOf e)) =
      tallies ++ [Tally.mk e.id e.primaryKey.isSome
        ((e.attrs.filter (uniqueAt e)).length + (e.indexes.filter isTableUnique).length)] := by
    rw [Command.count, hname, habsent, columns_count (fun a ha => (hscript.attrs a ha).value),
      constraints_count hscript.checks, Tally.more_more, keyed_written h]
    simp [Tally.more]
  have hdocs (tallies : List Tally) : (docCommands e).foldl Command.count tallies = tallies := by
    refine foldl_count_self (List.forall_mem_append.mpr ⟨?_, List.forall_mem_flatMap.mpr fun a _ => ?_⟩) tallies
    · exact List.forall_mem_map.mpr fun _ _ _ => rfl
    · exact List.forall_mem_map.mpr fun _ _ _ => rfl
  rw [tableCommands, List.foldl_cons, hcreate, List.foldl_append, hdocs]
  refine (indexes_count (t := ⟨e.id, _, _⟩) hnew h.space _).trans ?_
  rw [Tally.more, Bool.or_false, indexes_written h]
  rfl

-- ---------------------------------------------------------------------------
-- Whole scripts
-- ---------------------------------------------------------------------------

theorem tables_count {entities : List Entity} (h : ∀ e ∈ entities, KeptKeys e)
    (hscript : ∀ e ∈ entities, ScriptableEntity e) (hids : (tallies.map Tally.id ++ entities.map Entity.id).Nodup) :
    (entities.map tableCommands).flatten.foldl Command.count tallies = tallies ++ entities.map Entity.tally := by
  induction entities generalizing tallies with
  | nil => exact (List.append_nil tallies).symm
  | cons e entities ih =>
    obtain ⟨he, hmore⟩ := List.forall_mem_cons.mp h
    obtain ⟨hfirst, hrest⟩ := List.forall_mem_cons.mp hscript
    have hnew : e.id ∉ tallies.map Tally.id := fun hmem =>
      (List.nodup_append.mp hids).2.2 _ hmem _ List.mem_cons_self rfl
    have hnext : ((tallies ++ [e.tally]).map Tally.id ++ entities.map Entity.id).Nodup := by
      rw [List.map_append, List.append_assoc]
      exact hids
    rw [List.map_cons, List.flatten_cons, List.foldl_append, tableCommands_count he hfirst hnew, ih hmore hrest hnext,
      List.append_assoc]
    rfl

theorem relationCommand_count (tallies : List Tally) (r : Relation) : Command.count tallies (relationCommand r) = tallies :=
  modifyFirst_self fun _ _ _ => rfl

/-- The commands of a schema count its keys and indexes. -/
theorem sectionsOf_count (h : ∀ e ∈ db.entities, KeptKeys e) (hscript : Scriptable db)
    (hids : (db.entities.map Entity.id).Nodup) :
    (sectionsOf db).flatten.foldl Command.count [] = db.entities.map Entity.tally := by
  have htypes : (db.types.map typeCommand).foldl Command.count [] = [] :=
    foldl_count_self (List.forall_mem_map.mpr fun _ _ _ => rfl) []
  have hrelations (tallies : List Tally) : (db.relations.map relationCommand).foldl Command.count tallies = tallies :=
    foldl_count_self (List.forall_mem_map.mpr fun r _ tallies => relationCommand_count tallies r) tallies
  have htables : (db.entities.map tableCommands).flatten.foldl Command.count [] = [] ++ db.entities.map Entity.tally :=
    tables_count h hscript.entity hids
  rw [flatten_sectionsOf, List.foldl_append, List.foldl_append, htypes, htables, hrelations, List.nil_append]

/-- What is read of a command counts as the command does. -/
def Command.Counts (c : Command) (outcome : Outcome) : Prop :=
  ∀ tallies, outcome.1.foldl Statement.count tallies = c.count tallies

theorem counts_of_meant (h : Command.Meant c outcome) : c.Counts outcome := by
  obtain ⟨s, rfl, hs⟩ := h
  exact fun tallies => hs.count tallies

theorem gives_counts (script : List Char) (h : Scriptable db) :
    ∀ c ∈ (sectionsOf db).flatten, c.Gives script c.Counts := by
  refine forall_sectionsOf (fun t ht => ?_) (fun e he c hc => ?_) fun r _ => ?_
  · exact (gives_command script (typeCommand_fits (h.type t ht))).mono fun _ => counts_of_meant
  · exact (gives_command script (tableCommands_fit (h.entity e he) c hc)).mono fun _ => counts_of_meant
  · refine (gives_relation script r).mono fun outcome houtcome => ?_
    rcases houtcome with hmeant | hnone
    · exact counts_of_meant hmeant
    · intro tallies
      rw [hnone, relationCommand_count]
      rfl

theorem foldl_count_outcomes (h : List.Forall₂ Command.Counts commands outcomes) (tallies : List Tally) :
    (outcomes.flatMap (·.1)).foldl Statement.count tallies = commands.foldl Command.count tallies := by
  induction h generalizing tallies with
  | nil => rfl
  | cons hfirst _ ih => rw [List.flatMap_cons, List.foldl_append, hfirst, ih, List.foldl_cons]

/-- The tables of a script that could be read. -/
theorem tables_of_read (h : readStatements script = { value := some found, diagnostics := problems }) :
    ∃ db, (readSchema script .postgres).value = some db ∧
      db.entities = (found.foldl (ImportState.statement .postgres) {}).tables := by
  have hflavor : Flavor.postgres.resolve script = .postgres := if_neg (by decide)
  rw [readSchema, h, hflavor]
  exact ⟨_, rfl, rfl⟩

/-- Written and read again, every table has a key if it had one, and as many indexes as it had. -/
theorem exists_script_tallies (hscript : Scriptable db) (h : ∀ e ∈ db.entities, KeptKeys e)
    (hids : (db.entities.map Entity.id).Nodup) (hne : db.entities ≠ []) :
    ∃ script again, writeSchema db .postgres = .ok script ∧ (readSchema script .postgres).value = some again ∧
      again.entities.map Entity.tally = db.entities.map Entity.tally := by
  let script := "\n".intercalate ((sectionsOf db).map sectionText)
  obtain ⟨outcomes, hcounts, hread⟩ := readStatements_outcomes (R := Command.Counts)
    (gives_counts script.toList hscript) (lexes_sections hscript)
  have htallies := foldl_count_outcomes hcounts []
  rw [sectionsOf_count h hscript hids] at htallies
  have hfound : (outcomes.flatMap (·.1)).isEmpty = false := by
    rw [List.isEmpty_eq_false_iff]
    intro hnone
    rw [hnone] at htallies
    exact hne (List.map_eq_nil_iff.mp htallies.symm)
  rw [hfound, Bool.false_and, if_neg Bool.false_ne_true] at hread
  obtain ⟨again, hvalue, htables⟩ := tables_of_read hread
  refine ⟨script, again, writeSchema_sections hscript, hvalue, ?_⟩
  rw [htables]
  exact (tallies_run .postgres _ {}).trans htallies

end SchemaDialects.Sql
