import SchemaDialects.Proofs.Markup.Grounded
import SchemaDialects.Proofs.Sql.Keyed
import SchemaDialects.Tables.Import

/-!
# Schemas that are read without a warning

A reader that has nothing to remark upon gives a schema with which little can be wrong (`validate_of_clean`).
The readers of the exchange format and of table documents look at everything. The reader of markup does not
look for the attributes of relations, the reader of scripts neither for these nor for the columns of indexes.
-/

namespace SchemaDialects

/-- The schema is read, and there are no errors and no warnings. -/
def Parsed.Cleanly (p : Parsed Database) (db : Database) : Prop := p.value = some db ∧ Quiet p.diagnostics

instance (diagnostics : List Diagnostic) : Decidable (Quiet diagnostics) :=
  inferInstanceAs (Decidable (∀ d ∈ diagnostics, _))

theorem Parsed.cleanly {p : Parsed Database} (h : p.value.isSome = true) (hquiet : Quiet p.diagnostics) :
    p.Cleanly (p.value.getD {}) := by
  obtain ⟨db, hdb⟩ := Option.isSome_iff_exists.mp h
  rw [hdb]
  exact ⟨hdb, hquiet⟩

theorem Quiet.eq_nil_of_validate {db : Database} (h : Quiet db.validate) : db.validate = [] := by
  refine validate_eq_nil.mpr (List.eq_nil_iff_forall_not_mem.mpr fun i hi => ?_)
  have hlevel := h _ (List.mem_map_of_mem hi)
  cases i with
  | duplicateEntity id => exact hlevel.1 rfl
  | _ => exact hlevel.2 rfl

namespace Markup

theorem Keyed.of_grounded {e : Entity} (h : e.Grounded) : e.Keyed ∧ e.Indexed :=
  ⟨⟨fun key hkey => (h.key key hkey).2, fun c hc => (h.check c hc).2⟩, fun i hi => (h.index i hi).2⟩

theorem target_resolve (s : State) (p : PendingRelation) :
    (s.resolve p).target.entity = p.relation.target.entity := by
  unfold State.resolve
  simp only
  split <;> rfl

/-- Entities that a relation names and nobody knows are remarked upon. -/
theorem known_of_relationProblems {s : State} {p : PendingRelation} (h : s.relationProblems p = []) :
    (s.find? p.relation.source.entity).isSome = true ∧ (s.find? p.relation.target.entity).isSome = true := by
  simpa [State.relationProblems, Option.isSome_iff_ne_none] using h

theorem relationProblems_level {s : State} {p : PendingRelation} (h : problem ∈ s.relationProblems p) :
    problem.level = .warning := by
  unfold State.relationProblems at h
  rcases List.mem_append.mp h with h | h <;> split at h <;> simp_all [Problem.level]

/-- Markup that is read without a warning gives a schema whose relations alone can be wrong. -/
theorem anchored_readSchema (h : (readSchema text).Cleanly db) : db.Anchored ∧ ∀ e ∈ db.entities, e.Indexed := by
  obtain ⟨hvalue, hquiet⟩ := h
  obtain rfl := Option.some.inj hvalue
  have hrun := run_readLines text
  have hproblems : ∀ p ∈ (stateBehind text).pending, (stateBehind text).relationProblems p = [] := by
    refine fun p hp => List.eq_nil_iff_forall_not_mem.mpr fun problem hproblem => ?_
    have hmem : problem.diagnostic p.position ∈ (readSchema text).diagnostics :=
      List.mem_mergeSort.mpr (List.mem_append_right _
        (List.mem_flatMap.mpr ⟨p, hp, List.mem_map_of_mem hproblem⟩))
    exact (hquiet _ hmem).2 (relationProblems_level hproblem)
  refine ⟨⟨hrun.gathered.entities, fun e he => (Keyed.of_grounded (hrun.grounded.entity e he)).1, fun r hr => ?_⟩,
    fun e he => (Keyed.of_grounded (hrun.grounded.entity e he)).2⟩
  obtain ⟨p, hp, rfl⟩ := List.mem_map.mp hr
  have hknown := known_of_relationProblems (hproblems p hp)
  rw [State.resolve_source, target_resolve]
  exact hknown

end Markup

theorem validate_readExchange (h : (Database.readExchange text).Cleanly db) : db.validate = [] := by
  obtain ⟨hvalue, hquiet⟩ := h
  unfold Database.readExchange Parsed.andThen at hvalue hquiet
  split at hvalue
  · rename_i hread
    rw [hread] at hquiet
    obtain rfl := Option.some.inj hvalue
    exact (quiet_append.mp hquiet).2.eq_nil_of_validate
  · cases hvalue

theorem validate_readTables (h : (Tables.readSchema text).Cleanly db) : db.validate = [] := by
  obtain ⟨hvalue, hquiet⟩ := h
  unfold Tables.readSchema Parsed.andThen at hvalue hquiet
  split at hvalue
  · rename_i hread
    rw [hread] at hquiet
    obtain rfl := Option.some.inj hvalue
    exact (quiet_append.mp hquiet).2.eq_nil_of_validate
  · cases hvalue

theorem validate_eq_nil_iff {db : Database} (h : db.Anchored) :
    db.validate = [] ↔ (∀ e ∈ db.entities, e.Indexed) ∧ db.EndsResolve := by
  rw [validate_eq_nil, inconsistencies_eq_nil]
  exact and_iff_right h

/-- A schema that is read without a warning is valid, except that the reader of markup overlooks attributes
of relations that are not there, and the reader of scripts overlooks such columns of indexes, too. -/
theorem validate_of_clean (text : String) (db : Database) :
    ((Markup.readSchema text).Cleanly db → (db.validate = [] ↔ db.EndsResolve)) ∧
    (∀ flavor, (Sql.readSchema text flavor).Cleanly db →
      (db.validate = [] ↔ (∀ e ∈ db.entities, e.Indexed) ∧ db.EndsResolve)) ∧
    ((Database.readExchange text).Cleanly db → db.validate = []) ∧
    ((Tables.readSchema text).Cleanly db → db.validate = []) := by
  refine ⟨fun h => ?_, fun flavor h => ?_, validate_readExchange, validate_readTables⟩
  · obtain ⟨hanchored, hindexed⟩ := Markup.anchored_readSchema h
    rw [validate_eq_nil_iff hanchored]
    exact and_iff_right hindexed
  · exact validate_eq_nil_iff (Sql.anchored_readSchema h.1 h.2)

/-- The column of an index and the attribute at the end of a relation are not there. -/
theorem validate_overlooked :
    (∃ db, (Sql.readSchema "CREATE TABLE t (a int, UNIQUE (b))" .postgres).Cleanly db ∧ db.validate ≠ []) ∧
      ∃ db, (Markup.readSchema "users\n  id int\nrel users(id) -> users(name)").Cleanly db ∧ db.validate ≠ [] := by
  refine ⟨⟨_, Parsed.cleanly ?_ ?_, ?_⟩, _, Parsed.cleanly ?_ ?_, ?_⟩ <;> decide +kernel

def cleanMarkup : String := "users\n  id int pk\n  name text index\nrel users(name) -> users"

def cleanScript : String :=
  "CREATE TABLE a (x int PRIMARY KEY, y int CHECK (y > 0), UNIQUE (y));\nCREATE TABLE b (z int REFERENCES a)"

def cleanExchange : String :=
  "\x7b\"entities\":[\x7b\"name\":\"t\",\"attrs\":[\x7b\"name\":\"a\",\"type\":\"int\"\x7d]\x7d]\x7d"

def cleanTables : String :=
  "\x7b\"schemas\":[\x7b\"name\":\"public\",\"tables\":[\x7b\"name\":\"t\"," ++
    "\"fields\":[\x7b\"name\":\"a\",\"type\":\x7b\"typeName\":\"int\"\x7d,\"pk\":true\x7d]\x7d]\x7d]\x7d"

theorem validate_of_clean_samples :
    (∃ db, (Markup.readSchema cleanMarkup).Cleanly db ∧ (db.validate = [] ↔ db.EndsResolve)) ∧
    (∃ db, (Sql.readSchema cleanScript .postgres).Cleanly db ∧
      (db.validate = [] ↔ (∀ e ∈ db.entities, e.Indexed) ∧ db.EndsResolve)) ∧
    (∃ db, (Database.readExchange cleanExchange).Cleanly db ∧ db.validate = []) ∧
    ∃ db, (Tables.readSchema cleanTables).Cleanly db ∧ db.validate = [] := by
  have hmarkup := Parsed.cleanly (by decide) (by decide +kernel : Quiet (Markup.readSchema cleanMarkup).diagnostics)
  have hscript := Parsed.cleanly (by decide +kernel)
    (by decide +kernel : Quiet (Sql.readSchema cleanScript .postgres).diagnostics)
  have hexchange := Parsed.cleanly (by decide +kernel)
    (by decide +kernel : Quiet (Database.readExchange cleanExchange).diagnostics)
  have htables := Parsed.cleanly (by decide +kernel) (by decide +kernel : Quiet (Tables.readSchema cleanTables).diagnostics)
  exact ⟨⟨_, hmarkup, (validate_of_clean _ _).1 hmarkup⟩, ⟨_, hscript, (validate_of_clean _ _).2.1 _ hscript⟩,
    ⟨_, hexchange, (validate_of_clean _ _).2.2.1 hexchange⟩, _, htables, (validate_of_clean _ _).2.2.2 htables⟩

end SchemaDialects
