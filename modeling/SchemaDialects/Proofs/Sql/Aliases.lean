import SchemaDialects.Proofs.Lookup
import SchemaDialects.Proofs.Sql.QualifiedNames
import SchemaDialects.Sql.QueryTables

/-!
# Other names for the tables of a query

What a query touches does not depend on what it calls its tables. `queryTables_renamed`: names may be exchanged in
any way that keeps the tables apart that columns ask for. `queryTables_realiased` is the case of one alias, which may
be any name that the query does not use yet.
-/

namespace SchemaDialects.Sql

-- ---------------------------------------------------------------------------
-- Renaming
-- ---------------------------------------------------------------------------

section
variable (f : String → String)

def Identifier.renamed (i : Identifier) : Identifier := { i with value := f i.value }

/-- The table under the new name for its alias. Its own name stays. -/
def TableRef.renamed (t : TableRef) : TableRef := { t with asName := t.asName.map (·.renamed f) }

def ColumnRef.renamed (c : ColumnRef) : ColumnRef := { c with scope := c.scope.map f }

/-- The expression with other scopes of its columns. No column is found by the text, which stays. -/
def Expression.renamed (e : Expression) : Expression := { e with columns := e.columns.map (·.renamed f) }

def SelectField.renamed : SelectField → SelectField
  | .wildcard scope position => .wildcard (scope.map (·.renamed f)) position
  | .expression scope e asName name position =>
    .expression (scope.map (·.renamed f)) (e.renamed f) asName name position

def Join.renamed (j : Join) : Join :=
  { j with table := j.table.renamed f, condition := j.condition.map (·.renamed f) }

def OrderBy.renamed (o : OrderBy) : OrderBy := { o with expression := o.expression.renamed f }

/-- The query with other aliases and other scopes, everywhere. -/
def Select.renamed (s : Select) : Select := { s with
  fields := s.fields.map (·.renamed f)
  tables := s.tables.map (·.renamed f)
  joins := s.joins.map (·.renamed f)
  condition := s.condition.map (·.renamed f)
  groupBy := s.groupBy.map (·.renamed f)
  having := s.having.map (·.renamed f)
  orderBy := s.orderBy.map (·.renamed f)
  limit := s.limit.map (·.renamed f)
  offset := s.offset.map (·.renamed f) }

def QueryTable.renamed (t : QueryTable) : QueryTable := { t with asName := t.asName.map f }

end

variable {f : String → String}

theorem Select.allTables_renamed (s : Select) : (s.renamed f).allTables = s.allTables.map (·.renamed f) := by
  simp [allTables, renamed, Join.renamed, Function.comp_def]

theorem Select.clauses_renamed (s : Select) : (s.renamed f).clauses = s.clauses.map (·.renamed f) := by
  have hjoins : (s.renamed f).joins.filterMap (·.condition) = (s.joins.filterMap (·.condition)).map (·.renamed f) := by
    rw [List.map_filterMap]
    exact List.filterMap_map
  have hoption (o : Option Expression) : (o.map (·.renamed f)).toList = o.toList.map (·.renamed f) := by
    cases o <;> rfl
  rw [clauses, hjoins]
  simp [clauses, renamed, hoption, OrderBy.renamed, Function.comp_def]

/-- The scope of a field counts for its columns under its new name. -/
theorem Select.fieldColumns_renamed (field : SelectField) :
    fieldColumns (field.renamed f) = (fieldColumns field).map (·.renamed f) := by
  cases field with
  | wildcard => rfl
  | expression scope e asName name position =>
    simp only [fieldColumns, SelectField.renamed, Expression.renamed, List.map_map]
    refine List.map_congr_left fun c _ => ?_
    obtain ⟨own, column⟩ := c
    cases own <;> cases scope <;> rfl

theorem Select.columns_renamed (s : Select) : (s.renamed f).columns = s.columns.map (·.renamed f) := by
  have hfields : (s.renamed f).fields.flatMap fieldColumns = (s.fields.flatMap fieldColumns).map (·.renamed f) := by
    simp [renamed, List.flatMap_map, List.map_flatMap, fieldColumns_renamed]
  rw [columns, columns, hfields, clauses_renamed, List.map_append]
  simp [List.flatMap_map, List.map_flatMap, Expression.renamed]

-- ---------------------------------------------------------------------------
-- Columns and their tables
-- ---------------------------------------------------------------------------

/-- What the rest of the query calls the table. -/
def QueryTable.reference (t : QueryTable) : String := t.asName.getD t.entity.name

/-- The table is called by its new name, which a column asks for only if it asked for the table before. -/
structure QueryTable.Keeps (f : String → String) (asking : List ColumnRef) (t : QueryTable) : Prop where
  called : (t.renamed f).reference = f t.reference
  asked : ∀ c ∈ asking, ∀ scope ∈ c.scope, f t.reference = f scope → t.reference = scope

section
variable {asking : List ColumnRef} {tables : List QueryTable}

theorem QueryTable.Keeps.answersTo {t : QueryTable} (h : t.Keeps f asking) (hc : c ∈ asking)
    (hscope : scope ∈ c.scope) : (t.renamed f).answersTo (f scope) = t.answersTo scope := by
  rw [Bool.eq_iff_iff, QueryTable.answersTo, QueryTable.answersTo, beq_iff_eq, beq_iff_eq]
  show (t.renamed f).reference = f scope ↔ t.reference = scope
  rw [h.called]
  exact ⟨h.asked c hc scope hscope, congrArg f⟩

theorem QueryTable.use_renamed (column : String) (t : QueryTable) :
    (t.renamed f).use column = (t.use column).renamed f := by
  rw [use, use]
  show (if t.attributes.contains [column] then _ else _) = _
  split <;> rfl

/-- A use of a table changes nothing but its attributes. -/
theorem QueryTable.use_eq (column : String) (t : QueryTable) :
    ∃ attributes, t.use column = { t with attributes } := by
  rw [use]
  split
  · exact ⟨_, rfl⟩
  · exact ⟨_, rfl⟩

theorem QueryTable.Keeps.use {t : QueryTable} (h : t.Keeps f asking) (column : String) :
    (t.use column).Keeps f asking := by
  obtain ⟨attributes, huse⟩ := t.use_eq column
  rw [huse]
  exact ⟨h.called, h.asked⟩

theorem mem_attributeTo {single : Bool} (ht : t ∈ Select.attributeTo single tables c) :
    t ∈ tables ∨ ∃ u ∈ tables, t = u.use c.name := by
  rw [Select.attributeTo] at ht
  split at ht
  · exact (mem_modifyFirst ht).imp_right fun ⟨u, hu, _, heq⟩ => ⟨u, hu, heq⟩
  · split at ht
    · obtain ⟨u, hu, rfl⟩ := List.mem_map.mp ht
      exact .inr ⟨u, hu, rfl⟩
    · exact .inl ht

/-- A column is attributed to the same tables under their new names. -/
theorem attributeTo_renamed (h : ∀ t ∈ tables, t.Keeps f asking) (hc : c ∈ asking) (single : Bool) :
    Select.attributeTo single (tables.map (·.renamed f)) (c.renamed f) =
      (Select.attributeTo single tables c).map (·.renamed f) := by
  rw [Select.attributeTo, Select.attributeTo]
  cases hscope : c.scope with
  | some scope =>
    have hrenamed : (c.renamed f).scope = some (f scope) := by rw [ColumnRef.renamed, hscope, Option.map_some]
    rw [hrenamed]
    exact modifyFirst_map (fun t ht => (h t ht).answersTo hc hscope) fun t _ => t.use_renamed c.name
  | none =>
    have hrenamed : (c.renamed f).scope = none := by rw [ColumnRef.renamed, hscope, Option.map_none]
    rw [hrenamed]
    dsimp only
    split
    · rw [List.map_map, List.map_map]
      exact List.map_congr_left fun t _ => t.use_renamed c.name
    · rfl

theorem foldl_attributeTo_renamed (h : ∀ t ∈ tables, t.Keeps f asking) (single : Bool) {cs : List ColumnRef}
    (hcs : cs ⊆ asking) : (cs.map (·.renamed f)).foldl (Select.attributeTo single) (tables.map (·.renamed f)) =
      (cs.foldl (Select.attributeTo single) tables).map (·.renamed f) := by
  induction cs generalizing tables with
  | nil => rfl
  | cons c cs ih =>
    obtain ⟨hc, hmore⟩ := List.cons_subset.mp hcs
    rw [List.map_cons, List.foldl_cons, List.foldl_cons, attributeTo_renamed h hc]
    refine ih (fun t ht => ?_) hmore
    rcases mem_attributeTo ht with ht | ⟨u, hu, rfl⟩
    · exact h t ht
    · exact (h u hu).use c.name

end

-- ---------------------------------------------------------------------------
-- Queries
-- ---------------------------------------------------------------------------

/-- A table that no column is attributed to yet. -/
def TableRef.unused (t : TableRef) : QueryTable :=
  { entity := t.name.entityName, asName := t.asName.map (·.value), attributes := [] }

theorem TableRef.unused_renamed (t : TableRef) : (t.renamed f).unused = t.unused.renamed f := by
  obtain ⟨name, asName, position⟩ := t
  cases asName <;> rfl

theorem TableRef.unused_reference (t : TableRef) : t.unused.reference = t.reference := by
  rw [QueryTable.reference, unused, QualifiedName.entityName, QualifiedName.entityOf_eq]
  rfl

/-- The tables are called by their new names, and a column asks for one of these only if it asked for the same table
before. -/
structure Select.Keeps (f : String → String) (s : Select) : Prop where
  called : ∀ t ∈ s.allTables, (t.renamed f).reference = f t.reference
  asked : ∀ t ∈ s.allTables, ∀ c ∈ s.columns, ∀ scope ∈ c.scope, f t.reference = f scope → t.reference = scope

/-- A query under other names touches the same tables and columns. -/
theorem Select.queryTables_renamed {s : Select} (h : s.Keeps f) :
    (s.renamed f).queryTables = s.queryTables.map (·.renamed f) := by
  have htables : (s.renamed f).allTables.map TableRef.unused = (s.allTables.map TableRef.unused).map (·.renamed f) := by
    rw [allTables_renamed, List.map_map, List.map_map]
    exact List.map_congr_left fun t _ => t.unused_renamed
  have hkeeps : ∀ t ∈ s.allTables.map TableRef.unused, t.Keeps f s.columns := by
    refine List.forall_mem_map.mpr fun t ht => ⟨?_, ?_⟩
    · rw [← t.unused_renamed, TableRef.unused_reference, TableRef.unused_reference, h.called t ht]
    · rw [TableRef.unused_reference]
      exact h.asked t ht
  show (s.renamed f).columns.foldl (attributeTo (((s.renamed f).allTables.map TableRef.unused).length == 1))
    ((s.renamed f).allTables.map TableRef.unused) = _
  rw [htables, columns_renamed, List.length_map]
  exact foldl_attributeTo_renamed hkeeps _ (List.Subset.refl _)

theorem asName_attributeTo (single : Bool) (tables : List QueryTable) (c : ColumnRef) :
    (Select.attributeTo single tables c).map (·.asName) = tables.map (·.asName) := by
  have huse (t : QueryTable) : (t.use c.name).asName = t.asName := by
    obtain ⟨attributes, huse⟩ := t.use_eq c.name
    rw [huse]
  rw [Select.attributeTo]
  split
  · exact map_modifyFirst (fun t _ => huse t) tables
  · split
    · rw [List.map_map]
      exact List.map_congr_left fun t _ => huse t
    · rfl

/-- Attribution leaves the tables their names. -/
theorem Select.asName_queryTables (s : Select) :
    s.queryTables.map (·.asName) = s.allTables.map fun t => t.asName.map (·.value) := by
  have hkept (single : Bool) : (s.columns.foldl (attributeTo single) (s.allTables.map TableRef.unused)).map (·.asName) =
      (s.allTables.map TableRef.unused).map (·.asName) := by
    generalize s.allTables.map TableRef.unused = tables
    induction s.columns generalizing tables with
    | nil => rfl
    | cons c cs ih => exact (ih _).trans (asName_attributeTo single tables c)
  refine (hkept _).trans ?_
  rw [List.map_map]
  rfl

-- ---------------------------------------------------------------------------
-- One alias
-- ---------------------------------------------------------------------------

/-- A map that changes one place only. -/
theorem map_eq_modify {l : List α} {k g : α → α} (hat : ∀ a, l[i]? = some a → k a = g a)
    (hother : ∀ j a, j ≠ i → l[j]? = some a → k a = a) : l.map k = l.modify i g := by
  refine List.ext_getElem? fun j => ?_
  rw [List.getElem?_map, List.getElem?_modify]
  cases ha : l[j]? with
  | none => split <;> rfl
  | some a =>
    split
    case isTrue hij => exact congrArg some (hat a (hij ▸ ha))
    case isFalse hij => exact congrArg some (hother j a (Ne.symm hij) ha)

/-- The name `b` in the place of `a`. -/
def realias (a b : String) (name : String) : String := if name = a then b else name

theorem realias_inj {name scope : String} (hname : name ≠ b) (hscope : scope ≠ b)
    (h : realias a b name = realias a b scope) : name = scope := by
  rw [realias, realias] at h
  split at h <;> split at h <;> simp_all

theorem TableRef.renamed_realias {t : TableRef} (h : t.asName.map (·.value) ≠ some a) :
    t.renamed (realias a b) = t := by
  obtain ⟨name, _ | own, position⟩ := t
  · rfl
  · have hvalue : realias a b own.value = own.value := if_neg fun heq => h (congrArg some heq)
    rw [renamed, Option.map_some, Identifier.renamed, hvalue]

theorem QueryTable.renamed_realias {t : QueryTable} (h : t.asName ≠ some a) : t.renamed (realias a b) = t := by
  obtain ⟨entity, _ | own, attributes⟩ := t
  · rfl
  · have hvalue : realias a b own = own := if_neg fun heq => h (congrArg some heq)
    rw [renamed, Option.map_some, hvalue]

theorem Select.keeps_realias {i : Nat} {s : Select} {t : TableRef} (ht : s.allTables[i]? = some t)
    (ha : t.asName.map (·.value) = some a)
    (hothers : ∀ j (u : TableRef), j ≠ i → s.allTables[j]? = some u → u.reference ≠ a)
    (hnames : ∀ u ∈ s.allTables, u.reference ≠ b) (hscopes : ∀ c ∈ s.columns, c.scope ≠ some b) :
    s.Keeps (realias a b) where
  called u hu := by
    obtain ⟨j, hj⟩ := List.mem_iff_getElem?.mp hu
    cases halias : u.asName with
    | some own => simp only [TableRef.reference, TableRef.renamed, halias]; rfl
    | none =>
      have hne : u.reference ≠ a := by
        refine hothers j u (fun hji => ?_) hj
        rw [hji, ht, Option.some.injEq] at hj
        rw [hj, halias] at ha
        cases ha
      have hsame : u.renamed (realias a b) = u := TableRef.renamed_realias (by rw [halias]; simp)
      rw [hsame, realias, if_neg hne]
  asked u hu c hc scope hscope h :=
    realias_inj (hnames u hu) (fun heq => hscopes c hc (heq ▸ hscope)) h

/-- An alias that no other table is called by can be any name that the query does not use. The new query differs in
the alias of this table and in the scopes that asked for it, and in what it touches only the entry of the table says
so. -/
theorem Select.queryTables_realiased {s : Select} {t : TableRef} (ht : s.allTables[i]? = some t)
    (ha : t.asName.map (·.value) = some a)
    (hothers : ∀ j (u : TableRef), j ≠ i → s.allTables[j]? = some u → u.reference ≠ a)
    (hnames : ∀ u ∈ s.allTables, u.reference ≠ b) (hscopes : ∀ c ∈ s.columns, c.scope ≠ some b) :
    (s.renamed (realias a b)).allTables =
      (s.allTables.modify i fun u => { u with asName := u.asName.map fun own => { own with value := b } }) ∧
    (s.renamed (realias a b)).queryTables = s.queryTables.modify i fun entry => { entry with asName := some b } := by
  -- No other table has this alias: it would be called by it.
  have haliases : ∀ j (u : TableRef), j ≠ i → s.allTables[j]? = some u → u.asName.map (·.value) ≠ some a := by
    intro j u hji hu halias
    refine hothers j u hji hu ?_
    rw [TableRef.reference, halias, Option.getD_some]
  have hentries : ∀ (j : Nat) (entry : QueryTable), s.queryTables[j]? = some entry →
      ∃ u, s.allTables[j]? = some u ∧ u.asName.map (·.value) = entry.asName := by
    intro j entry hentry
    have hj := congrArg (·[j]?) s.asName_queryTables
    simp only [List.getElem?_map, hentry, Option.map_some] at hj
    exact Option.map_eq_some_iff.mp hj.symm
  constructor
  · rw [allTables_renamed]
    refine map_eq_modify (fun u hu => ?_) fun j u hji hu => TableRef.renamed_realias (haliases j u hji hu)
    rw [ht, Option.some.injEq] at hu
    subst hu
    obtain ⟨own, halias, hvalue⟩ := Option.map_eq_some_iff.mp ha
    rw [TableRef.renamed, halias, Option.map_some, Option.map_some, Identifier.renamed, realias, if_pos hvalue]
  · rw [queryTables_renamed (keeps_realias ht ha hothers hnames hscopes)]
    refine map_eq_modify (fun entry hentry => ?_) fun j entry hji hentry => ?_
    · obtain ⟨u, hu, halias⟩ := hentries i entry hentry
      rw [ht, Option.some.injEq] at hu
      rw [← hu, ha] at halias
      rw [QueryTable.renamed, ← halias, Option.map_some, realias, if_pos rfl]
    · obtain ⟨u, hu, halias⟩ := hentries j entry hentry
      exact QueryTable.renamed_realias (halias ▸ haliases j u hji hu)

/-- `SELECT u.id, p.(title) FROM users u JOIN posts p ON u.id = p.author WHERE users.id = day ORDER BY u.name` -/
def joinedQuery : Select where
  distinct := false
  fields := [
    .expression none (touching "u.id" [⟨some "u", "id"⟩]) none "u.id" .unknown,
    .expression (some (word "p")) (touching "title" [⟨none, "title"⟩]) none "title" .unknown]
  tables := [⟨⟨[word "users"]⟩, some (word "u"), .unknown⟩]
  joins := [{
    kind := .inner
    table := ⟨⟨[word "posts"]⟩, some (word "p"), .unknown⟩
    condition := some (touching "u.id = p.author" [⟨some "u", "id"⟩, ⟨some "p", "author"⟩])
    shared := []
    position := .unknown }]
  condition := some (touching "users.id = day" [⟨some "users", "id"⟩, ⟨none, "day"⟩])
  groupBy := []
  having := none
  orderBy := [⟨touching "u.name" [⟨some "u", "name"⟩], false⟩]
  limit := none
  offset := none
  position := .unknown
where
  word (value : String) : Identifier := ⟨value, false, .unknown⟩
  touching (text : String) (columns : List ColumnRef) : Expression := ⟨text, columns, .unknown⟩

theorem Select.queryTables_realiased_joined :
    (joinedQuery.renamed (realias "u" "people")).queryTables = [
      { entity := { name := "users" }, asName := some "people", attributes := [["id"], ["name"]] },
      { entity := { name := "posts" }, asName := some "p", attributes := [["title"], ["author"]] }] := by
  have hothers : ∀ j (u : TableRef), j ≠ 0 → joinedQuery.allTables[j]? = some u → u.reference ≠ "u" := by
    rintro (_ | _ | j) u hj hu
    · exact absurd rfl hj
    · cases hu; decide
    · cases hu
  have hrenamed := (queryTables_realiased (i := 0) (b := "people") (s := joinedQuery) rfl rfl hothers (by decide)
    (by decide)).2
  exact hrenamed.trans (by decide)

end SchemaDialects.Sql
