import SchemaDialects.Proofs.Sql.Normal
import SchemaDialects.Proofs.Tally

/-!
# Tables from what is read

What a table becomes when its columns and constraints are carried out: `Column.apply` and
`Constraint.apply` say it for what is written, and carrying out what was read of it does the same. The
table that is built so is the entity without what later statements add (`bareEntity`).
-/

namespace SchemaDialects.Sql

-- ---------------------------------------------------------------------------
-- Columns
-- ---------------------------------------------------------------------------

/-- The key of an entity is written at this column. -/
def keyedAt (e : Entity) (a : Attribute) : Bool :=
  e.isWholeKey [a.name] && (e.primaryKey.map (·.name.isNone)).getD false

def uniqueAt (e : Entity) (a : Attribute) : Bool := e.indexes.any (isColumnUnique [a.name])

def keyMarks (e : Entity) (a : Attribute) : List Mark :=
  if keyedAt e a then [.key] else if a.nullable then [] else [.required]

def numberingMarks (a : Attribute) : List Mark :=
  if Flavor.isAutoIncrement a then [.numbering] else []

def valueMarks (a : Attribute) : List Mark :=
  match a.defaultValue with
  | none => []
  | some text => [if a.generated then .computed text else .value text]

def uniqueMarks (e : Entity) (a : Attribute) : List Mark := if uniqueAt e a then [.unique] else []

def marksOf (e : Entity) (a : Attribute) : List Mark :=
  keyMarks e a ++ numberingMarks a ++ valueMarks a ++ uniqueMarks e a

def columnOf (e : Entity) (a : Attribute) : Column := ⟨a.name, a.type, marksOf e a⟩

/-- The attribute without what statements behind its table add. -/
def bareAttribute (a : Attribute) : Attribute := { a with doc := none }

theorem keyedAt_eq (h : keyedAt e a = true) : e.primaryKey = some { attrs := [[a.name]] } := by
  simp only [keyedAt, Entity.isWholeKey, Bool.and_eq_true] at h
  cases hkey : e.primaryKey with
  | none => simp [hkey] at h
  | some key =>
    obtain ⟨name, attrs⟩ := key
    simp only [hkey, beq_iff_eq, Option.map_some, Option.getD_some, Option.isNone_iff_eq_none] at h
    rw [h.1, h.2]

/-- What a mark does to the column before it and to its table. -/
def Mark.apply (s : ColumnState) (m : Mark) : ColumnState :=
  s.apply { name := none, rule := m.rule, position := .unknown }

theorem apply_of_read (h : Mark.Says m c) (s : ColumnState) : s.apply c = m.apply s := by
  obtain ⟨name, rule, position⟩ := c
  obtain ⟨hname, hrule⟩ := h
  obtain rfl : name = none := hname
  cases m with
  | value text =>
    obtain ⟨e, rfl, rfl⟩ := hrule
    rfl
  | computed text =>
    obtain ⟨e, rfl, rfl⟩ := hrule
    rfl
  | _ =>
    cases hrule
    rfl

theorem foldl_apply_of_read (h : List.Forall₂ Mark.Says marks constraints) (s : ColumnState) :
    constraints.foldl ColumnState.apply s = marks.foldl Mark.apply s := by
  induction h generalizing s with
  | nil => rfl
  | cons hfirst _ ih => rw [List.foldl_cons, List.foldl_cons, apply_of_read hfirst, ih]

theorem keyMarks_apply (hkey : keyedAt e a = true → a.nullable = false) {s : ColumnState}
    (hname : s.attr.name = a.name) (hnullable : s.attr.nullable = true) :
    (keyMarks e a).foldl Mark.apply s = { s with
      attr := { s.attr with nullable := a.nullable }
      table := { s.table with
        primaryKey := if keyedAt e a then e.primaryKey else s.table.primaryKey } } := by
  rw [keyMarks]
  by_cases h : keyedAt e a = true
  · rw [if_pos h, if_pos h, keyedAt_eq h, hkey h, ← hname]
    rfl
  · rw [if_neg h, if_neg h]
    cases hnull : a.nullable with
    | true =>
      obtain ⟨table, attr, trace⟩ := s
      obtain ⟨_, _, nullable, _⟩ := attr
      obtain rfl : nullable = true := hnullable
      rfl
    | false => rfl

/-- An attribute that numbers itself has metadata that say so, any other one has none. -/
theorem extra_eq (h : NormalAttribute a) :
    a.extra = if Flavor.isAutoIncrement a then [(autoIncrementKey, .bool true)] else [] := by
  rcases h.extra with hextra | hextra
  · simp [Flavor.isAutoIncrement, hextra]
  · simp [Flavor.isAutoIncrement, hextra, autoIncrementKey]

theorem numberingMarks_apply (ha : NormalAttribute a) {s : ColumnState} (hextra : s.attr.extra = []) :
    (numberingMarks a).foldl Mark.apply s = { s with attr := { s.attr with extra := a.extra } } := by
  rw [numberingMarks, extra_eq ha]
  by_cases h : Flavor.isAutoIncrement a = true
  · rw [if_pos h, if_pos h, List.foldl_cons, List.foldl_nil, Mark.apply]
    simp only [Mark.rule, ColumnState.apply, hextra]
    rfl
  · obtain ⟨table, attr, trace⟩ := s
    obtain ⟨_, _, _, _, _, _, _, extra⟩ := attr
    obtain rfl : extra = [] := hextra
    rw [if_neg h, if_neg h]
    rfl

theorem valueMarks_apply (ha : NormalAttribute a) {s : ColumnState} (hvalue : s.attr.defaultValue = none)
    (hgenerated : s.attr.generated = false) :
    (valueMarks a).foldl Mark.apply s =
      { s with attr := { s.attr with generated := a.generated, defaultValue := a.defaultValue } } := by
  rw [valueMarks]
  cases hdefault : a.defaultValue with
  | none =>
    have hnot : a.generated = false := by
      refine Bool.eq_false_iff.mpr fun hcomputed => ?_
      have := ha.generated hcomputed
      rw [hdefault] at this
      contradiction
    obtain ⟨table, attr, trace⟩ := s
    obtain ⟨_, _, _, generated, value, _⟩ := attr
    obtain rfl : value = none := hvalue
    obtain rfl : generated = false := hgenerated
    rw [hnot]
    rfl
  | some text =>
    cases hcomputed : a.generated with
    | true => rfl
    | false =>
      obtain ⟨table, attr, trace⟩ := s
      obtain ⟨_, _, _, generated, _⟩ := attr
      obtain rfl : generated = false := hgenerated
      rfl

theorem uniqueMarks_apply {s : ColumnState} (hname : s.attr.name = a.name) :
    (uniqueMarks e a).foldl Mark.apply s = { s with
      table := { s.table with
        indexes := s.table.indexes ++ if uniqueAt e a then [columnIndex a] else [] } } := by
  rw [uniqueMarks]
  by_cases h : uniqueAt e a = true
  · rw [if_pos h, if_pos h, List.foldl_cons, List.foldl_nil, columnIndex, ← hname]
    rfl
  · rw [if_neg h, if_neg h, List.append_nil]
    rfl

/-- What the column of an attribute adds to the table of its entity. -/
def addAttribute (e table : Entity) (a : Attribute) : Entity :=
  { table with
    attrs := table.attrs ++ [bareAttribute a]
    primaryKey := if keyedAt e a then e.primaryKey else table.primaryKey
    indexes := table.indexes ++ if uniqueAt e a then [columnIndex a] else [] }

theorem addColumn_of_read (h : (columnOf e a).Says d) (ha : NormalAttribute a)
    (hkey : keyedAt e a = true → a.nullable = false) (table : Entity) :
    addColumn .postgres table d = (addAttribute e table a, {}) := by
  obtain ⟨hname, htype, hmarks⟩ := h
  have hnormal : normalizeType d.type.text .postgres = a.type := htype ▸ ha.normalized
  have hvalue : d.name.value = a.name := hname
  have hbare : bareAttribute a =
      { name := a.name, type := a.type, nullable := a.nullable, generated := a.generated,
        defaultValue := a.defaultValue, extra := a.extra } := by
    rw [bareAttribute, ha.nested]
  rw [addColumn, hnormal, hvalue, foldl_apply_of_read hmarks, columnOf, marksOf, List.foldl_append,
    List.foldl_append, List.foldl_append, keyMarks_apply hkey rfl rfl, numberingMarks_apply ha rfl,
    valueMarks_apply ha rfl rfl, uniqueMarks_apply (a := a) rfl, addAttribute, hbare]

/-- The columns of an entity, one after the other. -/
theorem foldl_addAttribute (e table : Entity) (attrs : List Attribute) :
    attrs.foldl (addAttribute e) table = { table with
      attrs := table.attrs ++ attrs.map bareAttribute
      primaryKey := if attrs.any (keyedAt e) then e.primaryKey else table.primaryKey
      indexes := table.indexes ++ (attrs.filter (uniqueAt e)).map columnIndex } := by
  induction attrs generalizing table with
  | nil => simp
  | cons a attrs ih =>
    rw [List.foldl_cons, ih, addAttribute]
    cases hkeyed : keyedAt e a <;> cases hunique : uniqueAt e a <;> simp [hkeyed, hunique]

-- ---------------------------------------------------------------------------
-- Constraints
-- ---------------------------------------------------------------------------

/-- The names of columns as paths. -/
def pathsOf (columns : List String) : List AttributePath := columns.map fun name => [name]

theorem columnPaths_eq {ids : List Identifier} (h : ids.map (·.value) = columns) :
    columnPaths ids = pathsOf columns := by
  rw [← h, columnPaths, pathsOf, List.map_map]
  rfl

/-- What a constraint adds to a table whose key columns are not null already. -/
def Constraint.add (table : Entity) (c : Constraint) : Entity :=
  match c.clause with
  | .key columns => { table with primaryKey := some { name := c.name, attrs := pathsOf columns } }
  | .unique columns => { table with
      indexes := table.indexes ++ [{ name := c.name, attrs := pathsOf columns, unique := true }] }
  | .check predicate => { table with
      checks := table.checks ++
        [{ name := c.name, attrs := (ownColumns (columnsOf predicate)).filter table.hasAttribute, predicate }] }
  | .foreignKey .. => table

theorem modifyFirst_self {p : α → Bool} {f : α → α} (h : ∀ a ∈ l, p a = true → f a = a) :
    modifyFirst p f l = l := by
  induction l with
  | nil => rfl
  | cons a l ih =>
    obtain ⟨hfirst, hmore⟩ := List.forall_mem_cons.mp h
    rw [modifyFirst]
    split
    · rename_i hp
      rw [hfirst hp]
    · rw [ih hmore]

/-- The key columns of a table may not be null. -/
def Required (table : Entity) (columns : List String) : Prop :=
  ∀ a ∈ table.attrs, a.name ∈ columns → a.nullable = false

theorem requireColumn_fst (position : Position)
    (h : ∀ a ∈ state.1.attrs, a.name = name → a.nullable = false) :
    (requireColumn position state [name]).1 = state.1 ∧
      (requireColumn position state [name]).2.pending = state.2.pending := by
  obtain ⟨table, trace⟩ := state
  have hattrs : modifyAttribute (fun a => { a with nullable := false }) table.attrs [name] = table.attrs := by
    refine modifyFirst_self fun a ha hname => ?_
    have hnull := h a ha (by simpa using hname)
    obtain ⟨_, _, nullable, _⟩ := a
    obtain rfl : nullable = false := hnull
    rfl
  rw [requireColumn]
  dsimp only
  split
  · rw [hattrs]
    exact ⟨rfl, rfl⟩
  · exact ⟨rfl, List.append_nil _⟩

theorem requireColumns_fst (position : Position) (state : Entity × Trace) (h : Required state.1 columns) :
    ((pathsOf columns).foldl (requireColumn position) state).1 = state.1 ∧
      ((pathsOf columns).foldl (requireColumn position) state).2.pending = state.2.pending := by
  induction columns generalizing state with
  | nil => exact ⟨rfl, rfl⟩
  | cons name columns ih =>
    obtain ⟨htable, hpending⟩ := requireColumn_fst position
      fun a ha hname => h a ha (hname ▸ List.mem_cons_self)
    have hmore : Required (requireColumn position state [name]).1 columns := by
      rw [htable]
      exact fun a ha hname => h a ha (List.mem_cons_of_mem _ hname)
    obtain ⟨hrest, hleft⟩ := ih _ hmore
    exact ⟨hrest.trans htable, hleft.trans hpending⟩

/-- Constraints of tables that are written inside a table. -/
def Clause.Inside (table : Entity) : Clause → Prop
  | key columns => Required table columns
  | foreignKey .. => False
  | _ => True

theorem addConstraint_of_read {c : Constraint} (h : c.Says t) (hinside : c.clause.Inside table) :
    (addConstraint table t).1 = c.add table ∧ (addConstraint table t).2.pending = [] := by
  obtain ⟨name, clause⟩ := c
  obtain ⟨id, rule, position⟩ := t
  obtain ⟨hname, hrule⟩ := h
  obtain rfl : nameOf id = name := hname
  cases clause with
  | key columns =>
    obtain ⟨ids, rfl, hids⟩ := hrule
    obtain ⟨htable, hpending⟩ := requireColumns_fst position (table, {}) hinside
    rw [addConstraint]
    dsimp only
    rw [columnPaths_eq hids, htable, hpending]
    exact ⟨rfl, rfl⟩
  | unique columns =>
    obtain ⟨ids, rfl, hids⟩ := hrule
    rw [addConstraint]
    dsimp only
    rw [columnPaths_eq hids]
    exact ⟨rfl, rfl⟩
  | check predicate =>
    obtain ⟨e, rfl, rfl, hcolumns⟩ := hrule
    rw [addConstraint]
    dsimp only
    rw [hcolumns]
    exact ⟨rfl, rfl⟩
  | foreignKey columns reference => exact hinside.elim

-- ---------------------------------------------------------------------------
-- Whole tables
-- ---------------------------------------------------------------------------

/-- Steps of which each changes the table as `f` says. -/
theorem runSteps_of_read {step : Entity → α → Entity × Trace} {Means : β → α → Prop} (P : Entity → Prop)
    (f : Entity → β → Entity) (h : List.Forall₂ Means xs steps) (hP : P table)
    (hstep : ∀ x ∈ xs, ∀ a table, Means x a → P table →
      (step table a).1 = f table x ∧ (step table a).2.pending = [] ∧ P (f table x)) :
    (runSteps step table steps).1 = xs.foldl f table ∧ (runSteps step table steps).2.pending = [] := by
  -- The trace in front plays no part in what the steps do.
  suffices hall : ∀ trace : Trace, trace.pending = [] →
      (steps.foldl (fun s a => ((step s.1 a).1, s.2 ++ (step s.1 a).2)) (table, trace)).1 =
          xs.foldl f table ∧
        (steps.foldl (fun s a => ((step s.1 a).1, s.2 ++ (step s.1 a).2)) (table, trace)).2.pending = [] from
    hall {} rfl
  induction h generalizing table with
  | nil => exact fun trace htrace => ⟨rfl, htrace⟩
  | cons hfirst _ ih =>
    intro trace htrace
    obtain ⟨htable, hpending, hnext⟩ := hstep _ List.mem_cons_self _ table hfirst hP
    rw [List.foldl_cons, List.foldl_cons, ← htable]
    refine ih (htable ▸ hnext) (fun x hx => hstep x (List.mem_cons_of_mem _ hx)) _ ?_
    show trace.pending ++ _ = []
    rw [htrace, hpending]
    rfl

def namesOf (attrs : List AttributePath) : List String := attrs.map fun path => path.headD ""

/-- The key is written at its column. -/
def keyAtColumn (e : Entity) (key : PrimaryKey) : Bool :=
  match key.attrs with
  | [path] => key.name.isNone && e.hasAttribute path
  | _ => false

def keyConstraints (e : Entity) : List Constraint :=
  match e.primaryKey with
  | none => []
  | some key => if keyAtColumn e key then [] else [⟨key.name, .key (namesOf key.attrs)⟩]

def uniqueConstraint (i : Index) : Constraint := ⟨i.name, .unique (namesOf i.attrs)⟩

def checkConstraint (c : Check) : Constraint := ⟨c.name, .check c.predicate⟩

def constraintsOf (e : Entity) : List Constraint :=
  keyConstraints e ++ (e.indexes.filter isTableUnique).map uniqueConstraint ++ e.checks.map checkConstraint

theorem pathsOf_namesOf (h : ∀ path ∈ attrs, ∃ name, path = [name]) : pathsOf (namesOf attrs) = attrs := by
  rw [pathsOf, namesOf, List.map_map]
  refine (List.map_congr_left fun path hpath => ?_).trans (List.map_id attrs)
  obtain ⟨name, rfl⟩ := h path hpath
  rfl

/-- A key at its column is the key that the constraints leave out. -/
theorem any_keyedAt (hkey : e.primaryKey = some key) (h : KeyInPlace e) :
    e.attrs.any (keyedAt e) = keyAtColumn e key := by
  obtain ⟨name, attrs⟩ := key
  rw [Bool.eq_iff_iff, List.any_eq_true]
  constructor
  · rintro ⟨a, ha, hat⟩
    obtain ⟨rfl, rfl⟩ := PrimaryKey.mk.inj (Option.some.inj (hkey.symm.trans (keyedAt_eq hat)))
    exact hasAttribute_iff.mpr ⟨a, ha, rfl⟩
  · intro hat
    rw [keyAtColumn] at hat
    split at hat
    · rename_i path heq
      obtain rfl : attrs = [path] := heq
      obtain ⟨hname, hpath⟩ := Bool.and_eq_true_iff.mp hat
      obtain rfl := Option.isNone_iff_eq_none.mp hname
      obtain ⟨column, rfl⟩ := h path hkey
      obtain ⟨a, ha, rfl⟩ := hasAttribute_iff.mp hpath
      exact ⟨a, ha, by simp [keyedAt, Entity.isWholeKey, hkey]⟩
    · contradiction

theorem keyConstraints_add (h : ∀ key ∈ e.primaryKey, SpellableKey e key) (table : Entity) :
    (keyConstraints e).foldl Constraint.add
        { table with primaryKey := if e.attrs.any (keyedAt e) then e.primaryKey else none } =
      { table with primaryKey := e.primaryKey } := by
  rw [keyConstraints]
  cases hkey : e.primaryKey with
  | none => simp
  | some key =>
    have hspell := h key hkey
    have hplace : KeyInPlace e := fun path hpath => (h _ hpath).columns.single path List.mem_cons_self
    rw [any_keyedAt hkey hplace]
    dsimp only
    split
    · rfl
    · rw [List.foldl_cons, List.foldl_nil, Constraint.add]
      dsimp only
      rw [pathsOf_namesOf hspell.columns.single]

theorem uniqueConstraints_add (h : ∀ i ∈ indexes, isTableUnique i = true ∧ SpellableIndex i)
    (table : Entity) :
    (indexes.map uniqueConstraint).foldl Constraint.add table =
      { table with indexes := table.indexes ++ indexes } := by
  induction indexes generalizing table with
  | nil => simp
  | cons i indexes ih =>
    obtain ⟨⟨hunique, hspell⟩, hmore⟩ := List.forall_mem_cons.mp h
    have hindex : { name := i.name, attrs := pathsOf (namesOf i.attrs), unique := true } = i := by
      rw [pathsOf_namesOf (hspell.constraint hunique).single]
      obtain ⟨name, attrs, unique, condition, definition, doc⟩ := i
      simp only [isTableUnique, Bool.and_eq_true, Option.isNone_iff_eq_none] at hunique
      obtain ⟨⟨⟨⟨rfl, rfl⟩, rfl⟩, -⟩, -⟩ := hunique
      obtain rfl : doc = none := hspell.doc
      rfl
    rw [List.map_cons, List.foldl_cons, ih hmore, Constraint.add, uniqueConstraint]
    dsimp only
    rw [hindex, List.append_assoc, List.singleton_append]

theorem checkConstraints_add {checks : List Check} {table : Entity}
    (h : ∀ c ∈ checks, SpellableCheck e c) (htable : table.attrs = e.attrs.map bareAttribute) :
    (checks.map checkConstraint).foldl Constraint.add table =
      { table with checks := table.checks ++ checks } := by
  induction checks generalizing table with
  | nil => simp
  | cons c checks ih =>
    obtain ⟨hspell, hmore⟩ := List.forall_mem_cons.mp h
    have hown : ∀ name, table.hasAttribute [name] = e.hasAttribute [name] := by
      intro name
      rw [Bool.eq_iff_iff, hasAttribute_iff, hasAttribute_iff, htable]
      simp [bareAttribute]
    have hattrs : (ownColumns (columnsOf c.predicate)).filter table.hasAttribute = c.attrs := by
      rw [hspell.attrs]
      refine List.filter_congr fun path hpath => ?_
      obtain ⟨column, -, rfl⟩ := List.mem_map.mp hpath
      exact hown _
    have hcheck : { name := c.name, attrs := c.attrs, predicate := c.predicate } = c := by
      obtain ⟨name, attrs, predicate, doc⟩ := c
      obtain rfl : doc = none := hspell.doc
      rfl
    rw [List.map_cons, List.foldl_cons, ih hmore (by exact htable), Constraint.add, checkConstraint]
    dsimp only
    rw [hattrs, hcheck, List.append_assoc, List.singleton_append]

/-- The entity without what the statements behind its table add. -/
def bareEntity (e : Entity) : Entity := { e with
  attrs := e.attrs.map bareAttribute
  indexes := (e.attrs.filter (uniqueAt e)).map columnIndex ++ e.indexes.filter isTableUnique
  doc := none }

/-- The table with its columns only. -/
def columnsTable (e : Entity) : Entity where
  space := e.space
  name := e.name
  attrs := e.attrs.map bareAttribute
  indexes := (e.attrs.filter (uniqueAt e)).map columnIndex

theorem forall_constraintsOf {P : Constraint → Prop}
    (hkey : ∀ key ∈ e.primaryKey, P ⟨key.name, .key (namesOf key.attrs)⟩)
    (hunique : ∀ i ∈ e.indexes, isTableUnique i = true → P (uniqueConstraint i))
    (hcheck : ∀ c ∈ e.checks, P (checkConstraint c)) : ∀ c ∈ constraintsOf e, P c := by
  intro c hc
  rw [constraintsOf, List.mem_append, List.mem_append, keyConstraints] at hc
  rcases hc with (hc | hc) | hc
  · split at hc
    · contradiction
    · rename_i key heq
      split at hc
      · contradiction
      · obtain rfl := List.mem_singleton.mp hc
        exact hkey key heq
  · obtain ⟨i, hi, rfl⟩ := List.mem_map.mp hc
    obtain ⟨hi, htable⟩ := List.mem_filter.mp hi
    exact hunique i hi htable
  · obtain ⟨check, hmem, rfl⟩ := List.mem_map.mp hc
    exact hcheck check hmem

theorem constraints_inside (h : NormalEntity e) (htable : table.attrs = e.attrs.map bareAttribute) :
    ∀ c ∈ constraintsOf e, c.clause.Inside table := by
  refine forall_constraintsOf (fun key hkey b hb hname => ?_) (fun _ _ _ => trivial) fun _ _ => trivial
  rw [htable] at hb
  obtain ⟨a, ha, rfl⟩ := List.mem_map.mp hb
  refine (h.key key hkey).required a ha ?_
  rw [← pathsOf_namesOf (h.key key hkey).columns.single]
  exact List.mem_map_of_mem hname

theorem add_attrs (table : Entity) (c : Constraint) : (c.add table).attrs = table.attrs := by
  rw [Constraint.add]
  split <;> rfl

theorem nameParts_entity (h : SpellableSpace space) :
    QualifiedName.entityOf (nameParts space name) = { space, name } := by
  obtain ⟨database, catalog, schema⟩ := space
  obtain ⟨hcatalog, hschema⟩ := h
  cases database <;> cases catalog <;> cases schema <;> simp_all [nameParts, QualifiedName.entityOf] <;> rfl

/-- The table that is built from what is read of an entity. -/
theorem buildTable_of_read (h : NormalEntity e) {s : CreateTable}
    (hmeant : (Command.table e.id (e.attrs.map (columnOf e)) (constraintsOf e)).Says (.createTable s)) :
    s.name.entityName = e.id ∧ (buildTable .postgres s).1 = bareEntity e ∧
      (buildTable .postgres s).2.pending = [] := by
  obtain ⟨hname, hcolumns, hconstraints⟩ := hmeant
  have hid : s.name.entityName = e.id := by
    rw [QualifiedName.entityName, hname]
    exact nameParts_entity h.space
  refine ⟨hid, ?_⟩
  obtain ⟨hbuilt, hfirst⟩ :
      (runSteps (addColumn .postgres) { space := e.space, name := e.name } s.columns).1 =
          e.attrs.foldl (addAttribute e) { space := e.space, name := e.name } ∧
        (runSteps (addColumn .postgres) { space := e.space, name := e.name } s.columns).2.pending = [] :=
    runSteps_of_read (fun _ => True) (addAttribute e) (List.forall₂_map_left_iff.mp hcolumns) trivial
    fun a ha d table hd _ => by
      have hkey : keyedAt e a = true → a.nullable = false := fun hat =>
        (h.key _ (keyedAt_eq hat)).required a ha List.mem_cons_self
      rw [addColumn_of_read hd (h.attrs a ha) hkey]
      exact ⟨rfl, rfl, trivial⟩
  have htable : (runSteps (addColumn .postgres) { space := e.space, name := e.name } s.columns).1 =
      { columnsTable e with primaryKey := if e.attrs.any (keyedAt e) then e.primaryKey else none } :=
    hbuilt.trans (foldl_addAttribute e _ e.attrs)
  have hattrs : (runSteps (addColumn .postgres) { space := e.space, name := e.name } s.columns).1.attrs =
      e.attrs.map bareAttribute := by
    rw [htable]
    rfl
  obtain ⟨hdone, hsecond⟩ := runSteps_of_read
    (fun table => table.attrs = e.attrs.map bareAttribute) Constraint.add hconstraints hattrs
    fun c hc t table ht htable => by
      obtain ⟨hadd, hpending⟩ := addConstraint_of_read ht (constraints_inside h htable c hc)
      exact ⟨hadd, hpending, (add_attrs table c).trans htable⟩
  have hpending : (runSteps (addColumn .postgres) { space := e.space, name := e.name } s.columns).2.pending ++
      (runSteps addConstraint
        (runSteps (addColumn .postgres) { space := e.space, name := e.name } s.columns).1
        s.constraints).2.pending = [] := by
    rw [hfirst, hsecond]
    rfl
  rw [buildTable, hid]
  refine ⟨hdone.trans ?_, hpending⟩
  have hunique : ∀ i ∈ e.indexes.filter isTableUnique, isTableUnique i = true ∧ SpellableIndex i :=
    fun i hi => ⟨(List.mem_filter.mp hi).2, h.index i (List.mem_filter.mp hi).1⟩
  rw [htable, constraintsOf, List.foldl_append, List.foldl_append, keyConstraints_add h.key,
    uniqueConstraints_add hunique, checkConstraints_add h.check rfl, bareEntity, h.stats, h.extra]
  rfl

end SchemaDialects.Sql
