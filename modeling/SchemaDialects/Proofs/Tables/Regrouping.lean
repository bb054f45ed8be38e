import SchemaDialects.Proofs.Lookup
import SchemaDialects.Proofs.Tables.RoundTrip

/-!
# Regrouping by schema

The tables and enumerations of a document stand under their schemas, the enumerations being put there
first. `Gathered` says how schemas lie then. `regather`: what stands in such schemas, put there once
more, gives the same schemas in the same order. `filter_contents_enterAll`: under one name things keep
the order in which they came.
-/

namespace SchemaDialects.Tables

-- ---------------------------------------------------------------------------
-- One schema of a name
-- ---------------------------------------------------------------------------

section
variable {f : Schema → Schema} {front back schemas : List Schema}

theorem inSchema_present (hfront : ∀ t ∈ front, t.name ≠ name) (hs : s.name = name) :
    inSchema name f (front ++ s :: back) = front ++ f s :: back := by
  have hany : (front ++ s :: back).any (·.name == name) = true := by simp [hs]
  rw [inSchema, if_pos hany]
  exact modifyFirst_append (by simpa using hfront) (by simp [hs])

theorem inSchema_fresh (h : ∀ s ∈ schemas, s.name ≠ name) :
    inSchema name f schemas = schemas ++ [f { name }] := by
  have hany : ¬schemas.any (·.name == name) = true := by simpa using h
  rw [inSchema, if_neg hany]

/-- Where names are distinct, a change is made to the only schema of its name, or to an empty one that is
added behind the others. -/
theorem inSchema_cases (f : Schema → Schema) (hnames : (schemas.map (·.name)).Nodup) (name : String) :
    (∃ front s back, schemas = front ++ s :: back ∧ s.name = name ∧ (∀ t ∈ front, t.name ≠ name) ∧
      (∀ t ∈ back, t.name ≠ name) ∧ inSchema name f schemas = front ++ f s :: back) ∨
    ((∀ s ∈ schemas, s.name ≠ name) ∧ inSchema name f schemas = schemas ++ [f { name }]) := by
  by_cases hnone : ∀ s ∈ schemas, s.name ≠ name
  · exact .inr ⟨hnone, inSchema_fresh hnone⟩
  · push Not at hnone
    obtain ⟨s, hmem, hs⟩ := hnone
    obtain ⟨front, back, rfl⟩ := List.append_of_mem hmem
    rw [List.map_append, List.map_cons] at hnames
    obtain ⟨-, hright, hcross⟩ := List.nodup_append.mp hnames
    have hfront : ∀ t ∈ front, t.name ≠ name := fun t ht =>
      hs ▸ hcross _ (List.mem_map_of_mem ht) _ List.mem_cons_self
    have hback : ∀ t ∈ back, t.name ≠ name := fun t ht h =>
      (List.nodup_cons.mp hright).1 (hs.trans h.symm ▸ List.mem_map_of_mem ht)
    exact .inl ⟨front, s, back, rfl, hs, hfront, hback, inSchema_present hfront hs⟩

end

-- ---------------------------------------------------------------------------
-- Things put into schemas
-- ---------------------------------------------------------------------------

/-- A way to put more things of one sort into a schema. -/
structure Puts (items : Schema → List α) (put : Schema → List α → Schema) : Prop where
  nil : ∀ s, put s [] = s
  append : ∀ s xs ys, put (put s xs) ys = put s (xs ++ ys)
  name : ∀ s xs, (put s xs).name = s.name
  items : ∀ s xs, items (put s xs) = items s ++ xs

def Schema.addEnums (s : Schema) (enums : List Enum) : Schema := { s with enums := s.enums ++ enums }

def Schema.addTables (s : Schema) (tables : List Table) : Schema := { s with tables := s.tables ++ tables }

theorem puts_addEnums : Puts Schema.enums Schema.addEnums where
  nil s := by simp [Schema.addEnums]
  append s xs ys := by simp [Schema.addEnums]
  name _ _ := rfl
  items _ _ := rfl

theorem puts_addTables : Puts Schema.tables Schema.addTables where
  nil s := by simp [Schema.addTables]
  append s xs ys := by simp [Schema.addTables]
  name _ _ := rfl
  items _ _ := rfl

/-- Puts a thing into the schema of its name. -/
def enter (put : Schema → List α → Schema) (schemas : List Schema) (item : String × α) : List Schema :=
  inSchema item.1 (put · [item.2]) schemas

section
variable {items : Schema → List α} {put : Schema → List α → Schema} {front back schemas : List Schema}

@[simp] theorem contents_nil : contents items [] = [] := rfl

@[simp] theorem contents_cons :
    contents items (s :: schemas) = (items s).map (s.name, ·) ++ contents items schemas := rfl

@[simp] theorem contents_append :
    contents items (front ++ back) = contents items front ++ contents items back := List.flatMap_append

/-- Things of one name are put one after the other into the schema that has it. -/
theorem foldl_enter_present (h : Puts items put) (hfront : ∀ t ∈ front, t.name ≠ s.name) (back : List Schema)
    (xs : List α) :
    (xs.map (s.name, ·)).foldl (enter put) (front ++ s :: back) = front ++ put s xs :: back := by
  induction xs generalizing s with
  | nil => rw [List.map_nil, List.foldl_nil, h.nil]
  | cons x xs ih =>
    have hstep : enter put (front ++ s :: back) (s.name, x) = front ++ put s [x] :: back :=
      inSchema_present hfront rfl
    have hname := h.name s [x]
    rw [List.map_cons, List.foldl_cons, hstep, ← hname, ih (hname ▸ hfront), h.append, List.singleton_append]

/-- The first of the things of a new name brings a schema with it, in which the others join it. -/
theorem foldl_enter_fresh (h : Puts items put) (hfresh : ∀ t ∈ schemas, t.name ≠ name) (hne : xs ≠ []) :
    (xs.map (name, ·)).foldl (enter put) schemas = schemas ++ [put { name } xs] := by
  obtain ⟨x, xs, rfl⟩ := List.exists_cons_of_ne_nil hne
  have hstep : enter put schemas (name, x) = schemas ++ [put { name } [x]] := inSchema_fresh hfresh
  have hname : (put { name } [x]).name = name := h.name _ _
  have hothers : (xs.map (name, ·)).foldl (enter put) (schemas ++ [put { name } [x]]) =
      schemas ++ [put (put { name } [x]) xs] := by
    have hpresent := foldl_enter_present h (hname.symm ▸ hfresh) [] xs
    rwa [hname] at hpresent
  rw [List.map_cons, List.foldl_cons, hstep, hothers, h.append, List.singleton_append]

/-- Schemas whose things were taken out are filled again where they stand. -/
theorem foldl_contents_present (h : Puts items put) (clear : Schema → Schema)
    (hname : ∀ s, (clear s).name = s.name) (hback : ∀ s ∈ back, put (clear s) (items s) = s)
    (hnames : ((front ++ back).map (·.name)).Nodup) :
    (contents items back).foldl (enter put) (front ++ back.map clear) = front ++ back := by
  induction back generalizing front with
  | nil => rfl
  | cons s back ih =>
    obtain ⟨hs, hback⟩ := List.forall_mem_cons.mp hback
    have hfront : ∀ t ∈ front, t.name ≠ s.name := fun t ht => by
      rw [List.map_append] at hnames
      exact (List.nodup_append.mp hnames).2.2 _ (List.mem_map_of_mem ht) _ List.mem_cons_self
    have hfirst : ((items s).map (s.name, ·)).foldl (enter put) (front ++ clear s :: back.map clear) =
        front ++ s :: back.map clear := by
      have hpresent := foldl_enter_present h ((hname s).symm ▸ hfront) (back.map clear) (items s)
      rwa [hname, hs] at hpresent
    have hothers : (contents items back).foldl (enter put) (front ++ [s] ++ back.map clear) =
        front ++ [s] ++ back := ih hback (by simpa using hnames)
    rw [List.append_assoc, List.append_assoc] at hothers
    rw [contents_cons, List.foldl_append, List.map_cons, hfirst]
    exact hothers

/-- Schemas of new names, none of them empty, are added behind the others. -/
theorem foldl_contents_fresh (h : Puts items put) (keep : Schema → Schema)
    (hback : ∀ s ∈ back, items s ≠ [] ∧ put { name := s.name } (items s) = keep s)
    (hname : ∀ s, (keep s).name = s.name) (hnames : ((front ++ back).map (·.name)).Nodup) :
    (contents items back).foldl (enter put) front = front ++ back.map keep := by
  induction back generalizing front with
  | nil => simp
  | cons s back ih =>
    obtain ⟨⟨hne, hs⟩, hback⟩ := List.forall_mem_cons.mp hback
    have hfront : ∀ t ∈ front, t.name ≠ s.name := fun t ht => by
      rw [List.map_append] at hnames
      exact (List.nodup_append.mp hnames).2.2 _ (List.mem_map_of_mem ht) _ List.mem_cons_self
    have hothers : (contents items back).foldl (enter put) (front ++ [keep s]) =
        front ++ [keep s] ++ back.map keep := ih hback (by simpa [hname] using hnames)
    rw [contents_cons, List.foldl_append, foldl_enter_fresh h hfront hne, hs, hothers, List.append_assoc]
    rfl

/-- Under one name things keep the order in which they came. -/
theorem filter_contents_enter (h : Puts items put) (hempty : ∀ name, items { name } = [])
    (hnames : (schemas.map (·.name)).Nodup) (item : String × α) (name : String) :
    (contents items (enter put schemas item)).filter (·.1 = name) =
      (contents items schemas).filter (·.1 = name) ++ [item].filter (·.1 = name) := by
  obtain ⟨own, x⟩ := item
  have hnone : ∀ schemas : List Schema, (∀ t ∈ schemas, t.name ≠ name) →
      (contents items schemas).filter (·.1 = name) = [] := by
    intro schemas hother
    refine List.filter_eq_nil_iff.mpr fun p hp => ?_
    obtain ⟨t, ht, hp⟩ := List.mem_flatMap.mp hp
    obtain ⟨y, -, rfl⟩ := List.mem_map.mp hp
    simpa using hother t ht
  rcases inSchema_cases (put · [x]) hnames own with ⟨front, s, back, rfl, hs, -, hback, heq⟩ | ⟨-, heq⟩
  · rw [enter, heq]
    by_cases hown : own = name
    · -- Nothing of the name stands behind its schema.
      subst hown
      simp [h.items, h.name, hs, hnone back hback]
    · simp [h.items, h.name, hs, hown]
  · rw [enter, heq]
    simp [h.items, h.name, hempty]

end

-- ---------------------------------------------------------------------------
-- Gathered schemas
-- ---------------------------------------------------------------------------

/-- Schemas as they are gathered: each under a name of its own and with something in it, and no schema
with enumerations behind one that has none. -/
structure Gathered (schemas : List Schema) : Prop where
  names : (schemas.map (·.name)).Nodup
  notes : ∀ s ∈ schemas, s.note = none
  filled : ∀ s ∈ schemas, s.enums = [] → s.tables ≠ []
  ordered : (schemas.map (·.enums)).Pairwise fun enums later => enums = [] → later = []

theorem gathered_nil : Gathered [] := ⟨by simp, by simp, by simp, by simp⟩

theorem nodup_append_fresh {schemas : List Schema} {s : Schema} (hnames : (schemas.map (·.name)).Nodup)
    (hfresh : ∀ t ∈ schemas, t.name ≠ s.name) : ((schemas ++ [s]).map (·.name)).Nodup := by
  rw [List.map_append]
  refine List.nodup_append.mpr ⟨hnames, by simp, ?_⟩
  simpa using hfresh

/-- A table joins the schema of its name, or one that has no enumerations and comes last. -/
theorem Gathered.enter_table (h : Gathered schemas) (item : String × Table) :
    Gathered (enter Schema.addTables schemas item) := by
  obtain ⟨name, table⟩ := item
  rcases inSchema_cases (Schema.addTables · [table]) h.names name with
    ⟨front, s, back, rfl, -, -, -, heq⟩ | ⟨hfresh, heq⟩
  · rw [enter, heq]
    have hnames := h.names
    have hnotes := h.notes
    have hfilled := h.filled
    have hordered := h.ordered
    simp only [List.map_append, List.map_cons, List.forall_mem_append, List.forall_mem_cons]
      at hnames hnotes hfilled hordered
    refine ⟨?_, ?_, ?_, ?_⟩ <;>
      simp only [List.map_append, List.map_cons, List.forall_mem_append, List.forall_mem_cons]
    · exact hnames
    · exact hnotes
    · exact ⟨hfilled.1, by simp [Schema.addTables], hfilled.2.2⟩
    · exact hordered
  · rw [enter, heq]
    refine ⟨nodup_append_fresh h.names hfresh, ?_, ?_, ?_⟩
    · exact List.forall_mem_append.mpr ⟨h.notes, by simp [Schema.addTables]⟩
    · exact List.forall_mem_append.mpr ⟨h.filled, by simp [Schema.addTables]⟩
    · rw [List.map_append]
      exact List.pairwise_append.mpr ⟨h.ordered, by simp, by simp [Schema.addTables]⟩

/-- While only enumerations have come, an enumeration joins the schema of its name or starts one. -/
theorem gathered_enter_enum (h : Gathered schemas) (htyped : ∀ s ∈ schemas, s.enums ≠ [])
    (item : String × Enum) : Gathered (enter Schema.addEnums schemas item) ∧
      ∀ s ∈ enter Schema.addEnums schemas item, s.enums ≠ [] := by
  obtain ⟨name, enum⟩ := item
  -- Where every schema has enumerations, none is empty and their order is free.
  have hgathered : ∀ {schemas : List Schema}, (schemas.map (·.name)).Nodup →
      (∀ s ∈ schemas, s.note = none) → (∀ s ∈ schemas, s.enums ≠ []) →
      Gathered schemas ∧ ∀ s ∈ schemas, s.enums ≠ [] := fun hnames hnotes htyped => by
    refine ⟨⟨hnames, hnotes, fun s hs hnone => absurd hnone (htyped s hs), ?_⟩, htyped⟩
    refine List.pairwise_map.mpr (List.pairwise_of_forall_mem_list fun s hs t _ hnone => ?_)
    exact absurd hnone (htyped s hs)
  rcases inSchema_cases (Schema.addEnums · [enum]) h.names name with
    ⟨front, s, back, rfl, -, -, -, heq⟩ | ⟨hfresh, heq⟩
  · rw [enter, heq]
    have hnames := h.names
    have hnotes := h.notes
    simp only [List.map_append, List.map_cons, List.forall_mem_append, List.forall_mem_cons]
      at hnames hnotes htyped
    refine hgathered ?_ ?_ ?_ <;>
      simp only [List.map_append, List.map_cons, List.forall_mem_append, List.forall_mem_cons]
    · exact hnames
    · exact hnotes
    · exact ⟨htyped.1, by simp [Schema.addEnums], htyped.2.2⟩
  · rw [enter, heq]
    refine hgathered (nodup_append_fresh h.names hfresh) ?_ ?_
    · exact List.forall_mem_append.mpr ⟨h.notes, by simp [Schema.addEnums]⟩
    · exact List.forall_mem_append.mpr ⟨htyped, by simp [Schema.addEnums]⟩

/-- The schemas in which enumerations and then tables were put. -/
def enterAll (enums : List (String × Enum)) (tables : List (String × Table)) : List Schema :=
  tables.foldl (enter Schema.addTables) (enums.foldl (enter Schema.addEnums) [])

theorem gathered_foldl_tables (h : Gathered schemas) (tables : List (String × Table)) :
    Gathered (tables.foldl (enter Schema.addTables) schemas) := by
  induction tables generalizing schemas with
  | nil => exact h
  | cons item tables ih => exact ih (h.enter_table item)

theorem gathered_foldl_enums (h : Gathered schemas) (htyped : ∀ s ∈ schemas, s.enums ≠ [])
    (enums : List (String × Enum)) : Gathered (enums.foldl (enter Schema.addEnums) schemas) := by
  induction enums generalizing schemas with
  | nil => exact h
  | cons item enums ih =>
    obtain ⟨hgathered, htyped⟩ := gathered_enter_enum h htyped item
    exact ih hgathered htyped

theorem gathered_enterAll (enums : List (String × Enum)) (tables : List (String × Table)) :
    Gathered (enterAll enums tables) :=
  gathered_foldl_tables (gathered_foldl_enums gathered_nil (by simp) enums) tables

/-- What is put in is there, and nothing of another sort comes with it. -/
theorem contents_enter {items : Schema → List α} {put : Schema → List α → Schema} (h : Puts items put)
    (hempty : ∀ name, items { name } = []) (schemas : List Schema) (item : String × α) :
    (contents items (enter put schemas item)).Perm (contents items schemas ++ [item]) :=
  contents_inSchema items (put · [item.2]) (fun s => h.name s _) (fun s => h.items s _) (hempty item.1)

theorem contents_enter_other {items : Schema → List α} {put : Schema → List β → Schema}
    (hname : ∀ s xs, (put s xs).name = s.name) (hitems : ∀ s xs, items (put s xs) = items s)
    (hempty : ∀ name, items { name } = []) (schemas : List Schema) (item : String × β) :
    (contents items (enter put schemas item)).Perm (contents items schemas ++ []) :=
  contents_inSchema items (put · [item.2]) (fun s => hname s _)
    (fun s => (hitems s _).trans (List.append_nil _).symm) (hempty item.1)

/-- Tables of one name keep the order in which they came. -/
theorem filter_contents_enterAll (enums : List (String × Enum)) (tables : List (String × Table))
    (name : String) : (contents Schema.tables (enterAll enums tables)).filter (·.1 = name) =
      tables.filter (·.1 = name) := by
  have htables : ∀ {schemas : List Schema}, Gathered schemas →
      (contents Schema.tables (tables.foldl (enter Schema.addTables) schemas)).filter (·.1 = name) =
        (contents Schema.tables schemas).filter (·.1 = name) ++ tables.filter (·.1 = name) := by
    induction tables with
    | nil => simp
    | cons item tables ih =>
      intro schemas h
      have hitem := filter_contents_enter puts_addTables (fun _ => rfl) h.names item name
      rw [List.foldl_cons, ih (h.enter_table item), hitem, List.append_assoc, ← List.filter_append,
        List.singleton_append]
  have hnone : contents Schema.tables (enums.foldl (enter Schema.addEnums) []) = [] := by
    have hstep : ∀ schemas (item : String × Enum),
        (contents Schema.tables (enter Schema.addEnums schemas item)).Perm
          (contents Schema.tables schemas ++ []) :=
      contents_enter_other (fun _ _ => rfl) (fun _ _ => rfl) fun _ => rfl
    have hperm := contents_foldl hstep [] enums
    rw [List.flatMap_eq_nil_iff.mpr fun _ _ => rfl] at hperm
    exact List.perm_nil.mp hperm
  rw [enterAll, htables (gathered_foldl_enums gathered_nil (by simp) enums), hnone, List.filter_nil,
    List.nil_append]

theorem mem_tables_enterAll (h : item ∈ contents Schema.tables (enterAll enums tables)) : item ∈ tables := by
  have hname : item ∈ (contents Schema.tables (enterAll enums tables)).filter (·.1 = item.1) :=
    List.mem_filter.mpr ⟨h, by simp⟩
  rw [filter_contents_enterAll] at hname
  exact (List.mem_filter.mp hname).1

theorem mem_enums_enterAll (h : item ∈ contents Schema.enums (enterAll enums tables)) : item ∈ enums := by
  have hstep : ∀ schemas (item : String × Table),
      (contents Schema.enums (enter Schema.addTables schemas item)).Perm (contents Schema.enums schemas ++ []) :=
    contents_enter_other (fun _ _ => rfl) (fun _ _ => rfl) fun _ => rfl
  have htables := contents_foldl hstep (enums.foldl (enter Schema.addEnums) []) tables
  have henums := contents_foldl (contents_enter puts_addEnums fun _ => rfl) [] enums
  have hmem := htables.mem_iff.mp h
  rw [List.flatMap_eq_nil_iff.mpr fun _ _ => rfl, List.append_nil] at hmem
  have hmem := henums.mem_iff.mp hmem
  simpa using hmem

/-- Schemas with enumerations stand before those without. -/
theorem Gathered.split (h : Gathered schemas) : ∃ typed others, schemas = typed ++ others ∧
    (∀ s ∈ typed, s.enums ≠ []) ∧ ∀ s ∈ others, s.enums = [] := by
  have hordered := List.pairwise_map.mp h.ordered
  clear h
  induction schemas with
  | nil => exact ⟨[], [], rfl, by simp, by simp⟩
  | cons s schemas ih =>
    obtain ⟨hlater, hordered⟩ := List.pairwise_cons.mp hordered
    by_cases hs : s.enums = []
    · exact ⟨[], s :: schemas, rfl, by simp, List.forall_mem_cons.mpr ⟨hs, fun t ht => hlater t ht hs⟩⟩
    · obtain ⟨typed, others, rfl, htyped, hothers⟩ := ih hordered
      exact ⟨s :: typed, others, rfl, List.forall_mem_cons.mpr ⟨hs, htyped⟩, hothers⟩

/-- What stands in gathered schemas gives these schemas when it is put into schemas again. -/
theorem Gathered.regather (h : Gathered schemas) :
    enterAll (contents Schema.enums schemas) (contents Schema.tables schemas) = schemas := by
  obtain ⟨typed, others, rfl, htyped, hothers⟩ := h.split
  have hnotes := List.forall_mem_append.mp h.notes
  have htypedNames : ((typed).map (·.name)).Nodup := by
    have hnames := h.names
    rw [List.map_append] at hnames
    exact (List.nodup_append.mp hnames).1
  -- A schema of which only the name and the enumerations have come back.
  let bare (s : Schema) : Schema := { name := s.name, enums := s.enums }
  have henums : (contents Schema.enums (typed ++ others)).foldl (enter Schema.addEnums) [] = typed.map bare := by
    have hnone : contents Schema.enums others = [] := by
      refine List.flatMap_eq_nil_iff.mpr fun s hs => ?_
      rw [hothers s hs, List.map_nil]
    rw [contents_append, hnone, List.append_nil]
    exact foldl_contents_fresh puts_addEnums bare (fun s hs => ⟨htyped s hs, rfl⟩) (fun _ => rfl) htypedNames
  have hpresent : (contents Schema.tables typed).foldl (enter Schema.addTables) (typed.map bare) = typed := by
    show (contents Schema.tables typed).foldl (enter Schema.addTables) ([] ++ typed.map bare) = [] ++ typed
    refine foldl_contents_present puts_addTables bare (fun _ => rfl) (fun s hs => ?_) htypedNames
    obtain ⟨name, tables, enums, note⟩ := s
    obtain rfl : note = none := hnotes.1 _ hs
    rfl
  have hfresh : (contents Schema.tables others).foldl (enter Schema.addTables) typed = typed ++ others := by
    have hkept : ∀ s ∈ others, s.tables ≠ [] ∧ Schema.addTables { name := s.name } s.tables = s := by
      intro s hs
      refine ⟨h.filled s (List.mem_append_right _ hs) (hothers s hs), ?_⟩
      have hnote := hnotes.2 s hs
      have henums := hothers s hs
      obtain ⟨name, tables, enums, note⟩ := s
      obtain rfl : note = none := hnote
      obtain rfl : enums = [] := henums
      rfl
    rw [foldl_contents_fresh puts_addTables id hkept (fun _ => rfl) h.names, List.map_id]
  rw [enterAll, henums, contents_append, List.foldl_append, hpresent, hfresh]

end SchemaDialects.Tables
