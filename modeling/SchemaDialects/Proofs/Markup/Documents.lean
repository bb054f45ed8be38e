import SchemaDialects.Proofs.Markup.Reading

/-!
# Documents read back

The text of a legible schema is read as this schema with its relations in the order of their lines
(`read_legible`).
-/

namespace SchemaDialects.Markup

open Text

-- ---------------------------------------------------------------------------
-- Relations and their lines
-- ---------------------------------------------------------------------------

/-- The relation is written at the attribute of this place. -/
def isAt (db : Database) (r : Relation) (place : EntityName × AttributePath) : Bool :=
  isAtAttribute db r && (r.source.entity == place.1 && r.source.attrs == [place.2])

theorem isAtAttribute_cases (h : isAtAttribute db r = true) : r.doc = none ∧ r.extra = [] ∧
    ∃ e ∈ db.entities, e.id = r.source.entity ∧
      ∃ path, r.source.attrs = [path] ∧ e.hasAttribute path = true := by
  unfold isAtAttribute at h
  split at h
  · rename_i path e hattrs hentity
    simp only [Bool.and_eq_true, Option.isNone_iff_eq_none, List.isEmpty_iff] at h
    refine ⟨h.1.1, h.1.2, e, List.mem_of_find?_eq_some hentity, ?_, path, hattrs, h.2⟩
    simpa using List.find?_some hentity
  · cases h

theorem any_isAt (h : Legible db) (r : Relation) :
    (places db).any (isAt db r) = isAtAttribute db r := by
  cases hat : isAtAttribute db r with
  | false => exact List.any_eq_false.mpr fun p _ => by simp [isAt, hat]
  | true =>
    obtain ⟨-, -, e, he, hid, path, hattrs, hpath⟩ := isAtAttribute_cases hat
    have hmem : path ∈ pathsOf e.attrs := (isSome_findAttribute? (h.entity e he).distinct).mp hpath
    refine List.any_eq_true.mpr ⟨(e.id, path), ?_, by simp [isAt, hat, hid, hattrs]⟩
    exact List.mem_flatMap.mpr ⟨e, he, List.mem_map_of_mem hmem⟩

theorem nodup_places (h : Legible db) : (places db).Nodup := by
  refine List.nodup_flatMap.mpr ⟨fun e he => ?_, ?_⟩
  · exact (h.entity e he).distinct.map fun a b heq => (Prod.mk.inj heq).2
  · refine (List.pairwise_map.mp h.entities).imp fun {a b} hne => ?_
    simp only [Function.onFun, List.disjoint_left]
    rintro p hp hq
    obtain ⟨path, -, rfl⟩ := List.mem_map.mp hp
    obtain ⟨path', -, heq⟩ := List.mem_map.mp hq
    exact hne (Prod.mk.inj heq).1.symm

theorem writtenAt (h : Legible db) (hr : r ∈ relationsAt (ownRelations db e) path) : WrittenAt e.id path r := by
  obtain ⟨hown, hpath⟩ := List.mem_filter.mp hr
  obtain ⟨hmem, hat, hentity⟩ := mem_ownRelations hown
  have hspell := h.relation r hmem
  obtain ⟨hdoc, hextra, -⟩ := isAtAttribute_cases hat
  obtain ⟨c, hc, hsource, htarget⟩ := hspell.cardinalities
  refine ⟨hspell.target.listable, c, hc, ?_⟩
  have hattrs : r.source.attrs = [path] := by simpa using hpath
  obtain ⟨name, ⟨sourceEntity, sourceAttrs, sourceCard⟩, ⟨targetEntity, targetAttrs, targetCard⟩,
    onDelete, onUpdate, doc, extra⟩ := r
  obtain rfl : name = none := hspell.name
  obtain rfl : onDelete = none := hspell.onDelete
  obtain rfl : onUpdate = none := hspell.onUpdate
  obtain rfl : doc = none := hdoc
  obtain rfl : extra = [] := hextra
  obtain rfl : sourceEntity = e.id := hentity
  obtain rfl : sourceAttrs = [path] := hattrs
  obtain rfl : sourceCard = some c.1 := hsource
  obtain rfl : targetCard = some c.2 := htarget
  rfl

/-- The relations in the order of their lines. -/
def relationsInLines (db : Database) : List Relation :=
  db.entities.flatMap (fun e => relationsOf (ownRelations db e) e) ++ standaloneRelations db

theorem mem_relationsInLines (h : r ∈ relationsInLines db) : r ∈ db.relations := by
  rcases List.mem_append.mp h with h | h
  · obtain ⟨e, -, h⟩ := List.mem_flatMap.mp h
    obtain ⟨path, -, h⟩ := List.mem_flatMap.mp h
    exact (mem_ownRelations (List.mem_of_mem_filter h)).1
  · exact List.mem_of_mem_filter h

theorem relationsAt_ownRelations (db : Database) (e : Entity) (path : AttributePath) :
    relationsAt (ownRelations db e) path = db.relations.filter (isAt db · (e.id, path)) := by
  rw [relationsAt, ownRelations, List.filter_filter, List.filter_filter]
  refine List.filter_congr fun r _ => ?_
  simp only [isAt]
  ac_rfl

/-- Place by place, and those without a place last. -/
theorem relationsInLines_places (h : Legible db) : relationsInLines db =
    (places db).flatMap (fun p => db.relations.filter (isAt db · p)) ++
      db.relations.filter fun r => !(places db).any (isAt db r) := by
  have hown : db.entities.flatMap (fun e => relationsOf (ownRelations db e) e) =
      (places db).flatMap fun p => db.relations.filter (isAt db · p) := by
    rw [places, List.flatMap_assoc]
    refine List.flatMap_congr fun e _ => ?_
    rw [relationsOf, List.flatMap_map]
    exact List.flatMap_congr fun path _ => relationsAt_ownRelations db e path
  have hstandalone : standaloneRelations db =
      db.relations.filter fun r => !(places db).any (isAt db r) :=
    List.filter_congr fun r _ => by rw [any_isAt h]
  rw [relationsInLines, hown, hstandalone]

/-- A relation has at most one place. -/
theorem isAt_unique (hp : isAt db r p = true) (hq : isAt db r q = true) : p = q := by
  simp only [isAt, Bool.and_eq_true, beq_iff_eq] at hp hq
  refine Prod.ext (hp.2.1.symm.trans hq.2.1) ?_
  simpa using hp.2.2.symm.trans hq.2.2

-- ---------------------------------------------------------------------------
-- Blocks of lines
-- ---------------------------------------------------------------------------

theorem leads_types {rest : List NamedType} (h : ∀ t ∈ rest, LegibleNamedType t)
    (hnodup : ((types ++ rest).map NamedType.id).Nodup) :
    Leads (rest.map typeSentence) (Holds .closed entities types relations)
      (Holds .closed entities (types ++ rest) relations) := by
  induction rest generalizing types with
  | nil => simpa using LeadsBy.nil
  | cons t rest ih =>
    have hfresh : ∀ u ∈ types, u.id ≠ t.id := by
      rw [List.map_append, List.nodup_append] at hnodup
      exact fun u hu => hnodup.2.2 u.id (List.mem_map_of_mem hu) t.id (by simp)
    have hnext := ih (fun u hu => h u (List.mem_cons_of_mem _ hu)) (show
      (((types ++ [t]) ++ rest).map NamedType.id).Nodup by simpa using hnodup)
    simpa using (leads_type (h t List.mem_cons_self) hfresh).append hnext

theorem leads_relations {rest : List Relation} (h : ∀ r ∈ rest, SpellableRelation db r)
    (hstandalone : ∀ r ∈ rest, isAtAttribute db r = false) :
    Leads (rest.map relationSentence) (Holds .closed entities types relations)
      (Holds .closed entities types (relations ++ rest)) := by
  induction rest generalizing relations with
  | nil => simpa using LeadsBy.nil
  | cons r rest ih =>
    have hnext := @ih (relations ++ [r]) (fun q hq => h q (List.mem_cons_of_mem _ hq))
      fun q hq => hstandalone q (List.mem_cons_of_mem _ hq)
    simpa using (leads_relation (h r List.mem_cons_self)
      (hstandalone r List.mem_cons_self)).append hnext

theorem leads_entities (h : Legible db) {rest : List Entity}
    (hsplit : db.entities = entities ++ rest) :
    Leads ((rest.map (entityBlock db)).flatMap (· ++ [Sentence.empty]))
      (Holds .closed entities types relations)
      (Holds .closed db.entities types
        (relations ++ rest.flatMap fun e => relationsOf (ownRelations db e) e)) := by
  induction rest generalizing entities relations with
  | nil => simpa [hsplit] using LeadsBy.nil
  | cons e rest ih =>
    have he : e ∈ db.entities := by simp [hsplit]
    have hfresh : ∀ f ∈ entities, f.id ≠ e.id := by
      have hnodup := h.entities
      rw [hsplit, List.map_append, List.nodup_append] at hnodup
      exact fun f hf => hnodup.2.2 f.id (List.mem_map_of_mem hf) e.id (by simp)
    have hfirst : Leads (entityBlock db e ++ [Sentence.empty])
        (Holds .closed entities types relations)
        (Holds .closed (entities ++ [e]) types (relations ++ relationsOf (ownRelations db e) e)) :=
      leads_entityBlock (h.entity e he) hfresh fun path _ q hq => writtenAt h hq
    have hnext := @ih (entities ++ [e]) (relations ++ relationsOf (ownRelations db e) e)
      (by simpa using hsplit)
    simpa using hfirst.append hnext

theorem intercalate_append {a : α} {blocks : List (List α)} (h : blocks ≠ []) :
    [a].intercalate blocks ++ [a] = blocks.flatMap (· ++ [a]) := by
  induction blocks with
  | nil => exact absurd rfl h
  | cons block rest ih =>
    cases rest with
    | nil => simp
    | cons next rest =>
      rw [List.intercalate_cons_cons, List.append_assoc, List.append_assoc, ih (by simp)]
      simp

theorem LeadsBy.unlessEmpty {R : Line → Sentence → Prop} (h : LeadsBy R block P Q)
    (hempty : LeadsBy R [Sentence.empty] Q Q) :
    LeadsBy R ((unlessEmpty block).flatMap (· ++ [Sentence.empty])) P Q := by
  unfold Markup.unlessEmpty
  split
  · rename_i hnil
    subst hnil
    exact h
  · simpa using h.append hempty

/-- The whole document from its types, its entities and its relations. -/
theorem leads_blocks {R : Line → Sentence → Prop} {Start Types Entities Relations : State → Prop}
    (htypes : LeadsBy R (db.types.map typeSentence) Start Types)
    (htypesEnd : LeadsBy R [Sentence.empty] Types Types)
    (hentities : LeadsBy R ((db.entities.map (entityBlock db)).flatMap (· ++ [Sentence.empty]))
      Types Entities)
    (hrelations : LeadsBy R ((standaloneRelations db).map relationSentence) Entities Relations)
    (hrelationsEnd : LeadsBy R [Sentence.empty] Relations Relations) :
    LeadsBy R (documentSentences db ++ [Sentence.empty]) Start Relations := by
  have hall : LeadsBy R ((blocks db).flatMap (· ++ [Sentence.empty])) Start Relations := by
    simp only [blocks, List.flatMap_append]
    exact (htypes.unlessEmpty htypesEnd).append (hentities.append (hrelations.unlessEmpty hrelationsEnd))
  by_cases hnil : blocks db = []
  · rw [hnil] at hall
    rw [documentSentences, hnil]
    exact hall.append hrelationsEnd
  · rwa [documentSentences, intercalate_append hnil]

theorem leads_document (h : Legible db) :
    Leads (documentSentences db ++ [Sentence.empty]) (Holds .closed [] [] [])
      (Holds .closed db.entities db.types (relationsInLines db)) := by
  have htypes : Leads (db.types.map typeSentence) (Holds .closed [] [] [])
      (Holds .closed [] db.types []) := leads_types h.type (by simpa using h.types)
  have hentities : Leads ((db.entities.map (entityBlock db)).flatMap (· ++ [Sentence.empty]))
      (Holds .closed [] db.types []) (Holds .closed db.entities db.types
        (db.entities.flatMap fun e => relationsOf (ownRelations db e) e)) :=
    leads_entities h rfl
  have hrelations : Leads ((standaloneRelations db).map relationSentence)
      (Holds .closed db.entities db.types
        (db.entities.flatMap fun e => relationsOf (ownRelations db e) e))
      (Holds .closed db.entities db.types (relationsInLines db)) := by
    have hstandalone : ∀ r ∈ standaloneRelations db, isAtAttribute db r = false := fun r hr => by
      simpa using (List.mem_filter.mp hr).2
    exact leads_relations (fun r hr => h.relation r (List.mem_of_mem_filter hr)) hstandalone
  exact leads_blocks htypes leads_empty hentities hrelations leads_empty

-- ---------------------------------------------------------------------------
-- The end of the text
-- ---------------------------------------------------------------------------

theorem value_finish (h : Legible db) (hs : Holds block db.entities db.types (relationsInLines db) s) :
    s.finish.value = some { db with relations := relationsInLines db } := by
  have hresolve : s.pending.map s.resolve = relationsInLines db := by
    rw [← hs.relations]
    refine List.map_congr_left fun p hp => ?_
    have hmem : p.relation ∈ relationsInLines db := hs.relations ▸ List.mem_map_of_mem hp
    have hattrs : p.relation.target.attrs.isEmpty = false := by
      simpa using (h.relation _ (mem_relationsInLines hmem)).target.attrs
    simp [State.resolve, hattrs]
  rw [State.finish]
  simp only [hresolve, hs.entities, hs.types, h.extra, h.stats]

/-- Types and entities that the reader does not know are no errors. -/
theorem hasErrors_finish {s : State} (hs : s.diagnostics = []) : s.finish.hasErrors = false := by
  refine List.any_eq_false.mpr fun d hd => ?_
  simp only [State.finish, State.inOrder, List.mem_mergeSort, hs, List.nil_append, List.mem_append,
    List.mem_map, List.mem_flatMap] at hd
  obtain ⟨⟨type, position⟩, -, rfl⟩ | ⟨p, -, problem, hproblem, rfl⟩ := hd
  · exact Bool.false_ne_true
  · simp only [State.relationProblems, List.mem_append] at hproblem
    obtain hproblem | hproblem := hproblem <;> split at hproblem <;>
      simp_all [Problem.diagnostic, Problem.level, Diagnostic.isError]

/-- A legible schema is read as it is written, with its relations in the order of their lines. -/
theorem read_legible (h : Legible db) :
    (readSchema (writeSchema db)).value = some { db with relations := relationsInLines db } ∧
      (readSchema (writeSchema db)).hasErrors = false := by
  obtain ⟨hlines, hclean⟩ := readLines_chars (readable_documentSentences h) (toList_writeSchema db)
  have hstart : Holds .closed [] [] [] { diagnostics := (readLines (writeSchema db)).2 } :=
    ⟨rfl, rfl, rfl, rfl, rfl, hclean⟩
  have hend := leads_document h _ _ hstart hlines
  exact ⟨value_finish h hend, hasErrors_finish hend.diagnostics⟩

end SchemaDialects.Markup
