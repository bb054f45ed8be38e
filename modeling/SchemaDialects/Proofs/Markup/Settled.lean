import SchemaDialects.Proofs.Markup.GatheredStates
import SchemaDialects.Proofs.Markup.Legible

/-!
# Schemas whose text is settled

The reader does not guarantee that the writer's text of its schema is read as the same schema: a type
that was quoted may be taken for a modifier when it is written without quotes, a note that began with a
hash becomes a comment, siblings of one name share their constraints. `Settled` excludes these. A
settled schema that was read is legible once the repetitions in its indexes and checks are dropped
(`legible_tidied`).
-/

namespace SchemaDialects.Markup

open Text

-- ---------------------------------------------------------------------------
-- Conditions
-- ---------------------------------------------------------------------------

/-- The note does not begin with a hash, which behind a blank begins a comment. -/
def Unhashed (doc : Option String) : Prop := ∀ text ∈ doc, text.toList.head? ≠ some '#'

/-- The attributes nested in it do not count. -/
structure SettledAttribute (attr : Attribute) : Prop where
  type : LegibleType attr.type attr.defaultValue
  doc : Unhashed attr.doc

structure SettledEntity (e : Entity) : Prop where
  noDirective : e.space = {} → e.name.toLower ≠ "namespace"
  attrs : ∀ r ∈ rowsIn [] e.attrs, SettledAttribute r.attr
  /-- Siblings have different names. -/
  distinct : (pathsOf e.attrs).Nodup
  predicate : ∀ c ∈ e.checks, OneWord (predicateText c.predicate)
  doc : Unhashed e.doc

structure SettledNamedType (t : NamedType) : Prop where
  definition : ∀ text ∈ t.definition, OneWord ("`" ++ text ++ "`")
  doc : Unhashed t.doc

structure SettledRelation (r : Relation) : Prop where
  target : ∀ path ∈ r.target.attrs, ∀ name ∈ path, '(' ∉ name.toList
  doc : Unhashed r.doc

structure Settled (db : Database) : Prop where
  entity : ∀ e ∈ db.entities, SettledEntity e
  type : ∀ t ∈ db.types, SettledNamedType t
  relation : ∀ r ∈ db.relations, SettledRelation r

-- ---------------------------------------------------------------------------
-- The conditions can be checked
-- ---------------------------------------------------------------------------

instance (doc : Option String) : Decidable (Unhashed doc) :=
  inferInstanceAs (Decidable (∀ text ∈ doc, _))

instance (type : String) (value : Option String) : Decidable (LegibleType type value) :=
  decidable_of_iff (typeWord type value ≠ [] ∧ ContainedWord (String.ofList (typeWord type value)) ∧
      Modifier.ofWord? (String.ofList (typeWord type value)) = none ∧
      unquote (splitDefault 0 none (typeWord type value)).1 = type ∧
      (splitDefault 0 none (typeWord type value)).2.map unbacktick = value)
    ⟨fun ⟨a, b, c, d, e⟩ => ⟨a, b, c, d, e⟩, fun ⟨a, b, c, d, e⟩ => ⟨a, b, c, d, e⟩⟩

instance (attr : Attribute) : Decidable (SettledAttribute attr) :=
  decidable_of_iff (LegibleType attr.type attr.defaultValue ∧ Unhashed attr.doc)
    ⟨fun ⟨a, b⟩ => ⟨a, b⟩, fun ⟨a, b⟩ => ⟨a, b⟩⟩

mutual

/-- The rows of an attribute, by recursion along the tree. -/
def rowsOf (parent : AttributePath) : Attribute → List Row
  | ⟨name, type, nullable, generated, defaultValue, nested, doc, extra⟩ =>
    ⟨parent, { name, type, nullable, generated, defaultValue, doc, extra }⟩ ::
      rowsOfAll (parent ++ [name]) nested

def rowsOfAll (parent : AttributePath) : List Attribute → List Row
  | [] => []
  | attr :: rest => rowsOf parent attr ++ rowsOfAll parent rest

end

theorem rowsOfAll_eq (parent : AttributePath) (attrs : List Attribute) :
    rowsOfAll parent attrs = rowsIn parent attrs := by
  induction attrs using attributes_induction generalizing parent with
  | nil => rw [rowsOfAll, rowsIn_nil]
  | cons attr rest ihn ihr =>
    cases attr
    rw [rowsOfAll, rowsOf, rowsIn, ihn, ihr]
    rfl

instance (e : Entity) : Decidable (SettledEntity e) :=
  decidable_of_iff ((e.space = {} → e.name.toLower ≠ "namespace") ∧
      (∀ r ∈ rowsOfAll [] e.attrs, SettledAttribute r.attr) ∧ ((rowsOfAll [] e.attrs).map Row.path).Nodup ∧
      (∀ c ∈ e.checks, OneWord (predicateText c.predicate)) ∧ Unhashed e.doc) <| by
    rw [rowsOfAll_eq]
    exact ⟨fun ⟨a, b, c, d, e⟩ => ⟨a, b, c, d, e⟩, fun ⟨a, b, c, d, e⟩ => ⟨a, b, c, d, e⟩⟩

instance (t : NamedType) : Decidable (SettledNamedType t) :=
  decidable_of_iff ((∀ text ∈ t.definition, OneWord ("`" ++ text ++ "`")) ∧ Unhashed t.doc)
    ⟨fun ⟨a, b⟩ => ⟨a, b⟩, fun ⟨a, b⟩ => ⟨a, b⟩⟩

instance (r : Relation) : Decidable (SettledRelation r) :=
  decidable_of_iff ((∀ path ∈ r.target.attrs, ∀ name ∈ path, '(' ∉ name.toList) ∧ Unhashed r.doc)
    ⟨fun ⟨a, b⟩ => ⟨a, b⟩, fun ⟨a, b⟩ => ⟨a, b⟩⟩

instance (db : Database) : Decidable (Settled db) :=
  decidable_of_iff ((∀ e ∈ db.entities, SettledEntity e) ∧ (∀ t ∈ db.types, SettledNamedType t) ∧
      ∀ r ∈ db.relations, SettledRelation r)
    ⟨fun ⟨a, b, c⟩ => ⟨a, b, c⟩, fun ⟨a, b, c⟩ => ⟨a, b, c⟩⟩

-- ---------------------------------------------------------------------------
-- Without repetitions
-- ---------------------------------------------------------------------------

/-- The entity with each attribute once in an index or check. -/
def tidied (e : Entity) : Entity where
  space := e.space
  name := e.name
  attrs := e.attrs
  primaryKey := e.primaryKey
  indexes := e.indexes.map (indexGrouping.tidy (pathsOf e.attrs))
  checks := e.checks.map (checkGrouping.tidy (pathsOf e.attrs))
  doc := e.doc
  stats := e.stats
  extra := e.extra

def tidiedDatabase (db : Database) : Database := { db with entities := db.entities.map tidied }

theorem entity?_tidiedDatabase (db : Database) (id : EntityName) :
    (tidiedDatabase db).entity? id = (db.entity? id).map tidied := by
  simp only [Database.entity?, tidiedDatabase, List.find?_map]
  rfl

theorem isAtAttribute_tidiedDatabase (db : Database) (r : Relation) :
    isAtAttribute (tidiedDatabase db) r = isAtAttribute db r := by
  unfold isAtAttribute
  rw [entity?_tidiedDatabase]
  cases r.source.attrs with
  | nil => rfl
  | cons path more => cases more <;> cases db.entity? r.source.entity <;> rfl

-- ---------------------------------------------------------------------------
-- Legible parts
-- ---------------------------------------------------------------------------

theorem SoundNote.spellable (h : SoundNote text) (hhead : text.toList.head? ≠ some '#') :
    SpellableNote text := ⟨h.feedFree, h.trimmed, h.hashes hhead⟩

theorem spellable_doc (h : ∀ text ∈ doc, SoundNote text) (hdoc : Unhashed doc) :
    ∀ text ∈ doc, SpellableNote text := fun text htext => (h text htext).spellable (hdoc text htext)

theorem feedFree_ticked (h : FeedFree text) : FeedFree ("`" ++ text ++ "`") := by
  simpa [FeedFree] using h

theorem feedFree_predicateText (h : FeedFree predicate) : FeedFree (predicateText predicate) := by
  unfold predicateText
  split
  · simp [FeedFree]
  · simpa [FeedFree] using h

theorem GatheredAttribute.legible (h : GatheredAttribute attr) (hs : SettledAttribute attr) :
    LegibleAttribute attr where
  name := h.name
  type := hs.type
  doc := spellable_doc h.doc hs.doc
  extra := h.extra

theorem GatheredNamedType.legible (h : GatheredNamedType t) (hs : SettledNamedType t) :
    LegibleNamedType t where
  space := h.space
  name := h.name
  values := h.values
  definition text htext := ⟨feedFree_ticked (h.definition text htext), hs.definition text htext⟩
  exclusive := h.exclusive
  doc := spellable_doc h.doc hs.doc
  extra := h.extra

theorem GatheredEntity.legible_tidied (h : GatheredEntity e) (hs : SettledEntity e) :
    LegibleEntity (tidied e) where
  space := h.space
  name := h.name
  noDirective := hs.noDirective
  attrs r hr := (h.attrs r hr).legible (hs.attrs r hr)
  distinct := hs.distinct
  key := h.key
  index tidyItem htidy := by
    obtain ⟨i, hi, rfl⟩ := List.mem_map.mp htidy
    exact ⟨(h.index i hi).name, (h.index i hi).condition, (h.index i hi).definition, (h.index i hi).doc⟩
  indexes := h.indexes.spelled_tidy byName_indexGrouping hs.distinct
  check tidyItem htidy := by
    obtain ⟨c, hc, rfl⟩ := List.mem_map.mp htidy
    exact ⟨(h.check c hc).name, ⟨feedFree_predicateText (h.check c hc).predicate, hs.predicate c hc⟩,
      (h.check c hc).doc⟩
  checks := h.checks.spelled_tidy byName_checkGrouping hs.distinct
  doc := spellable_doc h.doc hs.doc
  extra := h.extra
  stats := h.stats

theorem GatheredEntity.feedFree_path (h : GatheredEntity e) (hpath : path ∈ pathsOf e.attrs) :
    ∀ name ∈ path, FeedFree name := by
  intro name hname
  obtain ⟨r, hr, rfl⟩ := exists_row_of_mem_path hpath hname
  exact (h.attrs r hr).name

-- ---------------------------------------------------------------------------
-- Relations
-- ---------------------------------------------------------------------------

theorem entity?_eq_some {db : Database} (h : (db.entities.map Entity.id).Nodup) (he : e ∈ db.entities) :
    db.entity? e.id = some e := by
  obtain ⟨before, after, hsplit⟩ := List.append_of_mem he
  rw [hsplit, List.map_append, List.nodup_append] at h
  rw [Database.entity?, hsplit, List.find?_append, List.find?_eq_none.mpr fun f hf => ?_]
  · simp
  · simpa using h.2.2 f.id (List.mem_map_of_mem hf) e.id (by simp)

theorem resolve_eq (s : State) (p : PendingRelation) : ∃ attrs,
    s.resolve p = { p.relation with target := { p.relation.target with attrs } } ∧
      (attrs = p.relation.target.attrs ∧ attrs ≠ [] ∨ attrs = State.fallbackTarget ∨
        ∃ e ∈ s.entities, ∃ key ∈ e.primaryKey, attrs = key.attrs) := by
  unfold State.resolve
  simp only
  split
  · refine ⟨_, rfl, .inr ?_⟩
    cases hfound : s.find? p.relation.target.entity with
    | none => exact .inl rfl
    | some e =>
      cases hkey : e.primaryKey with
      | none => exact .inl (by simp [hkey])
      | some key => exact .inr ⟨e, List.mem_of_find?_eq_some hfound, key, hkey, by simp [hkey]⟩
  · rename_i hattrs
    exact ⟨_, rfl, .inl ⟨rfl, by simpa using hattrs⟩⟩

variable {s : State}

theorem AtAttribute.spellable (hs : s.Gathered) (hsettled : ∀ e ∈ s.entities, SettledEntity e)
    (hentities : db.entities = s.entities) (h : AtAttribute s.entities r) :
    isAtAttribute db r = true ∧ SpellableLink r.source false := by
  obtain ⟨hdoc, hextra, e, he, hid, path, hattrs, hpath⟩ := h
  have hnodup := (hsettled e he).distinct
  have hgathered := hs.entity e he hnodup
  have hmem := hpath hnodup
  have hentity : db.entity? r.source.entity = some e :=
    hid ▸ entity?_eq_some (hentities ▸ hs.entities) (hentities ▸ he)
  have hhas : e.hasAttribute path = true := (isSome_findAttribute? hnodup).mpr hmem
  refine ⟨by simp [isAtAttribute, hattrs, hentity, hdoc, hextra, hhas], ?_⟩
  refine ⟨hid ▸ hgathered.space, hid ▸ hgathered.name, by simp [hattrs], ?_, fun h => nomatch h⟩
  rw [hattrs]
  exact List.forall_mem_singleton.mpr ⟨ne_nil_of_mem_pathsOf hmem, hgathered.feedFree_path hmem⟩

/-- The attributes of a target can be listed, also if they are filled in. -/
theorem spellable_target (hs : s.Gathered) (hsettled : ∀ e ∈ s.entities, SettledEntity e)
    (hp : p ∈ s.pending) (hr : SettledRelation (s.resolve p)) : SpellableLink (s.resolve p).target true := by
  obtain ⟨attrs, heq, hattrs⟩ := resolve_eq s p
  have htarget := (hs.relation p hp).target
  have hfree := hr.target
  rw [heq] at hfree ⊢
  have hpaths : attrs ≠ [] ∧ ∀ path ∈ attrs, path ≠ [] ∧ ∀ name ∈ path, FeedFree name := by
    rcases hattrs with ⟨rfl, hne⟩ | rfl | ⟨e, he, key, hkey, rfl⟩
    · exact ⟨hne, fun path hpath => ⟨(htarget.paths path hpath).1, fun name hname =>
        ((htarget.paths path hpath).2 name hname).1⟩⟩
    · simp [State.fallbackTarget, FeedFree]
    · have hgathered := hs.entity e he (hsettled e he).distinct
      obtain ⟨-, hne, hsub⟩ := hgathered.key key hkey
      exact ⟨hne, fun path hpath => ⟨ne_nil_of_mem_pathsOf (hsub.subset hpath),
        hgathered.feedFree_path (hsub.subset hpath)⟩⟩
  exact ⟨htarget.space, htarget.name, hpaths.1, hpaths.2, fun _ => hfree⟩

theorem spellable_resolve (hs : s.Gathered) (hsettled : ∀ e ∈ s.entities, SettledEntity e)
    (hentities : db.entities = s.entities) (hp : p ∈ s.pending) (hr : SettledRelation (s.resolve p)) :
    SpellableRelation db (s.resolve p) := by
  have htarget := spellable_target hs hsettled hp hr
  have hrelation := hs.relation p hp
  obtain ⟨attrs, heq, -⟩ := resolve_eq s p
  have hdoc := hr.doc
  rw [heq] at htarget hdoc ⊢
  refine ⟨?_, htarget, hrelation.cardinalities, hrelation.name, hrelation.onDelete, hrelation.onUpdate,
    spellable_doc hrelation.doc hdoc, hrelation.extra⟩
  rcases hrelation.origin with hat | ⟨hne, hsource⟩
  · have hat : AtAttribute s.entities { p.relation with target := { p.relation.target with attrs } } :=
      ⟨hat.doc, hat.extra, hat.attrs⟩
    obtain ⟨hwritten, hsource⟩ := hat.spellable hs hsettled hentities
    rw [hwritten]
    exact hsource
  · refine ⟨hsource.space, hsource.name, hne, fun path hpath => ?_, fun _ path hpath name hname => ?_⟩
    · exact ⟨(hsource.paths path hpath).1, fun name hname => ((hsource.paths path hpath).2 name hname).1⟩
    · exact ((hsource.paths path hpath).2 name hname).2

-- ---------------------------------------------------------------------------
-- Schemas
-- ---------------------------------------------------------------------------

theorem SpellableRelation.tidied (h : SpellableRelation db r) : SpellableRelation (tidiedDatabase db) r :=
  { h with source := by rw [isAtAttribute_tidiedDatabase]; exact h.source }

theorem State.Gathered.legible_tidied (hs : s.Gathered) (hread : s.finish.value = some db) (h : Settled db) :
    Legible (tidiedDatabase db) := by
  obtain rfl : { entities := s.entities, relations := s.pending.map s.resolve, types := s.types } = db :=
    Option.some.inj hread
  refine ⟨fun tidyEntity htidy => ?_, ?_, fun t ht => (hs.type t ht).legible (h.type t ht), hs.types,
    fun r hr => ?_, rfl, rfl⟩
  · obtain ⟨e, he, rfl⟩ := List.mem_map.mp htidy
    exact (hs.entity e he (h.entity e he).distinct).legible_tidied (h.entity e he)
  · have hids : (s.entities.map tidied).map Entity.id = s.entities.map Entity.id := by
      rw [List.map_map]
      rfl
    exact hids ▸ hs.entities
  · obtain ⟨p, hp, rfl⟩ := List.mem_map.mp hr
    exact (spellable_resolve hs h.entity rfl hp (h.relation _ hr)).tidied

/-- What was read from a text and is settled can be read back without its repetitions. -/
theorem legible_tidied (hread : (readSchema text).value = some db) (h : Settled db) :
    Legible (tidiedDatabase db) := (gathered_readLines text).legible_tidied hread h

theorem State.Gathered.entity_finish (hs : s.Gathered) (hread : s.finish.value = some db) (h : Settled db) :
    ∀ e ∈ db.entities, GatheredEntity e := by
  obtain rfl : { entities := s.entities, relations := s.pending.map s.resolve, types := s.types } = db :=
    Option.some.inj hread
  exact fun e he => hs.entity e he (h.entity e he).distinct

theorem gathered_entity (hread : (readSchema text).value = some db) (h : Settled db) :
    ∀ e ∈ db.entities, GatheredEntity e := (gathered_readLines text).entity_finish hread h

end SchemaDialects.Markup
