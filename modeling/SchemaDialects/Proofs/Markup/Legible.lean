import SchemaDialects.Proofs.Markup.Unbroken

/-!
# Schemas that can be read back

`Legible` asks of each text with free form only that the word it is written as is read as this text
again, where `Spellable` says which characters may be in it. Relations may stand in any order. The lines
of a legible schema can be read (`readable_documentSentences`).
-/

namespace SchemaDialects.Markup

open Text

-- ---------------------------------------------------------------------------
-- What can be read back
-- ---------------------------------------------------------------------------

/-- The word of a type and its default is read as these. -/
structure LegibleType (type : String) (value : Option String) : Prop where
  ne_nil : typeWord type value ≠ []
  word : ContainedWord (String.ofList (typeWord type value))
  plain : Modifier.ofWord? (String.ofList (typeWord type value)) = none
  readType : unquote (splitDefault 0 none (typeWord type value)).1 = type
  readValue : (splitDefault 0 none (typeWord type value)).2.map unbacktick = value

structure LegibleNamedType (t : NamedType) : Prop where
  space : SpellableSpace t.space
  name : FeedFree t.name
  values : ∀ values ∈ t.values, ∀ value ∈ values, FeedFree value
  definition : ∀ text ∈ t.definition, ContainedWord ("`" ++ text ++ "`")
  exclusive : t.values = none ∨ t.definition = none
  doc : ∀ text ∈ t.doc, SpellableNote text
  extra : SpellableExtra t.extra

/-- The attributes nested in it do not count. -/
structure LegibleAttribute (attr : Attribute) : Prop where
  name : FeedFree attr.name
  type : LegibleType attr.type attr.defaultValue
  doc : ∀ text ∈ attr.doc, SpellableNote text
  extra : SpellableExtra attr.extra

structure LegibleCheck (c : Check) : Prop where
  name : ∀ name ∈ c.name, FeedFree name ∧ '(' ∉ name.toList
  predicate : ContainedWord (predicateText c.predicate)
  doc : c.doc = none

structure LegibleEntity (e : Entity) : Prop where
  space : SpellableSpace e.space
  name : FeedFree e.name
  noDirective : e.space = {} → e.name.toLower ≠ "namespace"
  attrs : ∀ r ∈ rowsIn [] e.attrs, LegibleAttribute r.attr
  /-- Siblings have different names. -/
  distinct : (pathsOf e.attrs).Nodup
  key : ∀ key ∈ e.primaryKey, SpellableKey (pathsOf e.attrs) key
  index : ∀ i ∈ e.indexes, SpellableIndex i
  indexes : indexGrouping.Spelled (pathsOf e.attrs) e.indexes
  check : ∀ c ∈ e.checks, LegibleCheck c
  checks : checkGrouping.Spelled (pathsOf e.attrs) e.checks
  doc : ∀ text ∈ e.doc, SpellableNote text
  extra : SpellableExtra e.extra
  stats : e.stats = []

structure Legible (db : Database) : Prop where
  entity : ∀ e ∈ db.entities, LegibleEntity e
  entities : (db.entities.map Entity.id).Nodup
  type : ∀ t ∈ db.types, LegibleNamedType t
  types : (db.types.map NamedType.id).Nodup
  relation : ∀ r ∈ db.relations, SpellableRelation db r
  extra : db.extra = []
  stats : db.stats = none

-- ---------------------------------------------------------------------------
-- What can be spelled can be read back
-- ---------------------------------------------------------------------------

theorem SpellableAttribute.legibleType (h : SpellableAttribute attr) :
    LegibleType attr.type attr.defaultValue := by
  have hunbroken : Unbroken (typeWord attr.type attr.defaultValue) := by
    refine (unbroken_typeText h.type h.typeFeedFree).append ?_
    cases hvalue : attr.defaultValue with
    | none => exact wordPart_nil
    | some value => exact wordPart_defaultText (h.defaultValue value hvalue)
  obtain ⟨htype, hvalue⟩ := splitDefault_typeWord h.type attr.defaultValue
  exact ⟨hunbroken.solid.ne_nil, hunbroken.contained, ofWord?_typeWord h.type, htype, hvalue⟩

theorem SpellableNamedType.legible (h : SpellableNamedType t) : LegibleNamedType t where
  space := h.space
  name := h.name
  values := h.values
  definition text htext := by
    have hword : "`" ++ text ++ "`" = String.ofList ('`' :: (text.toList ++ ['`'])) :=
      String.toList_injective (by simp)
    exact hword ▸ (unbroken_ticked (h.definition text htext)).contained
  exclusive := h.exclusive
  doc := h.doc
  extra := h.extra

theorem SpellableEntity.legible (h : SpellableEntity e) : LegibleEntity e where
  space := h.space
  name := h.name
  noDirective := h.noDirective
  attrs r hr :=
    have hattr := h.attrs r hr
    ⟨hattr.name, hattr.legibleType, hattr.doc, hattr.extra⟩
  distinct := h.distinct
  key := h.key
  index := h.index
  indexes := h.indexes
  check c hc :=
    have hcheck := h.check c hc
    ⟨hcheck.name, contained_predicateText hcheck.predicate, hcheck.doc⟩
  checks := h.checks
  doc := h.doc
  extra := h.extra
  stats := h.stats

theorem Spellable.legible (h : Spellable db) : Legible db where
  entity e he := (h.entity e he).legible
  entities := h.entities
  type t ht := (h.type t ht).legible
  types := h.types
  relation := h.relation
  extra := h.extra
  stats := h.stats

-- ---------------------------------------------------------------------------
-- What can be read back stays in its place
-- ---------------------------------------------------------------------------

theorem SpellableExtra.comment_ok (h : SpellableExtra extra) :
    ∀ text ∈ commentOf extra, trim text = text ∧ '\n' ∉ text.toList := by
  obtain rfl | ⟨text, rfl, hfeed, htrim⟩ := h.comment
  · rintro text ⟨⟩
  · rintro _ ⟨⟩
    exact ⟨htrim, hfeed⟩

theorem contained_trailer (hdoc : ∀ text ∈ doc, SpellableNote text) (hextra : SpellableExtra extra) :
    ContainedTrailer doc extra where
  doc text htext := (hdoc text htext).feedFree
  comment text htext := (hextra.comment_ok text htext).2

theorem SpellableLink.contained (h : SpellableLink l written) : ContainedLink l where
  space := h.space
  name := h.name
  paths path hpath := (h.paths path hpath).2

theorem LegibleAttribute.contained (h : LegibleAttribute attr) : ContainedAttribute attr where
  name := h.name
  word := h.type.word
  operator := (ofWord?_eq_none.mp h.type.plain).2
  trailer := contained_trailer h.doc h.extra

theorem groupName_eq (h : 1 < attrs.length → name.isSome) :
    groupName e name attrs suffix = name := by
  cases name with
  | some name => rfl
  | none => exact if_pos (by simpa using h)

theorem LegibleEntity.indexName_eq (h : LegibleEntity e) (hi : i ∈ e.indexes) :
    indexName e i = i.name :=
  groupName_eq fun hlong => by
    have := h.indexes.named i hi hlong
    simpa [indexGrouping, sameGroup_self] using this

theorem LegibleEntity.checkName_eq (h : LegibleEntity e) (hc : c ∈ e.checks) :
    checkName e c = c.name :=
  groupName_eq fun hlong => by
    have := h.checks.named c hc hlong
    simpa [checkGrouping, sameGroup_self] using this

theorem LegibleEntity.contained (h : LegibleEntity e) : ContainedEntity e where
  space := h.space
  name := h.name
  noDirective := h.noDirective
  attrs r hr := (h.attrs r hr).contained
  distinct := h.distinct
  key key hkey := (h.key key hkey).name
  index i hi := by
    rw [h.indexName_eq hi]
    exact (h.index i hi).name
  check c hc := by
    rw [h.checkName_eq hc]
    exact fun name hname => ((h.check c hc).name name hname).1
  predicate c hc := (h.check c hc).predicate
  trailer := contained_trailer h.doc h.extra

-- ---------------------------------------------------------------------------
-- Lines
-- ---------------------------------------------------------------------------

theorem unbroken_bodyWord (h : LegibleNamedType t) : ∀ cs ∈ bodyWord t, Unbroken cs := by
  obtain ⟨space, name, values, definition, doc, extra⟩ := t
  cases values with
  | some values =>
    rintro cs ⟨⟩
    exact unbroken_values (h.values values rfl)
  | none =>
    cases definition with
    | some definition =>
      rintro cs ⟨⟩
      have hword := h.definition definition rfl
      exact unbroken_of_ends (by decide) (by decide) (by simpa using hword.passes) fun hmem =>
        hword.feedFree (by simp [hmem])
    | none => rintro cs ⟨⟩

/-- A line is readable if its words, its note and its metadata can be spelled. -/
theorem readable_of_words {t : Sentence} (hne : t.words ≠ []) (hwords : ∀ w ∈ t.words, Unbroken w.toList)
    (hnote : ∀ text ∈ t.note, SpellableNote text)
    (hcomment : ∀ text ∈ t.comment, trim text = text ∧ '\n' ∉ text.toList) : t.Readable where
  words := hwords
  note text htext :=
    have h := hnote text htext
    ⟨h.trimmed, h.hashes, h.feedFree⟩
  comment := hcomment
  start hnil := absurd hnil hne

theorem readable_typeSentence (h : LegibleNamedType t) : (typeSentence t).Readable := by
  refine readable_of_words (by simp [typeSentence]) (fun w hw => ?_) h.doc h.extra.comment_ok
  simp only [typeSentence, List.mem_cons, List.mem_map, Option.mem_toList] at hw
  obtain rfl | rfl | ⟨cs, hcs, rfl⟩ := hw
  · exact unbroken_keyword (by decide) (forall_chars (by decide))
  · exact unbroken_named h.space h.name
  · rw [String.toList_ofList]
    exact unbroken_bodyWord h cs hcs

theorem readable_entitySentence (h : LegibleEntity e) : (entitySentence e).Readable := by
  refine readable_of_words (by simp [entitySentence]) (fun w hw => ?_) h.doc h.extra.comment_ok
  obtain rfl := List.mem_singleton.mp hw
  exact unbroken_named h.space h.name

theorem readable_relationSentence (h : SpellableRelation db r) : (relationSentence r).Readable := by
  refine readable_of_words (by simp [relationSentence]) (fun w hw => ?_) h.doc h.extra.comment_ok
  simp only [relationSentence, List.mem_cons, List.not_mem_nil, or_false] at hw
  obtain rfl | rfl | rfl | rfl := hw
  · exact unbroken_keyword (by decide) (forall_chars (by decide))
  · exact unbroken_endpointText h.source.contained
  · exact unbroken_operator r
  · exact unbroken_endpointText h.target.contained

theorem readable_attributeSentence (he : LegibleEntity e) (hr : r ∈ rowsIn [] e.attrs)
    (hrelations : ∀ r ∈ relations, ContainedLink r.target) :
    (attributeSentence e relations r).Readable := by
  have hattr := he.attrs r hr
  refine readable_of_words (by simp [attributeSentence]) (fun w hw => ?_) hattr.doc
    hattr.extra.comment_ok
  simp only [attributeSentence, List.mem_cons] at hw
  obtain rfl | rfl | hw := hw
  · exact unbroken_quote hattr.name
  · rw [String.toList_ofList]
    exact unbroken_typeWord hattr.type.ne_nil hattr.type.word
  · exact unbroken_modifierWords he.contained hrelations hw

theorem readable_documentSentences (h : Legible db) : ∀ t ∈ documentSentences db, t.Readable := by
  refine forall_documentSentences readable_empty (fun t ht => readable_typeSentence (h.type t ht))
    (fun e he => readable_entitySentence (h.entity e he)) (fun e he r hr => ?_)
    fun r hr => readable_relationSentence (h.relation r hr)
  exact readable_attributeSentence (h.entity e he) hr fun r hr =>
    (h.relation r (mem_ownRelations hr).1).target.contained

end SchemaDialects.Markup
