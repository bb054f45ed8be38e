import SchemaDialects.Proofs.Markup.Collecting
import SchemaDialects.Proofs.Markup.Edge
import SchemaDialects.Proofs.Markup.LinesOfText

/-!
# What the reader gathers

Lines of attributes are read into `GatheredLine`s and added to `GatheredEntity`s. What concerns the order of
attributes and constraints is said of entities only whose attributes have different paths: an attribute
that takes the name of another one can be attached to the wrong one.
-/

namespace SchemaDialects.Markup

open Text

-- ---------------------------------------------------------------------------
-- Words
-- ---------------------------------------------------------------------------

theorem feedFree_of_subset {cs : List Char} (h : text.toList ⊆ cs) (hcs : '\n' ∉ cs) : FeedFree text :=
  fun hmem => hcs (h hmem)

theorem spellableSpace_of_takenFrom (h : Namespace.TakenFrom cs n) (hcs : '\n' ∉ cs) : SpellableSpace n :=
  fun segment hsegment name hname => feedFree_of_subset (h segment hsegment name hname) hcs

theorem spellableSpace_empty : SpellableSpace {} := by simp [SpellableSpace]

theorem gathered_entityIn {space : Namespace} (hspace : SpellableSpace space) (hcs : '\n' ∉ cs) :
    SpellableSpace (entityIn space cs).space ∧ FeedFree (entityIn space cs).name := by
  obtain ⟨hname, hown⟩ := takenFrom_entityIn space cs
  refine ⟨?_, feedFree_of_subset hname hcs⟩
  rcases hown with heq | hown
  · rwa [heq]
  · exact spellableSpace_of_takenFrom hown hcs

/-- One side of a relation as it is read. -/
structure GatheredEndpoint (e : Endpoint) : Prop where
  space : SpellableSpace e.entity.space
  name : FeedFree e.entity.name
  paths : ∀ path ∈ e.attrs, path ≠ [] ∧ ∀ name ∈ path, FeedFree name ∧ '(' ∉ name.toList

theorem gathered_read {space : Namespace} (hspace : SpellableSpace space) (htext : FeedFree text) :
    GatheredEndpoint (Endpoint.read space text) := by
  obtain ⟨cs, hcs, hentity⟩ := Endpoint.read_entity space text
  obtain ⟨hspace, hname⟩ := gathered_entityIn hspace fun hmem => htext (hcs hmem)
  rw [← hentity] at hspace hname
  refine ⟨hspace, hname, fun path hpath => ?_⟩
  obtain ⟨hne, hnames⟩ := Endpoint.read_attrs hpath
  exact ⟨hne, fun name hname =>
    ⟨feedFree_of_subset (hnames name hname).1 htext, (hnames name hname).2⟩⟩

-- ---------------------------------------------------------------------------
-- Notes and comments
-- ---------------------------------------------------------------------------

theorem soundNote_noteText (h : Line.Sound l) : ∀ text ∈ noteText l, SoundNote text := by
  intro text htext
  obtain ⟨w, hw, rfl⟩ := Option.map_eq_some_iff.mp htext
  exact h.note w hw

theorem spellableExtra_commentExtra (h : Line.Sound l) : SpellableExtra (commentExtra l) := by
  unfold commentExtra
  cases hcomment : l.comment with
  | none => exact ⟨.inl rfl⟩
  | some w => exact ⟨.inr ⟨w.text, rfl, h.comment w hcomment⟩⟩

-- ---------------------------------------------------------------------------
-- Lines of attributes
-- ---------------------------------------------------------------------------

structure GatheredAttribute (attr : Attribute) : Prop where
  name : FeedFree attr.name
  doc : ∀ text ∈ attr.doc, SoundNote text
  extra : SpellableExtra attr.extra

structure GatheredCheck (c : Check) : Prop where
  name : ∀ name ∈ c.name, FeedFree name ∧ '(' ∉ name.toList
  predicate : FeedFree c.predicate
  doc : c.doc = none

structure GatheredLine (l : AttributeLine) : Prop where
  attr : GatheredAttribute l.attr
  nested : l.attr.nested = []
  key : ∀ name ∈ l.key, ∀ n ∈ name, FeedFree n
  index : ∀ i ∈ l.indexes, ∀ n ∈ i.1, FeedFree n
  check : ∀ c ∈ l.checks, (∀ n ∈ c.1, FeedFree n ∧ '(' ∉ n.toList) ∧ FeedFree c.2
  reference : ∀ r ∈ l.references, r.cardinalities ≠ (.one, .many) ∧ GatheredEndpoint r.target

theorem GatheredLine.apply (h : GatheredLine l) (hm : m.TakenFrom cs) (hcs : '\n' ∉ cs) :
    GatheredLine (l.apply m) := by
  cases m with
  | key name =>
    refine ⟨h.attr, h.nested, ?_, h.index, h.check, h.reference⟩
    rintro _ ⟨⟩ n hn
    exact feedFree_of_subset (hm n hn) hcs
  | nullable => exact ⟨⟨h.attr.name, h.attr.doc, h.attr.extra⟩, h.nested, h.key, h.index, h.check, h.reference⟩
  | generated => exact ⟨⟨h.attr.name, h.attr.doc, h.attr.extra⟩, h.nested, h.key, h.index, h.check, h.reference⟩
  | index name unique =>
    refine ⟨h.attr, h.nested, h.key, ?_, h.check, h.reference⟩
    refine List.forall_mem_append.mpr ⟨h.index, List.forall_mem_singleton.mpr fun n hn => ?_⟩
    exact feedFree_of_subset (hm n hn) hcs
  | check name predicate =>
    obtain ⟨hname, hpredicate⟩ := hm
    refine ⟨h.attr, h.nested, h.key, h.index, ?_, h.reference⟩
    refine List.forall_mem_append.mpr ⟨h.check, List.forall_mem_singleton.mpr ⟨fun n hn => ?_, ?_⟩⟩
    · exact ⟨feedFree_of_subset (hname n hn).1 hcs, (hname n hn).2⟩
    · exact feedFree_of_subset hpredicate hcs
  | reference => exact h

theorem GatheredLine.applyAll {space : Namespace} (hspace : SpellableSpace space) (h : GatheredLine l)
    (hwords : ∀ w ∈ words, FeedFree w.text) (hread : l.applyAll space words = .ok l') :
    GatheredLine l' := by
  fun_induction AttributeLine.applyAll space l words with
  | case1 l =>
    cases hread
    exact h
  | case2 => cases hread
  | case3 => cases hread
  | case4 l word cardinalities hm target rest reference ih =>
    obtain ⟨hword, htarget, hrest⟩ : FeedFree word.text ∧ FeedFree target.text ∧
        ∀ w ∈ rest, FeedFree w.text := by simpa using hwords
    refine ih ⟨h.attr, h.nested, h.key, h.index, h.check, ?_⟩ hrest hread
    refine List.forall_mem_append.mpr ⟨h.reference, List.forall_mem_singleton.mpr ⟨?_, ?_⟩⟩
    · exact Modifier.takenFrom_of_ofWord? hm
    · exact gathered_read hspace htarget
  | case5 l word rest m hplain hm ih =>
    obtain ⟨hword, hrest⟩ := List.forall_mem_cons.mp hwords
    exact ih (h.apply (Modifier.takenFrom_of_ofWord? hm) hword) hrest hread

theorem gathered_readAttributeLine {space : Namespace} (hspace : SpellableSpace space) (hl : Line.Sound l)
    (hread : AttributeLine.read space l = .ok parsed) : GatheredLine parsed := by
  unfold AttributeLine.read at hread
  split at hread
  · cases hread
  · rename_i name rest hwords
    have hall := hl.words
    rw [hwords] at hall
    obtain ⟨hname, hrest⟩ := List.forall_mem_cons.mp hall
    have hattr : ∀ type value, GatheredAttribute
        { name := unquote name.text.toList, type, defaultValue := value, doc := noteText l,
          extra := commentExtra l } := fun type value =>
      ⟨feedFree_of_subset unquote_subset hname, soundNote_noteText hl, spellableExtra_commentExtra hl⟩
    have hplain : ∀ type value position, GatheredLine
        { attr := { name := unquote name.text.toList, type, defaultValue := value, doc := noteText l,
                    extra := commentExtra l }
          typePosition := position } := fun type value position =>
      ⟨hattr type value, rfl, by simp, by simp, by simp, by simp⟩
    simp only at hread
    split at hread
    · cases hread
      exact hplain _ _ _
    · split at hread
      · exact (hplain _ _ _).applyAll hspace hrest hread
      · exact GatheredLine.applyAll hspace (hplain _ _ _) (List.forall_mem_cons.mp hrest).2 hread

-- ---------------------------------------------------------------------------
-- Entities
-- ---------------------------------------------------------------------------

/-- An entity whose attributes have different paths, as it is read. -/
structure GatheredEntity (e : Entity) : Prop where
  space : SpellableSpace e.space
  name : FeedFree e.name
  attrs : ∀ r ∈ rowsIn [] e.attrs, GatheredAttribute r.attr
  key : ∀ key ∈ e.primaryKey, SpellableKey (pathsOf e.attrs) key
  index : ∀ i ∈ e.indexes, SpellableIndex i
  indexes : indexGrouping.Collected (pathsOf e.attrs) e.indexes
  check : ∀ c ∈ e.checks, GatheredCheck c
  checks : checkGrouping.Collected (pathsOf e.attrs) e.checks
  doc : ∀ text ∈ e.doc, SoundNote text
  extra : SpellableExtra e.extra
  stats : e.stats = []

theorem spellableKey_addToKey {paths : List AttributePath} (h : ∀ k ∈ key, SpellableKey paths k)
    (hname : ∀ n ∈ name, FeedFree n) : SpellableKey (paths ++ [path]) (addToKey path name key) := by
  cases key with
  | none => exact ⟨hname, by simp [addToKey], List.sublist_append_right _ _⟩
  | some key =>
    obtain ⟨hkey, -, hsub⟩ := h key rfl
    refine ⟨fun n hn => ?_, by simp [addToKey], hsub.append (List.Sublist.refl _)⟩
    cases name with
    | none => exact hkey n hn
    | some name => exact hname n hn

theorem spellableIndex_addToIndex (h : ∀ i ∈ indexes, SpellableIndex i) (item : Option String × Bool)
    (hname : ∀ n ∈ item.1, FeedFree n) :
    ∀ i ∈ addToIndex path indexes item, SpellableIndex i := by
  intro i hi
  simp only [addToIndex, addToGroup] at hi
  split at hi
  · rcases mem_modifyFirst hi with hi | ⟨a, ha, -, rfl⟩
    · exact h i hi
    · exact ⟨(h a ha).name, (h a ha).condition, (h a ha).definition, (h a ha).doc⟩
  · rcases List.mem_append.mp hi with hi | hi
    · exact h i hi
    · obtain rfl := List.mem_singleton.mp hi
      exact ⟨hname, rfl, rfl, rfl⟩

theorem gatheredCheck_addToCheck (h : ∀ c ∈ checks, GatheredCheck c) (item : Option String × String)
    (hitem : (∀ n ∈ item.1, FeedFree n ∧ '(' ∉ n.toList) ∧ FeedFree item.2) :
    ∀ c ∈ addToCheck path checks item, GatheredCheck c := by
  intro c hc
  simp only [addToCheck, addToGroup] at hc
  split at hc
  · rcases mem_modifyFirst hc with hc | ⟨a, ha, -, rfl⟩
    · exact h c hc
    · exact ⟨(h a ha).name, (h a ha).predicate, (h a ha).doc⟩
  · rcases List.mem_append.mp hc with hc | hc
    · exact h c hc
    · obtain rfl := List.mem_singleton.mp hc
      exact ⟨hitem.1, hitem.2, rfl⟩

theorem collected_addToIndex (hfresh : path ∉ paths) (h : indexGrouping.Collected (paths ++ [path]) indexes)
    (item : Option String × Bool) :
    indexGrouping.Collected (paths ++ [path]) (addToIndex path indexes item) :=
  h.addTo byName_indexGrouping hfresh { name := item.1, attrs := [], unique := item.2 }

theorem collected_addToCheck (hfresh : path ∉ paths) (h : checkGrouping.Collected (paths ++ [path]) checks)
    (item : Option String × String) :
    checkGrouping.Collected (paths ++ [path]) (addToCheck path checks item) :=
  h.addTo byName_checkGrouping hfresh { name := item.1, predicate := item.2 }

/-- An attribute at the edge of an entity. -/
theorem GatheredEntity.addAttribute (he : GatheredEntity e) (hl : GatheredLine l)
    (hnodup : (pathsOf (Markup.addAttribute parent l e).attrs).Nodup) (hedge : OnEdge e.attrs parent) :
    GatheredEntity (Markup.addAttribute parent l e) := by
  have hbefore : (pathsOf e.attrs).Nodup := hnodup.sublist (pathsOf_sublist_attach _ _ _)
  have hpaths : pathsOf (Markup.addAttribute parent l e).attrs =
      pathsOf e.attrs ++ [parent ++ [l.attr.name]] :=
    pathsOf_attach hedge hbefore hl.nested
  have hrows : rowsIn [] (Markup.addAttribute parent l e).attrs =
      rowsIn [] e.attrs ++ [⟨parent, l.attr⟩] :=
    rowsIn_attach hedge hbefore hl.nested
  have hfresh : parent ++ [l.attr.name] ∉ pathsOf e.attrs := by
    rw [hpaths] at hnodup
    exact fun hmem => (List.nodup_append.mp hnodup).2.2 _ hmem _ (by simp) rfl
  refine { space := he.space, name := he.name, attrs := ?_, key := ?_, index := ?_, indexes := ?_,
           check := ?_, checks := ?_, doc := he.doc, extra := he.extra, stats := he.stats }
  · rw [hrows]
    exact List.forall_mem_append.mpr ⟨he.attrs, List.forall_mem_singleton.mpr hl.attr⟩
  · rw [hpaths]
    intro key hkey
    cases hname : l.key with
    | none =>
      obtain ⟨hnames, hne, hsub⟩ := he.key key (by simpa [Markup.addAttribute, hname] using hkey)
      exact ⟨hnames, hne, hsub.trans (List.sublist_append_left _ _)⟩
    | some name =>
      obtain rfl : key = addToKey (parent ++ [l.attr.name]) name e.primaryKey := by
        simpa [Markup.addAttribute, hname, eq_comm] using hkey
      exact spellableKey_addToKey he.key (hl.key name hname)
  · exact List.foldlRecOn (motive := fun items => ∀ i ∈ items, SpellableIndex i) _ _ he.index
      fun _ h item hitem => spellableIndex_addToIndex h item (hl.index item hitem)
  · rw [hpaths]
    exact List.foldlRecOn (motive := indexGrouping.Collected _) _ _ he.indexes.append fun _ h item _ =>
      collected_addToIndex hfresh h item
  · exact List.foldlRecOn (motive := fun items => ∀ c ∈ items, GatheredCheck c) _ _ he.check
      fun _ h item hitem => gatheredCheck_addToCheck h item (hl.check item hitem)
  · rw [hpaths]
    exact List.foldlRecOn (motive := checkGrouping.Collected _) _ _ he.checks.append fun _ h item _ =>
      collected_addToCheck hfresh h item

end SchemaDialects.Markup
