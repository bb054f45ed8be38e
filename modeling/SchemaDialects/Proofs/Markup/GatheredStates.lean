import SchemaDialects.Proofs.Markup.Gathering

/-!
# Schemas under construction

`State.Gathered` says what holds of a schema under construction. Each line keeps it
(`State.Gathered.line`), so that it holds behind all lines of any text (`gathered_readLines`).
-/

namespace SchemaDialects.Markup

open Text

-- ---------------------------------------------------------------------------
-- Types and relations
-- ---------------------------------------------------------------------------

structure GatheredNamedType (t : NamedType) : Prop where
  space : SpellableSpace t.space
  name : FeedFree t.name
  values : ∀ values ∈ t.values, ∀ value ∈ values, FeedFree value
  definition : ∀ text ∈ t.definition, FeedFree text
  exclusive : t.values = none ∨ t.definition = none
  doc : ∀ text ∈ t.doc, SoundNote text
  extra : SpellableExtra t.extra

theorem gathered_withBody {body : Option Word} (h : GatheredNamedType t) (hvalues : t.values = none)
    (hdefinition : t.definition = none) (hbody : ∀ w ∈ body, FeedFree w.text) :
    GatheredNamedType (State.withBody t body) := by
  unfold State.withBody
  split
  · exact h
  · rename_i word
    have hword : FeedFree word.text := hbody word rfl
    split
    · rename_i content hcontent
      refine ⟨h.space, h.name, ?_, by simp [hdefinition], .inr hdefinition, h.doc, h.extra⟩
      rintro _ ⟨⟩ value hvalue
      obtain ⟨item, hitem, rfl⟩ := List.mem_map.mp hvalue
      have hsub := List.Subset.trans unquote_subset
        (List.Subset.trans (listItems_subset hitem) (between?_subset hcontent))
      exact feedFree_of_subset hsub hword
    · refine ⟨h.space, h.name, by simp [hvalues], ?_, .inl hvalues, h.doc, h.extra⟩
      rintro _ ⟨⟩
      exact feedFree_of_subset unbacktick_subset hword

theorem id_withBody (t : NamedType) (body : Option Word) : (State.withBody t body).id = t.id := by
  unfold State.withBody
  split
  · rfl
  · split <;> rfl

/-- A relation of an attribute line starts from this attribute and says nothing more. -/
structure AtAttribute (entities : List Entity) (r : Relation) : Prop where
  doc : r.doc = none
  extra : r.extra = []
  attrs : ∃ e ∈ entities, e.id = r.source.entity ∧ ∃ path, r.source.attrs = [path] ∧
    ((pathsOf e.attrs).Nodup → path ∈ pathsOf e.attrs)

/-- A relation before the attributes of its target are filled in. -/
structure GatheredRelation (entities : List Entity) (r : Relation) : Prop where
  origin : AtAttribute entities r ∨
    (r.source.attrs ≠ [] ∧ GatheredEndpoint { entity := r.source.entity, attrs := r.source.attrs })
  target : GatheredEndpoint { entity := r.target.entity, attrs := r.target.attrs }
  cardinalities : ∃ c, c ≠ (.one, .many) ∧ r.source.cardinality = some c.1 ∧
    r.target.cardinality = some c.2
  name : r.name = none
  onDelete : r.onDelete = none
  onUpdate : r.onUpdate = none
  doc : ∀ text ∈ r.doc, SoundNote text
  extra : SpellableExtra r.extra

/-- The second list has all entities of the first one, with all their paths. -/
def Extends (before after : List Entity) : Prop :=
  ∀ e ∈ before, ∃ e' ∈ after, e'.id = e.id ∧ (pathsOf e.attrs).Sublist (pathsOf e'.attrs)

theorem GatheredRelation.mono (hextends : Extends before after) (h : GatheredRelation before r) :
    GatheredRelation after r := by
  refine { h with origin := h.origin.imp_left fun ⟨hdoc, hextra, e, he, hid, path, hattrs, hpath⟩ => ?_ }
  obtain ⟨e', he', hid', hsub⟩ := hextends e he
  exact ⟨hdoc, hextra, e', he', hid'.trans hid, path, hattrs, fun hnodup =>
    hsub.subset (hpath (hnodup.sublist hsub))⟩

theorem extends_replace (hid : grown.id = e.id) (hsub : (pathsOf e.attrs).Sublist (pathsOf grown.attrs)) :
    Extends (before ++ e :: after) (before ++ grown :: after) := by
  intro f hf
  rw [List.mem_append, List.mem_cons] at hf
  rcases hf with hf | rfl | hf
  · exact ⟨f, by simp [hf], rfl, List.Sublist.refl _⟩
  · exact ⟨grown, by simp, hid, hsub⟩
  · exact ⟨f, by simp [hf], rfl, List.Sublist.refl _⟩

/-- An entity among others with other names is the one that is changed. -/
theorem modifyFirst_id_eq (h : (entities.map Entity.id).Nodup) (he : e ∈ entities) :
    ∃ before after, entities = before ++ e :: after ∧
      ∀ change, modifyFirst (·.id == e.id) change entities = before ++ change e :: after := by
  obtain ⟨before, after, rfl⟩ := List.append_of_mem he
  rw [List.map_append, List.nodup_append] at h
  refine ⟨before, after, rfl, fun change => modifyFirst_append (fun f hf => ?_) (by simp)⟩
  simpa using h.2.2 f.id (List.mem_map_of_mem hf) e.id (by simp)

-- ---------------------------------------------------------------------------
-- Open attributes
-- ---------------------------------------------------------------------------

/-- The attributes that may hold the next one are on the edge, each one inside those behind it. -/
structure Parents.Open (attrs : List Attribute) (parents : Parents) : Prop where
  edge : OnEdge attrs parents.path
  chain : parents.Pairwise fun a b => b.2 <+: a.2

theorem Parents.Open.around (h : Parents.Open attrs parents) (indent : Nat) :
    Parents.Open attrs (parents.around indent) := by
  have hsuffix : parents.around indent <:+ parents := List.dropWhile_suffix _
  refine ⟨?_, h.chain.sublist hsuffix.sublist⟩
  obtain ⟨front, heq⟩ := hsuffix
  cases hrest : parents.around indent with
  | nil => trivial
  | cons p rest =>
    rw [hrest] at heq
    refine h.edge.of_prefix ?_
    cases front with
    | nil =>
      rw [← heq]
      exact List.prefix_rfl
    | cons q front =>
      rw [← heq] at h ⊢
      exact (List.pairwise_cons.mp h.chain).1 p (by simp)

theorem Parents.Open.attach (h : Parents.Open attrs parents) (hnodup : (pathsOf attrs).Nodup) (indent : Nat) :
    Parents.Open (Markup.attach attr attrs parents.path)
      ((indent, parents.path ++ [attr.name]) :: parents) := by
  refine ⟨onEdge_attach h.edge hnodup, .cons (fun p hp => ?_) h.chain⟩
  cases parents with
  | nil => cases hp
  | cons q rest =>
    refine List.IsPrefix.trans ?_ (List.prefix_append q.2 [attr.name])
    rcases List.mem_cons.mp hp with rfl | hp
    · exact List.prefix_rfl
    · exact (List.pairwise_cons.mp h.chain).1 p hp

-- ---------------------------------------------------------------------------
-- States
-- ---------------------------------------------------------------------------

structure State.Gathered (s : State) : Prop where
  space : SpellableSpace s.space
  entities : (s.entities.map Entity.id).Nodup
  entity : ∀ e ∈ s.entities, (pathsOf e.attrs).Nodup → GatheredEntity e
  types : (s.types.map NamedType.id).Nodup
  type : ∀ t ∈ s.types, GatheredNamedType t
  relation : ∀ p ∈ s.pending, GatheredRelation s.entities p.relation
  block : ∀ id parents, s.block = .entity id parents → ∃ e ∈ s.entities, e.id = id ∧
    ((pathsOf e.attrs).Nodup → Parents.Open e.attrs parents)

namespace State

theorem Gathered.report (h : Gathered s) (p : Problem) (position : Position) :
    Gathered (s.report p position) := { h with }

theorem Gathered.closed (h : Gathered s) : Gathered { s with block := .closed } :=
  { h with block := by simp }

variable {id : EntityName}

/-- The attribute is added to the entity of the block only. -/
theorem Gathered.addAttributeLine (h : Gathered s) (hblock : s.block = .entity id parents)
    (hl : GatheredLine l) (indent : Nat) : Gathered (s.addAttributeLine id parents indent l) := by
  obtain ⟨e, he, rfl, hopen⟩ := h.block id parents hblock
  let around := parents.around indent
  let grown := addAttribute around.path l e
  obtain ⟨before, after, hsplit, hmodified⟩ := modifyFirst_id_eq h.entities he
  have hentities : modifyFirst (·.id == e.id) (addAttribute around.path l) s.entities =
      before ++ grown :: after := hmodified _
  have hsub : (pathsOf e.attrs).Sublist (pathsOf grown.attrs) := pathsOf_sublist_attach _ _ _
  have haround : (pathsOf grown.attrs).Nodup → Parents.Open e.attrs around := fun hnodup =>
    (hopen (hnodup.sublist hsub)).around indent
  have hopenGrown : (pathsOf grown.attrs).Nodup →
      Parents.Open grown.attrs ((indent, around.path ++ [l.attr.name]) :: around) := fun hnodup =>
    (haround hnodup).attach (hnodup.sublist hsub) indent
  have hpath : (pathsOf grown.attrs).Nodup → around.path ++ [l.attr.name] ∈ pathsOf grown.attrs := by
    intro hnodup
    have heq : pathsOf grown.attrs = pathsOf e.attrs ++ [around.path ++ [l.attr.name]] :=
      pathsOf_attach (haround hnodup).edge (hnodup.sublist hsub) hl.nested
    rw [heq]
    exact List.mem_append_right _ List.mem_cons_self
  refine { space := h.space, entities := ?_, entity := ?_, types := h.types, type := h.type, relation := ?_,
           block := ?_ }
  · rw [State.addAttributeLine, hentities]
    have hids : (before ++ grown :: after).map Entity.id = s.entities.map Entity.id := by
      rw [hsplit, List.map_append, List.map_append]
      rfl
    exact hids ▸ h.entities
  · rw [State.addAttributeLine, hentities]
    intro f hf hnodup
    rcases List.mem_append.mp hf with hf | hf
    · exact h.entity f (by simp [hsplit, hf]) hnodup
    · rcases List.mem_cons.mp hf with rfl | hf
      · exact (h.entity e he (hnodup.sublist hsub)).addAttribute hl hnodup (haround hnodup).edge
      · exact h.entity f (by simp [hsplit, hf]) hnodup
  · rw [State.addAttributeLine, hentities]
    intro p hp
    rcases List.mem_append.mp hp with hp | hp
    · exact (h.relation p hp).mono (hsplit ▸ extends_replace rfl hsub)
    · obtain ⟨r, hr, rfl⟩ := List.mem_map.mp hp
      obtain ⟨hcardinalities, htarget⟩ := hl.reference r hr
      exact ⟨.inl ⟨rfl, rfl, grown, by simp, rfl, _, rfl, hpath⟩, htarget, ⟨_, hcardinalities, rfl, rfl⟩,
        rfl, rfl, rfl, by simp, ⟨.inl rfl⟩⟩
  · rintro _ _ ⟨⟩
    rw [State.addAttributeLine, hentities]
    exact ⟨grown, by simp, rfl, hopenGrown⟩

theorem Gathered.indented (h : Gathered s) (hl : l.Sound) : Gathered (s.indented l) := by
  unfold State.indented
  split
  · exact h
  · exact h.report _ _
  · rename_i hblock
    split
    · rename_i hread
      exact h.addAttributeLine hblock (gathered_readAttributeLine h.space hl hread) _
    · exact h.report _ _

theorem gatheredEntity_empty {space : Namespace} (hspace : SpellableSpace space) (hname : FeedFree name)
    (hl : l.Sound) : GatheredEntity { space, name, doc := noteText l, extra := commentExtra l } where
  space := hspace
  name := hname
  attrs := by simp
  key := by simp
  index := by simp
  indexes := Grouping.collected_nil
  check := by simp
  checks := Grouping.collected_nil
  doc := soundNote_noteText hl
  extra := spellableExtra_commentExtra hl
  stats := rfl

theorem nodup_append_fresh {key : α → β} {items : List α} (h : (items.map key).Nodup)
    (hfresh : ∀ a ∈ items, key a ≠ key item) : ((items ++ [item]).map key).Nodup := by
  rw [List.map_append, List.nodup_append]
  refine ⟨h, List.nodup_singleton _, fun a ha b hb => ?_⟩
  obtain ⟨a, hmem, rfl⟩ := List.mem_map.mp ha
  obtain rfl := List.mem_singleton.mp hb
  exact hfresh a hmem

theorem Gathered.openEntity (h : Gathered s) (hl : l.Sound) (hname : FeedFree name.text) (rest : List Word) :
    Gathered (s.openEntity l name rest) := by
  obtain ⟨hspace, hid⟩ := gathered_entityIn h.space hname
  unfold State.openEntity State.reportEach State.report
  simp only
  generalize entityIn s.space name.text.toList = id at *
  split
  · exact { h with block := by simp }
  · rename_i hfresh
    have hfresh : ∀ e ∈ s.entities, e.id ≠ id := by simpa using hfresh
    have hempty := gatheredEntity_empty hspace hid hl
    refine { h with entities := ?_, entity := ?_, relation := ?_, block := ?_ }
    · exact nodup_append_fresh h.entities hfresh
    · exact List.forall_mem_append.mpr ⟨h.entity, List.forall_mem_singleton.mpr fun _ => hempty⟩
    · exact fun p hp => (h.relation p hp).mono fun e he =>
        ⟨e, List.mem_append_left _ he, rfl, List.Sublist.refl _⟩
    · rintro _ _ ⟨⟩
      exact ⟨_, List.mem_append_right _ List.mem_cons_self, rfl, fun _ => ⟨trivial, .nil⟩⟩

theorem Gathered.relationLine (h : Gathered s) (hl : l.Sound) : Gathered (s.relation l) := by
  unfold State.relation
  split
  · rename_i first source operator target hwords
    have hall := hl.words
    rw [hwords] at hall
    obtain ⟨hsource, htarget⟩ : FeedFree source.text ∧ FeedFree target.text := ⟨hall source (by simp),
      hall target (by simp)⟩
    split
    · exact h.report _ _
    · rename_i ofSource ofTarget hcardinalities
      simp only
      split
      · exact h.report _ _
      · rename_i hattrs
        refine { h with relation := List.forall_mem_append.mpr ⟨h.relation, List.forall_mem_singleton.mpr ?_⟩ }
        exact ⟨.inr ⟨by simpa using hattrs, gathered_read h.space hsource⟩, gathered_read h.space htarget,
          ⟨_, cardinalities?_ne hcardinalities, rfl, rfl⟩, rfl, rfl, rfl, soundNote_noteText hl,
          spellableExtra_commentExtra hl⟩
  · exact h.report _ _

theorem Gathered.typeLine (h : Gathered s) (hl : l.Sound) (hname : FeedFree name.text)
    (hrest : ∀ w ∈ rest, FeedFree w.text) : Gathered (s.type l name rest) := by
  obtain ⟨htext, hwritten⟩ := splitNamed_subset name.text
  have hspace : SpellableSpace (if (TypeName.parse name.text).space = {} then
      { TypeName.parse name.text with space := s.space } else TypeName.parse name.text).space := by
    split
    · exact h.space
    · exact spellableSpace_of_takenFrom hwritten hname
  have hid : FeedFree (if (TypeName.parse name.text).space = {} then
      { TypeName.parse name.text with space := s.space } else TypeName.parse name.text).name := by
    split <;> exact feedFree_of_subset htext hname
  unfold State.type State.reportEach State.report
  simp only
  generalize (if (TypeName.parse name.text).space = {} then
      { TypeName.parse name.text with space := s.space } else TypeName.parse name.text : TypeName) = id at *
  split
  · exact { h with }
  · rename_i hfresh
    have hfresh : ∀ t ∈ s.types, t.id ≠ id := by simpa using hfresh
    have hplain : GatheredNamedType
        { space := id.space, name := id.name, doc := noteText l, extra := commentExtra l } :=
      ⟨hspace, hid, by simp, by simp, .inl rfl, soundNote_noteText hl, spellableExtra_commentExtra hl⟩
    have hbody := gathered_withBody hplain rfl rfl fun w hw => hrest w (List.mem_of_head? hw)
    refine { h with types := ?_, type := ?_ }
    · refine nodup_append_fresh h.types fun t ht => ?_
      rw [id_withBody]
      exact hfresh t ht
    · exact List.forall_mem_append.mpr ⟨h.type, List.forall_mem_singleton.mpr hbody⟩

theorem Gathered.outermost (h : Gathered s) (hl : l.Sound) : Gathered (s.outermost l) := by
  unfold State.outermost
  split
  · exact h.closed.report _ _
  · rename_i first rest hwords
    have hall := hl.words
    rw [hwords] at hall
    obtain ⟨hfirst, hrest⟩ := List.forall_mem_cons.mp hall
    split
    · refine { h.closed with space := ?_ }
      cases rest with
      | nil => exact spellableSpace_empty
      | cons w rest => exact spellableSpace_of_takenFrom (takenFrom_parse w.text) (hrest w List.mem_cons_self)
    · split
      · exact h.closed.relationLine hl
      · split
        · rename_i name more
          obtain ⟨hname, hmore⟩ := List.forall_mem_cons.mp hrest
          split
          · exact h.closed.typeLine hl hname hmore
          · exact h.closed.openEntity hl hfirst _
        · exact h.closed.openEntity hl hfirst _

theorem Gathered.line (h : Gathered s) (hl : l.Sound) : Gathered (s.line l) := by
  unfold State.line
  split
  · exact h.closed
  · split
    · exact h
    · split
      · exact h.outermost hl
      · exact h.indented hl

end State

/-- The schema under construction behind all lines of a text. -/
theorem gathered_readLines (text : String) : State.Gathered
    ((readLines text).1.foldl State.line { diagnostics := (readLines text).2 }) := by
  have hstart : State.Gathered { diagnostics := (readLines text).2 } := by
    refine ⟨spellableSpace_empty, .nil, ?_, .nil, ?_, ?_, ?_⟩ <;> simp
  exact List.foldlRecOn (motive := State.Gathered) _ _ hstart fun _ h l hl => h.line (sound_readLines text l hl)

end SchemaDialects.Markup
