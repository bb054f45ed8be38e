import SchemaDialects.Proofs.Markup.GatheredStates

/-!
# Keys, indexes and checks have their attributes

Whatever the lines are, the reader adds an attribute to an entity before anything speaks of it, and what may
hold the next attribute is there already. So keys, indexes and checks are lists of attributes that are
found in their entity (`State.Grounded.line`), in spite of lines that cannot be read, of entities that are
rejected and of attributes that share a path.
-/

namespace SchemaDialects

/-- Some attributes, all of them found in the entity. -/
def Entity.Covers (e : Entity) (paths : List AttributePath) : Prop :=
  paths ≠ [] ∧ ∀ path ∈ paths, e.hasAttribute path = true

/-- Keys, indexes and checks are about some attributes of the entity. -/
structure Entity.Grounded (e : Entity) : Prop where
  key : ∀ key ∈ e.primaryKey, e.Covers key.attrs
  index : ∀ i ∈ e.indexes, e.Covers i.attrs
  check : ∀ c ∈ e.checks, e.Covers c.attrs

/-- Every entity is still there, with all attributes that were found in it. -/
def Keeps (before after : List Entity) : Prop :=
  ∀ e ∈ before, ∃ e' ∈ after, e'.id = e.id ∧ ∀ path, e.hasAttribute path = true → e'.hasAttribute path = true

theorem Keeps.refl (entities : List Entity) : Keeps entities entities := fun e he => ⟨e, he, rfl, fun _ => id⟩

theorem Keeps.trans (h : Keeps first second) (h' : Keeps second third) : Keeps first third := by
  intro e he
  obtain ⟨e', he', hid, hfound⟩ := h e he
  obtain ⟨e'', he'', hid', hfound'⟩ := h' e' he'
  exact ⟨e'', he'', hid'.trans hid, fun path hpath => hfound' path (hfound path hpath)⟩

theorem keeps_append (before more : List Entity) : Keeps before (before ++ more) :=
  fun e he => ⟨e, List.mem_append_left _ he, rfl, fun _ => id⟩

theorem keeps_replace {e grown : Entity} (hid : grown.id = e.id)
    (hfound : ∀ path, e.hasAttribute path = true → grown.hasAttribute path = true) :
    Keeps (before ++ e :: after) (before ++ grown :: after) := by
  intro f hf
  rw [List.mem_append, List.mem_cons] at hf
  rcases hf with hf | rfl | hf
  · exact ⟨f, by simp [hf], rfl, fun _ => id⟩
  · exact ⟨grown, by simp, hid, hfound⟩
  · exact ⟨f, by simp [hf], rfl, fun _ => id⟩

theorem Entity.Covers.mono {e e' : Entity} (h : e.Covers paths)
    (hfound : ∀ path, e.hasAttribute path = true → e'.hasAttribute path = true) : e'.Covers paths :=
  ⟨h.1, fun path hpath => hfound path (h.2 path hpath)⟩

namespace Markup

-- ---------------------------------------------------------------------------
-- Attaching
-- ---------------------------------------------------------------------------

theorem keepsFound_nest (attr : Attribute) : KeepsFound fun p => { p with nested := p.nested ++ [attr] } :=
  ⟨fun _ => rfl, fun _ _ hfound => hfound.append _⟩

/-- What was found still is. -/
theorem found_attach (attr : Attribute) (parent : AttributePath) (h : Found attrs path) :
    Found (attach attr attrs parent) path := by
  cases parent with
  | nil => exact h.append _
  | cons name more => exact (keepsFound_nest attr).modifyAttribute _ h

/-- An attribute is found where it was attached. -/
theorem found_attached (attr : Attribute) (h : parent = [] ∨ Found attrs parent) :
    Found (attach attr attrs parent) (parent ++ [attr.name]) := by
  rw [attach_eq]
  induction parent generalizing attrs with
  | nil => exact found_singleton (by simp [changeInside])
  | cons name more ih =>
    have hparent : Found attrs (name :: more) := h.resolve_left (List.cons_ne_nil _ _)
    clear h
    induction attrs with
    | nil => exact absurd hparent not_found_nil
    | cons first attrs ihs =>
      rw [changeInside, modifyFirst]
      by_cases hname : first.name = name
      · subst hname
        rw [if_pos (by simp)]
        exact found_cons_self.mpr (.inr (ih (found_cons_self.mp hparent)))
      · rw [if_neg (by simpa using hname)]
        exact (found_cons_other hname).mpr (ihs ((found_cons_other hname).mp hparent))

-- ---------------------------------------------------------------------------
-- Entities
-- ---------------------------------------------------------------------------

theorem mem_addToGroup (h : item ∈ addToGroup inGroup extend fresh groups) :
    item ∈ groups ∨ (∃ group ∈ groups, item = extend group) ∨ item = fresh := by
  unfold addToGroup at h
  split at h
  · rcases mem_modifyFirst h with h | ⟨group, hgroup, -, rfl⟩
    · exact .inl h
    · exact .inr (.inl ⟨group, hgroup, rfl⟩)
  · rcases List.mem_append.mp h with h | h
    · exact .inl h
    · exact .inr (.inr (List.mem_singleton.mp h))

theorem covers_append (h : Entity.Covers e paths) (hpath : e.hasAttribute path = true) :
    e.Covers (paths ++ [path]) :=
  ⟨by simp, List.forall_mem_append.mpr ⟨h.2, List.forall_mem_singleton.mpr hpath⟩⟩

theorem covers_singleton {e : Entity} (hpath : e.hasAttribute path = true) : e.Covers [path] :=
  ⟨List.cons_ne_nil _ _, List.forall_mem_singleton.mpr hpath⟩

theorem hasAttribute_addAttribute (l : AttributeLine) (parent : AttributePath) {e : Entity}
    (h : e.hasAttribute path = true) : (addAttribute parent l e).hasAttribute path = true :=
  found_attach l.attr parent h

theorem hasAttribute_added (l : AttributeLine) {e : Entity}
    (h : parent = [] ∨ e.hasAttribute parent = true) :
    (addAttribute parent l e).hasAttribute (parent ++ [l.attr.name]) = true :=
  found_attached l.attr h

theorem grounded_addAttribute (he : Entity.Grounded e) (l : AttributeLine)
    (hparent : parent = [] ∨ e.hasAttribute parent = true) : (addAttribute parent l e).Grounded := by
  have hadded := hasAttribute_added l hparent
  have hkept : ∀ paths, e.Covers paths → (Markup.addAttribute parent l e).Covers paths :=
    fun paths h => h.mono fun path => hasAttribute_addAttribute l parent
  refine ⟨?_, ?_, ?_⟩
  · intro key hkey
    cases hname : l.key with
    | none => exact hkept _ (he.key key (by simpa [Markup.addAttribute, hname] using hkey))
    | some name =>
      obtain rfl : key = addToKey (parent ++ [l.attr.name]) name e.primaryKey := by
        simpa [Markup.addAttribute, hname, eq_comm] using hkey
      cases hold : e.primaryKey with
      | none => exact covers_singleton hadded
      | some old => exact covers_append (hkept _ (he.key old hold)) hadded
  · refine List.foldlRecOn (motive := fun items => ∀ i ∈ items, Entity.Covers _ i.attrs) _ _
      (fun i hi => hkept _ (he.index i hi)) fun items h item _ i hi => ?_
    rcases mem_addToGroup hi with hi | ⟨old, hold, rfl⟩ | rfl
    · exact h i hi
    · exact covers_append (h old hold) hadded
    · exact covers_singleton hadded
  · refine List.foldlRecOn (motive := fun items => ∀ c ∈ items, Entity.Covers _ c.attrs) _ _
      (fun c hc => hkept _ (he.check c hc)) fun items h item _ c hc => ?_
    rcases mem_addToGroup hc with hc | ⟨old, hold, rfl⟩ | rfl
    · exact h c hc
    · exact covers_append (h old hold) hadded
    · exact covers_singleton hadded

-- ---------------------------------------------------------------------------
-- States
-- ---------------------------------------------------------------------------

/-- What holds of a schema under construction whatever has been read. -/
structure State.Grounded (s : State) : Prop where
  entity : ∀ e ∈ s.entities, e.Grounded
  source : ∀ p ∈ s.pending, p.relation.source.attrs ≠ []
  block : ∀ id parents, s.block = .entity id parents → ∃ e ∈ s.entities, e.id = id ∧
    ∀ p ∈ parents, e.hasAttribute p.2 = true

namespace State

variable {id : EntityName}

/-- The entity of the block before and after an attribute line. -/
theorem entities_addAttributeLine (hids : (s.entities.map Entity.id).Nodup) (h : Grounded s)
    (hblock : s.block = .entity id parents) (indent : Nat) (l : AttributeLine) :
    ∃ before e after, s.entities = before ++ e :: after ∧ e.id = id ∧
      (s.addAttributeLine id parents indent l).entities =
        before ++ addAttribute (parents.around indent).path l e :: after ∧
      (∀ p ∈ parents.around indent, e.hasAttribute p.2 = true) ∧
      ((parents.around indent).path = [] ∨ e.hasAttribute (parents.around indent).path = true) := by
  obtain ⟨e, he, rfl, hparents⟩ := h.block id parents hblock
  obtain ⟨before, after, hsplit, hmodified⟩ := modifyFirst_id_eq hids he
  have haround : ∀ p ∈ parents.around indent, e.hasAttribute p.2 = true := fun p hp =>
    hparents p ((List.dropWhile_suffix _).subset hp)
  refine ⟨before, e, after, hsplit, rfl, hmodified _, haround, ?_⟩
  cases heq : parents.around indent with
  | nil => exact .inl rfl
  | cons p rest => exact .inr (haround p (by simp [heq]))

/-- What every line does: it keeps the invariant, and it takes nothing back. -/
structure Advances (s s' : State) : Prop where
  grounded : Grounded s'
  keeps : Keeps s.entities s'.entities
  pending : s.pending <+: s'.pending

theorem advances_report (h : Grounded s) (p : Problem) (position : Position) : Advances s (s.report p position) :=
  ⟨{ h with }, Keeps.refl _, List.prefix_rfl⟩

theorem Grounded.closed (h : Grounded s) : Grounded { s with block := .closed } := { h with block := nofun }

theorem advances_addAttributeLine (hids : (s.entities.map Entity.id).Nodup) (h : Grounded s)
    (hblock : s.block = .entity id parents) (indent : Nat) (l : AttributeLine) :
    Advances s (s.addAttributeLine id parents indent l) := by
  obtain ⟨before, e, after, hsplit, rfl, hentities, haround, hparent⟩ :=
    entities_addAttributeLine hids h hblock indent l
  have he : e.Grounded := h.entity e (by simp [hsplit])
  have hkept : ∀ path, e.hasAttribute path = true → _ := fun path => hasAttribute_addAttribute l (parents.around indent).path
  refine ⟨⟨?_, ?_, ?_⟩, ?_, List.prefix_append _ _⟩
  · rw [hentities]
    intro f hf
    rcases List.mem_append.mp hf with hf | hf
    · exact h.entity f (by simp [hsplit, hf])
    · rcases List.mem_cons.mp hf with rfl | hf
      · exact grounded_addAttribute he l hparent
      · exact h.entity f (by simp [hsplit, hf])
  · intro p hp
    rcases List.mem_append.mp hp with hp | hp
    · exact h.source p hp
    · obtain ⟨r, -, rfl⟩ := List.mem_map.mp hp
      exact List.cons_ne_nil _ _
  · rintro _ _ ⟨⟩
    rw [hentities]
    refine ⟨_, List.mem_append_right _ List.mem_cons_self, rfl, List.forall_mem_cons.mpr ⟨?_, fun p hp => ?_⟩⟩
    · exact hasAttribute_added l hparent
    · exact hkept p.2 (haround p hp)
  · rw [hentities, hsplit]
    exact keeps_replace rfl hkept

theorem advances_indented (hids : (s.entities.map Entity.id).Nodup) (h : Grounded s) (l : Line) :
    Advances s (s.indented l) := by
  unfold State.indented
  split
  · exact ⟨h, Keeps.refl _, List.prefix_rfl⟩
  · exact advances_report h _ _
  · rename_i hblock
    split
    · exact advances_addAttributeLine hids h hblock _ _
    · exact advances_report h _ _

theorem advances_openEntity (h : Grounded s) (l : Line) (name : Word) (rest : List Word) :
    Advances s (s.openEntity l name rest) := by
  unfold State.openEntity State.reportEach State.report
  simp only
  generalize entityIn s.space name.text.toList = id
  split
  · exact ⟨{ h with block := nofun }, Keeps.refl _, List.prefix_rfl⟩
  · have hempty : ∀ space name doc extra, Entity.Grounded { space, name, doc, extra } := fun _ _ _ _ =>
      ⟨nofun, nofun, nofun⟩
    refine ⟨⟨?_, h.source, ?_⟩, keeps_append _ _, List.prefix_rfl⟩
    · exact List.forall_mem_append.mpr ⟨h.entity, List.forall_mem_singleton.mpr (hempty _ _ _ _)⟩
    · rintro _ _ ⟨⟩
      exact ⟨_, List.mem_append_right _ List.mem_cons_self, rfl, nofun⟩

/-- A relation is only taken up with the attributes it starts from. -/
theorem advances_pending (h : Grounded s) (hattrs : r.source.attrs ≠ []) (position : Position) :
    Advances s { s with pending := s.pending ++ [⟨r, position⟩] } :=
  ⟨⟨h.entity, List.forall_mem_append.mpr ⟨h.source, List.forall_mem_singleton.mpr hattrs⟩, h.block⟩, Keeps.refl _,
    List.prefix_append _ _⟩

theorem advances_relation (h : Grounded s) (l : Line) : Advances s (s.relation l) := by
  unfold State.relation
  split
  · split
    · exact advances_report h _ _
    · simp only
      split
      · exact advances_report h _ _
      · rename_i hattrs
        exact advances_pending h (by simpa using hattrs) _
  · exact advances_report h _ _

theorem advances_type (h : Grounded s) (l : Line) (name : Word) (rest : List Word) :
    Advances s (s.type l name rest) := by
  unfold State.type State.reportEach State.report
  simp only
  generalize (if (TypeName.parse name.text).space = {} then _ else _ : TypeName) = id
  split
  · exact ⟨{ h with }, Keeps.refl _, List.prefix_rfl⟩
  · exact ⟨{ h with }, Keeps.refl _, List.prefix_rfl⟩

theorem advances_outermost (h : Grounded s) (l : Line) : Advances s (s.outermost l) := by
  have hclosed : ∀ {s'}, Advances { s with block := .closed } s' → Advances s s' := fun h => ⟨h.1, h.2, h.3⟩
  unfold State.outermost
  split
  · exact hclosed (advances_report h.closed _ _)
  · split
    · exact ⟨{ h with block := nofun }, Keeps.refl _, List.prefix_rfl⟩
    · split
      · exact hclosed (advances_relation h.closed l)
      · split
        · split
          · exact hclosed (advances_type h.closed l _ _)
          · exact hclosed (advances_openEntity h.closed l _ _)
        · exact hclosed (advances_openEntity h.closed l _ _)

theorem advances_line (hids : (s.entities.map Entity.id).Nodup) (h : Grounded s) (l : Line) :
    Advances s (s.line l) := by
  unfold State.line
  split
  · exact ⟨h.closed, Keeps.refl _, List.prefix_rfl⟩
  · split
    · exact ⟨h, Keeps.refl _, List.prefix_rfl⟩
    · split
      · exact advances_outermost h l
      · exact advances_indented hids h l

-- ---------------------------------------------------------------------------
-- Relations and their lines
-- ---------------------------------------------------------------------------

/-- The relations that a line adds. -/
def writtenBy (s : State) (l : Line) : List PendingRelation := (s.line l).pending.drop s.pending.length

/-- The relations that some lines add, each with its line. -/
def written (s : State) : List Line → List (Line × PendingRelation)
  | [] => []
  | l :: lines => (s.writtenBy l).map (l, ·) ++ (s.line l).written lines

theorem pending_line (h : Advances s (s.line l)) : (s.line l).pending = s.pending ++ s.writtenBy l := by
  obtain ⟨added, hadded⟩ := h.pending
  rw [writtenBy, ← hadded, List.drop_left]

end State

/-- The relation starts from attributes of an entity. -/
def StartsIn (entities : List Entity) (r : Relation) : Prop :=
  ∃ e ∈ entities, e.id = r.source.entity ∧ e.Covers r.source.attrs

theorem StartsIn.mono (hkeeps : Keeps before after) (h : StartsIn before r) : StartsIn after r := by
  obtain ⟨e, he, hid, hcovers⟩ := h
  obtain ⟨e', he', hid', hfound⟩ := hkeeps e he
  exact ⟨e', he', hid'.trans hid, hcovers.mono hfound⟩

namespace State

/-- An attribute line only adds relations of its own attribute. -/
theorem startsIn_writtenBy (hids : (s.entities.map Entity.id).Nodup) (h : Grounded s) (hindent : l.indent ≠ 0)
    (hp : p ∈ s.writtenBy l) : StartsIn (s.line l).entities p.relation := by
  have hnone : ∀ {s' : State}, s'.pending = s.pending → p ∉ s'.pending.drop s.pending.length := by simp_all
  unfold writtenBy at hp
  unfold State.line at hp ⊢
  split at hp
  · exact absurd hp (hnone rfl)
  · rename_i hblank
    split at hp
    · exact absurd hp (hnone rfl)
    · rename_i hcomment
      rw [if_neg hblank, if_neg hcomment, if_neg hindent]
      unfold State.indented at hp ⊢
      split at hp
      · exact absurd hp (hnone rfl)
      · exact absurd hp (hnone rfl)
      · rename_i hblock
        split at hp
        · rename_i attr hread
          obtain ⟨before, e, after, -, rfl, hentities, -, hparent⟩ :=
            entities_addAttributeLine hids h hblock l.indent attr
          rw [hentities]
          rw [State.addAttributeLine, List.drop_left] at hp
          obtain ⟨r, -, rfl⟩ := List.mem_map.mp hp
          exact ⟨_, List.mem_append_right _ List.mem_cons_self, rfl, covers_singleton (hasAttribute_added attr hparent)⟩
        · exact absurd hp (hnone rfl)

/-- What holds behind some lines, and of the relations that they add. -/
structure Run (s : State) (lines : List Line) : Prop where
  gathered : Gathered (lines.foldl State.line s)
  grounded : Grounded (lines.foldl State.line s)
  keeps : Keeps s.entities (lines.foldl State.line s).entities
  pending : (lines.foldl State.line s).pending = s.pending ++ (s.written lines).map (·.2)
  starts : ∀ l p, (l, p) ∈ s.written lines → l.indent ≠ 0 →
    StartsIn (lines.foldl State.line s).entities p.relation

theorem run (h : Gathered s) (h' : Grounded s) (hlines : ∀ l ∈ lines, l.Sound) : Run s lines := by
  induction lines generalizing s with
  | nil => exact ⟨h, h', Keeps.refl _, (List.append_nil _).symm, fun _ _ hp => absurd hp List.not_mem_nil⟩
  | cons l lines ih =>
    obtain ⟨hl, hlines⟩ := List.forall_mem_cons.mp hlines
    have hline := advances_line h.entities h' l
    obtain ⟨hgathered, hgrounded, hkeeps, hpending, hstarts⟩ := ih (h.line hl) hline.grounded hlines
    refine ⟨hgathered, hgrounded, hline.keeps.trans hkeeps, ?_, fun l₁ p hp hindent => ?_⟩
    · have hnew : (s.written (l :: lines)).map (·.2) =
          s.writtenBy l ++ ((s.line l).written lines).map (·.2) := by
        simp [written, Function.comp_def]
      rw [hnew, List.foldl_cons, hpending, pending_line hline, List.append_assoc]
    · rcases List.mem_append.mp hp with hp | hp
      · obtain ⟨p, hp, ⟨⟩⟩ := List.mem_map.mp hp
        exact (startsIn_writtenBy h.entities h' hindent hp).mono hkeeps
      · exact hstarts l₁ p hp hindent

theorem resolve_source (s : State) (p : PendingRelation) : (s.resolve p).source = p.relation.source := by
  unfold State.resolve
  simp only
  split <;> rfl

/-- A relation without attributes for its target is given those of the key, or one more. -/
theorem resolve_target (h : Grounded s) (p : PendingRelation) : (s.resolve p).target.attrs ≠ [] := by
  unfold State.resolve
  simp only
  split
  · cases hkey : (s.find? p.relation.target.entity).bind (·.primaryKey) with
    | none => exact List.cons_ne_nil _ _
    | some key =>
      obtain ⟨e, he, hkey⟩ := Option.bind_eq_some_iff.mp hkey
      exact ((h.entity e (List.mem_of_find?_eq_some he)).key key hkey).1
  · rename_i hattrs
    simpa using hattrs

end State

-- ---------------------------------------------------------------------------
-- Documents
-- ---------------------------------------------------------------------------

/-- The schema under construction before the first line of a text. -/
def stateBefore (text : String) : State := { diagnostics := (readLines text).2 }

/-- The schema under construction behind all lines of a text. -/
def stateBehind (text : String) : State := (readLines text).1.foldl State.line (stateBefore text)

/-- The relations of a text, each with the line it is written on. -/
def writtenRelations (text : String) : List (Line × Relation) :=
  ((stateBefore text).written (readLines text).1).map fun (l, p) => (l, (stateBehind text).resolve p)

theorem run_readLines (text : String) : State.Run (stateBefore text) (readLines text).1 := by
  refine State.run ⟨spellableSpace_empty, .nil, ?_, .nil, ?_, ?_, ?_⟩ ⟨?_, ?_, ?_⟩ (sound_readLines text) <;>
    simp [stateBefore]

/-- What holds of a schema whatever it has been read from. -/
structure WellFormed (db : Database) : Prop where
  entities : (db.entities.map Entity.id).Nodup
  types : (db.types.map NamedType.id).Nodup
  entity : ∀ e ∈ db.entities, e.Grounded
  relation : ∀ r ∈ db.relations, r.source.attrs ≠ [] ∧ r.target.attrs ≠ []

/-- Every text is read as a well-formed schema, in which relations of attribute lines start from attributes
of their entities. -/
theorem readSchema_wellFormed (text : String) : ∃ db, (readSchema text).value = some db ∧ WellFormed db ∧
    db.relations = (writtenRelations text).map (·.2) ∧
    ∀ l r, (l, r) ∈ writtenRelations text → l.indent ≠ 0 → StartsIn db.entities r := by
  obtain ⟨hgathered, hgrounded, -, hpending, hstarts⟩ := run_readLines text
  refine ⟨_, rfl, ⟨hgathered.entities, hgathered.types, hgrounded.entity, fun r hr => ?_⟩, ?_, fun l r hr hindent => ?_⟩
  · obtain ⟨p, hp, rfl⟩ := List.mem_map.mp hr
    exact ⟨State.resolve_source _ p ▸ hgrounded.source p hp, State.resolve_target hgrounded p⟩
  · calc (stateBehind text).pending.map (stateBehind text).resolve
      _ = (((stateBefore text).written (readLines text).1).map (·.2)).map (stateBehind text).resolve :=
          congrArg _ hpending
      _ = (writtenRelations text).map (·.2) := by simp [writtenRelations, Function.comp_def]
  · obtain ⟨⟨l, p⟩, hp, ⟨⟩⟩ := List.mem_map.mp hr
    rw [StartsIn, State.resolve_source]
    exact hstarts l p hp hindent

end Markup

end SchemaDialects
