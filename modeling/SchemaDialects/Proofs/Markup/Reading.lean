import SchemaDialects.Proofs.Markup.AttributeLaws

/-!
# Lines of the writer, as the reader takes them

`Holds` is what the reader knows after some lines, apart from positions, and `Leads` how a block of lines
changes it. The lines of an entity lead from the entity without attributes, through what `entityUpTo`
leaves of it, to the whole entity (`leads_entityBlock`); lines of types and relations add one item each.
-/

namespace SchemaDialects.Markup

open Text

-- ---------------------------------------------------------------------------
-- States and lines
-- ---------------------------------------------------------------------------

/-- What has been read so far, in a text that names no namespace and has no mistake. -/
structure Holds (block : Block) (entities : List Entity) (types : List NamedType)
    (relations : List Relation) (s : State) : Prop where
  space : s.space = {}
  block : s.block = block
  entities : s.entities = entities
  types : s.types = types
  relations : s.pending.map (·.relation) = relations
  diagnostics : s.diagnostics = []

/-- Lines that stand to `ts` as `R` says lead from `P` to `Q`. -/
def LeadsBy (R : Line → Sentence → Prop) (ts : List Sentence) (P Q : State → Prop) : Prop :=
  ∀ s lines, P s → List.Forall₂ R lines ts → Q (lines.foldl State.line s)

/-- Lines that say `ts` lead from `P` to `Q`. -/
abbrev Leads (ts : List Sentence) (P Q : State → Prop) : Prop := LeadsBy Line.Says ts P Q

namespace LeadsBy

variable {R : Line → Sentence → Prop}

theorem nil : LeadsBy R [] P P := by
  rintro s lines hs ⟨⟩
  exact hs

theorem single (h : ∀ s l, P s → R l t → Q (s.line l)) : LeadsBy R [t] P Q := by
  rintro s lines hs (_ | ⟨hsaid, _ | _⟩)
  exact h s _ hs hsaid

theorem append {Q' : State → Prop} (ha : LeadsBy R as P Q) (hb : LeadsBy R bs Q Q') :
    LeadsBy R (as ++ bs) P Q' := by
  intro s lines hs hlines
  rw [← List.take_append_drop as.length lines, List.foldl_append]
  exact hb _ _ (ha _ _ hs (List.forall₂_take_append _ _ _ hlines)) (List.forall₂_drop_append _ _ _ hlines)

theorem imp (h : LeadsBy R ts P Q) (hp : ∀ s, P' s → P s) (hq : ∀ s, Q s → Q' s) :
    LeadsBy R ts P' Q' :=
  fun s lines hs hlines => hq _ (h s lines (hp s hs) hlines)

end LeadsBy

theorem Line.Says.isBlank {l : Line} (h : l.Says Sentence.empty) : l.isBlank = true := by
  have hwords : l.words = [] := List.map_eq_nil_iff.mp h.words
  have hnote : l.note = none := Option.map_eq_none_iff.mp h.note
  have hcomment : l.comment = none := Option.map_eq_none_iff.mp h.comment
  simp [Line.isBlank, hwords, hnote, hcomment]

theorem leads_empty : Leads [Sentence.empty] (Holds block entities types relations)
    (Holds .closed entities types relations) := by
  refine .single fun s l hs hsaid => ?_
  rw [State.line, if_pos hsaid.isBlank]
  exact ⟨hs.space, rfl, hs.entities, hs.types, hs.relations, hs.diagnostics⟩

theorem line_outermost {l : Line} (hwords : l.words ≠ []) (hindent : l.indent = 0) (s : State) :
    s.line l = s.outermost l := by
  have : l.words.isEmpty = false := by simpa using hwords
  simp [State.line, Line.isBlank, Line.isComment, this, hindent]

theorem line_indented {l : Line} (hwords : l.words ≠ []) (hindent : l.indent ≠ 0) (s : State) :
    s.line l = s.indented l := by
  have : l.words.isEmpty = false := by simpa using hwords
  simp [State.line, Line.isBlank, Line.isComment, this, hindent]

theorem is_eq {w : Word} (h : w.text = text) (keyword : String) :
    w.is keyword = (text.toLower == keyword) := by
  rw [Word.is, h]

theorem outermost_type {l : Line} (hl : l.words = first :: name :: rest) (h : first.text = "type")
    (s : State) : s.outermost l = { s with block := .closed }.type l name rest := by
  have hnamespace : first.is "namespace" = false := by rw [is_eq h, toLower_eq]; rfl
  have hrel : first.is "rel" = false := by rw [is_eq h, toLower_eq]; rfl
  have htype : first.is "type" = true := by rw [is_eq h, toLower_eq]; rfl
  simp [State.outermost, hl, hnamespace, hrel, htype]

theorem outermost_relation {l : Line} (hl : l.words = first :: second :: rest)
    (h : first.text = "rel") (s : State) :
    s.outermost l = { s with block := .closed }.relation l := by
  have hnamespace : first.is "namespace" = false := by rw [is_eq h, toLower_eq]; rfl
  have hrel : first.is "rel" = true := by rw [is_eq h, toLower_eq]; rfl
  simp [State.outermost, hl, hnamespace, hrel]

theorem outermost_entity {l : Line} (hl : l.words = [first]) (h : first.text.toLower ≠ "namespace")
    (s : State) : s.outermost l = { s with block := .closed }.openEntity l first [] := by
  have hnamespace : first.is "namespace" = false := by simpa [Word.is] using h
  simp [State.outermost, hl, hnamespace]

-- ---------------------------------------------------------------------------
-- Types
-- ---------------------------------------------------------------------------

theorem leads_type (h : LegibleNamedType t) (hfresh : ∀ u ∈ types, u.id ≠ t.id) :
    Leads [typeSentence t] (Holds .closed entities types relations)
      (Holds .closed entities (types ++ [t]) relations) := by
  refine .single fun s l hs hsaid => ?_
  obtain ⟨first, rest, hl, hfirst, hrest⟩ := List.map_eq_cons_iff.mp hsaid.words
  obtain ⟨name, body, rfl, hname, hbody⟩ := List.map_eq_cons_iff.mp hrest
  have hid : TypeName.parse name.text = t.id := by rw [hname, TypeName.parse_render]
  have hspace : (if t.id.space = {} then { t.id with space := {} } else t.id) = t.id := by
    split
    · rename_i hempty
      rw [← hempty]
    · rfl
  have hnone : s.types.any (·.id == t.id) = false := by
    rw [hs.types]
    exact List.any_eq_false.mpr fun u hu => by simpa using hfresh u hu
  have hlength : body.drop 1 = [] := by
    have hlength : body.length = (bodyWord t).toList.length := by
      simpa using congrArg List.length hbody
    refine List.drop_eq_nil_of_le ?_
    rw [hlength]
    cases bodyWord t <;> simp
  have hread : State.withBody
      { space := t.space, name := t.name, doc := noteText l, extra := commentExtra l } body.head? = t := by
    have hnote : noteText l = t.doc := hsaid.note
    have hcomment : commentExtra l = t.extra := commentExtra_eq h.extra hsaid.comment
    rw [hnote, hcomment]
    refine withBody_bodyWord h.exclusive ?_
    rw [← List.head?_map, hbody]
    cases bodyWord t <;> rfl
  rw [line_outermost (by simp [hl]) hsaid.indent, outermost_type hl hfirst, State.type]
  simp only [hid, hs.space, hspace, hlength]
  rw [if_neg (by simp [hnone])]
  refine ⟨rfl, rfl, hs.entities, ?_, hs.relations, ?_⟩
  · exact congrArg₂ (fun types t => types ++ [t]) hs.types hread
  · simpa [State.reportEach] using hs.diagnostics

-- ---------------------------------------------------------------------------
-- Relations
-- ---------------------------------------------------------------------------

theorem SpellableLink.listable (h : SpellableLink l true) : Listable l.attrs :=
  fun path hpath => ⟨(h.paths path hpath).1, h.openFree rfl path hpath⟩

theorem leads_relation (h : SpellableRelation db r) (hstandalone : isAtAttribute db r = false) :
    Leads [relationSentence r] (Holds .closed entities types relations)
      (Holds .closed entities types (relations ++ [r])) := by
  refine .single fun s l hs hsaid => ?_
  have hsource : SpellableLink r.source true := by
    have := h.source
    rwa [hstandalone] at this
  obtain ⟨c, hc, hsourceCard, htargetCard⟩ := h.cardinalities
  obtain ⟨first, rest, hl, hfirst, hrest⟩ := List.map_eq_cons_iff.mp hsaid.words
  obtain ⟨source, rest, rfl, hsourceText, hrest⟩ := List.map_eq_cons_iff.mp hrest
  obtain ⟨op, rest, rfl, hop, hrest⟩ := List.map_eq_cons_iff.mp hrest
  obtain ⟨target, rest, rfl, htargetText, hrest⟩ := List.map_eq_cons_iff.mp hrest
  obtain rfl : rest = [] := List.map_eq_nil_iff.mp hrest
  have hcardinalities : cardinalities? op.text = some (c.1, c.2) := by
    rw [hop]
    exact cardinalities?_operator hsourceCard htargetCard hc
  have hsourceRead : Endpoint.read {} source.text = ⟨r.source.entity, r.source.attrs⟩ := by
    rw [hsourceText]
    exact Endpoint.read_endpointText hsource.listable
  have htargetRead : Endpoint.read {} target.text = ⟨r.target.entity, r.target.attrs⟩ := by
    rw [htargetText]
    exact Endpoint.read_endpointText h.target.listable
  have hattrs : r.source.attrs.isEmpty = false := by simpa using hsource.attrs
  have hnote : noteText l = r.doc := hsaid.note
  have hcomment : commentExtra l = r.extra := commentExtra_eq h.extra hsaid.comment
  rw [line_outermost (by simp [hl]) hsaid.indent, outermost_relation hl hfirst, State.relation]
  simp only [hl, hcardinalities, hs.space, hsourceRead, htargetRead, hattrs, Bool.false_eq_true,
    ↓reduceIte, hnote, hcomment]
  refine ⟨rfl, rfl, hs.entities, hs.types, ?_, hs.diagnostics⟩
  rw [List.map_append, hs.relations]
  obtain ⟨name, ⟨sourceEntity, sourceAttrs, sourceCard⟩, ⟨targetEntity, targetAttrs, targetCard⟩,
    onDelete, onUpdate, doc, extra⟩ := r
  obtain rfl : name = none := h.name
  obtain rfl : onDelete = none := h.onDelete
  obtain rfl : onUpdate = none := h.onUpdate
  obtain rfl : sourceCard = some c.1 := hsourceCard
  obtain rfl : targetCard = some c.2 := htargetCard
  rfl

-- ---------------------------------------------------------------------------
-- Entities
-- ---------------------------------------------------------------------------

theorem dot_mem_render {id : EntityName} (h : id.space ≠ {}) : '.' ∈ id.render.toList := by
  obtain ⟨first, rest, hsegments⟩ : ∃ first rest, id.space.segments = first :: rest := by
    refine List.exists_cons_of_ne_nil fun hnil => h ?_
    have := Namespace.ofReversed_segments id.space
    rw [hnil] at this
    exact this.symm
  rw [EntityName.render, hsegments, renderSegments, String.toList_intercalate,
    show ".".toList = ['.'] from rfl]
  simp only [List.cons_append, List.map_cons]
  rw [intercalate_cons_flatMap]
  simp

/-- The first line of an entity is no directive. -/
theorem toLower_render_ne {e : Entity} (h : e.space = {} → e.name.toLower ≠ "namespace") :
    e.id.render.toLower ≠ "namespace" := by
  intro heq
  by_cases hspace : e.space = {}
  · have hrender : e.id.render = quote e.name := by
      simp [EntityName.render, Entity.id, hspace, Namespace.segments, renderSegments, renderSegment]
    rw [hrender] at heq
    rcases quote_cases e.name with ⟨hquote, -⟩ | hquote
    · exact h hspace (String.toList_injective hquote ▸ heq)
    · have hnot : (quote e.name).toLower ∉ ["namespace"] := by
        rw [← String.ofList_toList (s := quote e.name), hquote]
        exact not_mem_of_head rfl (by decide)
      exact hnot (List.mem_singleton.mpr heq)
  · have hdot : '.' ∈ e.id.render.toLower.toList := mem_toLower (dot_mem_render hspace) rfl
    rw [heq] at hdot
    exact absurd hdot (by decide)

/-- An entity of which only the first line has been read. -/
def openedEntity (e : Entity) : Entity :=
  { space := e.space, name := e.name, doc := e.doc, extra := e.extra }

theorem leads_entity (h : LegibleEntity e) (hfresh : ∀ f ∈ entities, f.id ≠ e.id) :
    Leads [entitySentence e] (Holds .closed entities types relations)
      (Holds (.entity e.id []) (entities ++ [openedEntity e]) types relations) := by
  refine .single fun s l hs hsaid => ?_
  obtain ⟨first, rest, hl, hfirst, hrest⟩ := List.map_eq_cons_iff.mp hsaid.words
  obtain rfl : rest = [] := List.map_eq_nil_iff.mp hrest
  have hid : entityIn {} first.text.toList = e.id := by rw [hfirst, entityIn_render]
  have hnone : s.entities.any (·.id == e.id) = false := by
    rw [hs.entities]
    exact List.any_eq_false.mpr fun f hf => by simpa using hfresh f hf
  have hnote : noteText l = e.doc := hsaid.note
  have hcomment : commentExtra l = e.extra := commentExtra_eq h.extra hsaid.comment
  rw [line_outermost (by simp [hl]) hsaid.indent,
    outermost_entity hl (hfirst ▸ toLower_render_ne h.noDirective), State.openEntity]
  simp only [hs.space, hid]
  rw [if_neg (by simpa [State.reportEach] using hnone)]
  refine ⟨rfl, rfl, ?_, hs.types, hs.relations, ?_⟩
  · rw [hnote, hcomment]
    exact congrArg (· ++ [openedEntity e]) hs.entities
  · simpa [State.reportEach] using hs.diagnostics

/-- The entity after the lines of the attributes `done`. -/
def entityUpTo (e : Entity) (done : List Row) : Entity :=
  { e with
    attrs := attachAll done []
    primaryKey := keyUpTo (done.map Row.path) e.primaryKey
    indexes := indexGrouping.upTo (done.map Row.path) e.indexes
    checks := checkGrouping.upTo (done.map Row.path) e.checks }

theorem entityUpTo_nil (h : e.stats = []) : entityUpTo e [] = openedEntity e := by
  obtain ⟨space, name, attrs, key, indexes, checks, doc, stats, extra⟩ := e
  obtain rfl : stats = [] := h
  simp [entityUpTo, openedEntity, attachAll, keyUpTo_nil, Grouping.upTo_nil]

theorem entityUpTo_all (h : LegibleEntity e) : entityUpTo e (rowsIn [] e.attrs) = e := by
  have hattrs : attachAll (rowsIn [] e.attrs) [] = e.attrs := attachAll_rows h.distinct (by simp)
  have hkey : keyUpTo (pathsOf e.attrs) e.primaryKey = e.primaryKey :=
    keyUpTo_all fun key hkey => (h.key key hkey).attrs
  have hindexes : indexGrouping.upTo (pathsOf e.attrs) e.indexes = e.indexes :=
    Grouping.upTo_all h.indexes
  have hchecks : checkGrouping.upTo (pathsOf e.attrs) e.checks = e.checks :=
    Grouping.upTo_all h.checks
  rw [pathsOf] at hkey hindexes hchecks
  rw [entityUpTo, hattrs, hkey, hindexes, hchecks]

/-- One more line takes an entity one attribute further. -/
theorem addAttribute_entityUpTo (h : LegibleEntity e) (hrows : rowsIn [] e.attrs = done ++ r :: rest)
    {l : AttributeLine} (hattr : l.attr = r.attr)
    (hkey : l.key = (e.primaryKey.filter (·.attrs.contains r.path)).map (·.name))
    (hindexes : l.indexes = (indexesAt e r.path).map fun i => (i.name, i.unique))
    (hchecks : l.checks = (checksAt e r.path).map fun c => (c.name, c.predicate)) :
    addAttribute r.parent l (entityUpTo e done) = entityUpTo e (done ++ [r]) := by
  have hpaths : pathsOf e.attrs = done.map Row.path ++ r.path :: rest.map Row.path := by
    rw [pathsOf, hrows, List.map_append, List.map_cons]
  have hdone : (done ++ [r]).map Row.path = done.map Row.path ++ [r.path] := by simp
  have htree : attach r.attr (attachAll done []) r.parent = attachAll (done ++ [r]) [] := by
    simp [attachAll]
  have hindexesAll : (indexesAt e r.path).foldl
      (fun groups i => addToIndex r.path groups (i.name, i.unique))
      (indexGrouping.upTo (done.map Row.path) e.indexes) =
        indexGrouping.upTo (done.map Row.path ++ [r.path]) e.indexes := by
    rw [← Grouping.foldl_addTo hpaths h.distinct h.indexes]
    refine List.foldl_ext _ _ _ fun groups i hi => ?_
    have hplain := h.index i (List.mem_of_mem_filter hi)
    exact addToIndex_eq hplain.condition hplain.definition hplain.doc
  have hchecksAll : (checksAt e r.path).foldl
      (fun groups c => addToCheck r.path groups (c.name, c.predicate))
      (checkGrouping.upTo (done.map Row.path) e.checks) =
        checkGrouping.upTo (done.map Row.path ++ [r.path]) e.checks := by
    rw [← Grouping.foldl_addTo hpaths h.distinct h.checks]
    refine List.foldl_ext _ _ _ fun groups c hc => ?_
    exact addToCheck_eq (h.check c (List.mem_of_mem_filter hc)).doc
  have hkeyAll : (addAttribute r.parent l (entityUpTo e done)).primaryKey =
      keyUpTo (done.map Row.path ++ [r.path]) e.primaryKey := by
    rw [addAttribute, hkey, hattr]
    cases hprimary : e.primaryKey with
    | none => simp [entityUpTo, hprimary, keyUpTo]
    | some key =>
      obtain ⟨-, -, hsub⟩ := h.key key hprimary
      by_cases hmem : r.path ∈ key.attrs
      · simp only [Option.filter, List.contains_iff_mem, hmem, ↓reduceIte, Option.map_some,
          keyUpTo_append hpaths h.distinct hsub hmem, entityUpTo, hprimary]
        rfl
      · simp only [Option.filter, List.contains_iff_mem, hmem, ↓reduceIte, Option.map_none,
          entityUpTo, hprimary]
        exact (keyUpTo_append_of_not_mem fun k hk => by cases hk; exact hmem).symm
  have hresult : entityUpTo e (done ++ [r]) = { e with
      attrs := attach r.attr (attachAll done []) r.parent
      primaryKey := (addAttribute r.parent l (entityUpTo e done)).primaryKey
      indexes := ((indexesAt e r.path).map fun i => (i.name, i.unique)).foldl (addToIndex r.path)
        (indexGrouping.upTo (done.map Row.path) e.indexes)
      checks := ((checksAt e r.path).map fun c => (c.name, c.predicate)).foldl (addToCheck r.path)
        (checkGrouping.upTo (done.map Row.path) e.checks) } := by
    rw [List.foldl_map, List.foldl_map, hindexesAll, hchecksAll, hkeyAll, htree, entityUpTo, hdone]
  have hpath : r.path = r.parent ++ [l.attr.name] := by rw [hattr]; rfl
  rw [hresult, ← hattr, ← hindexes, ← hchecks, hpath]
  rfl

-- ---------------------------------------------------------------------------
-- Attributes
-- ---------------------------------------------------------------------------

theorem around_around {inner outer : Nat} (parents : Parents) (h : inner ≤ outer) :
    (parents.around outer).around inner = parents.around inner := by
  induction parents with
  | nil => rfl
  | cons p parents ih =>
    unfold Parents.around at ih ⊢
    rw [List.dropWhile_cons]
    split
    · rename_i hle
      have hle : outer ≤ p.1 := by simpa using hle
      rw [ih, List.dropWhile_cons_of_pos (by simpa using Nat.le_trans h hle)]
    · rfl

theorem around_cons_of_lt (h : p.1 < indent) : Parents.around (p :: parents) indent = p :: parents :=
  List.dropWhile_cons_of_neg (by simpa using h)

theorem around_cons_of_le (h : indent ≤ p.1) :
    Parents.around (p :: parents) indent = Parents.around parents indent :=
  List.dropWhile_cons_of_pos (by simpa using h)

/-! The order of the lines decides which attributes are nested in which. This does not depend on what else
is read: `At parents done` stands for what is known when the attributes of `done` have been read and those of
`parents` may hold the next one. -/

section Nested

variable {R : Line → Sentence → Prop} {At : Parents → List Row → State → Prop} {line : Row → Sentence}

/-- Inside `around`, the attributes of `done` have been read. -/
def Inside (At : Parents → List Row → State → Prop) (around : Parents) (depth : Nat) (done : List Row)
    (s : State) : Prop :=
  ∃ parents : Parents, parents.around (2 * (depth + 1)) = around ∧ At parents done s

/-- The line of each of the rows takes it in, and opens it for those nested in it. -/
def Attaches (R : Line → Sentence → Prop) (At : Parents → List Row → State → Prop) (line : Row → Sentence)
    (rows : List Row) : Prop :=
  ∀ done r rest (parents : Parents), rows = done ++ r :: rest →
    (parents.around (2 * r.path.length)).path = r.parent →
      LeadsBy R [line r] (At parents done)
        (At ((2 * r.path.length, r.path) :: parents.around (2 * r.path.length)) (done ++ [r]))

/-- The line of an attribute opens it for those nested in it. -/
theorem leads_opening (h : Attaches R At line rows) (hrows : rows = done ++ r :: rest)
    (haround : Parents.path around = r.parent) :
    LeadsBy R [line r] (Inside At around r.parent.length done)
      (Inside At ((2 * (r.parent.length + 1), r.path) :: around) (r.parent.length + 1) (done ++ [r])) := by
  have hlength : r.path.length = r.parent.length + 1 := by simp [Row.path]
  rintro s lines ⟨parents, rfl, hs⟩ hlines
  have hparent : (Parents.around parents (2 * r.path.length)).path = r.parent := by
    rw [hlength]
    exact haround
  have hnext := h done r rest parents hrows hparent s lines hs hlines
  rw [hlength] at hnext
  refine ⟨_, around_cons_of_lt ?_, hnext⟩
  show 2 * (r.parent.length + 1) < 2 * (r.parent.length + 1 + 1)
  omega

/-- Behind the attributes nested in one, the next one is its sibling. -/
theorem Inside.leave (haround : Parents.around around (2 * (depth + 1)) = around)
    (h : Inside At ((2 * (depth + 1), path) :: around) (depth + 1) done s) :
    Inside At around depth done s := by
  obtain ⟨parents, hparents, hs⟩ := h
  refine ⟨parents, ?_, hs⟩
  rw [← around_around parents (show 2 * (depth + 1) ≤ 2 * (depth + 1 + 1) by omega), hparents,
    around_cons_of_le (by simp), haround]

/-- The lines of the attributes inside one, by induction on these attributes. -/
theorem leads_rows (h : Attaches R At line rows) (hrows : rows = done ++ rowsIn parent attrs ++ rest)
    (hpath : Parents.path around = parent)
    (haround : Parents.around around (2 * (parent.length + 1)) = around) :
    LeadsBy R ((rowsIn parent attrs).map line) (Inside At around parent.length done)
      (Inside At around parent.length (done ++ rowsIn parent attrs)) := by
  induction attrs using attributes_induction generalizing parent around done rest with
  | nil =>
    rw [rowsIn_nil, List.append_nil]
    exact .nil
  | cons attr more ihn ihr =>
    let r : Row := ⟨parent, alone attr⟩
    let nested := rowsIn (parent ++ [attr.name]) attr.nested
    let within : Parents := (2 * (parent.length + 1), r.path) :: around
    have hsplit : rowsIn parent (attr :: more) = r :: (nested ++ rowsIn parent more) :=
      rowsIn_cons parent attr more
    have hlength : (parent ++ [attr.name]).length = parent.length + 1 := by simp
    rw [hsplit] at hrows ⊢
    have hwithin : Parents.around within (2 * ((parent ++ [attr.name]).length + 1)) = within := by
      rw [hlength]
      exact around_cons_of_lt (by show 2 * (parent.length + 1) < _; omega)
    have hfirst : LeadsBy R [line r] (Inside At around parent.length done)
        (Inside At within (parent.length + 1) (done ++ [r])) :=
      leads_opening h (show rows = done ++ r :: (nested ++ rowsIn parent more ++ rest) by simp [hrows])
        hpath
    have hnested : LeadsBy R (nested.map line) (Inside At within (parent.length + 1) (done ++ [r]))
        (Inside At within (parent.length + 1) (done ++ [r] ++ nested)) := by
      rw [← hlength]
      exact ihn (show rows = done ++ [r] ++ nested ++ (rowsIn parent more ++ rest) by simp [hrows]) rfl
        hwithin
    have hmore : LeadsBy R ((rowsIn parent more).map line)
        (Inside At around parent.length (done ++ [r] ++ nested))
        (Inside At around parent.length (done ++ [r] ++ nested ++ rowsIn parent more)) :=
      ihr (show rows = done ++ [r] ++ nested ++ rowsIn parent more ++ rest by simp [hrows]) hpath haround
    have hall := (hfirst.append hnested).append (hmore.imp (fun s => Inside.leave haround) fun s hs => hs)
    simpa using hall

/-- The lines of all attributes of an entity. -/
theorem leads_allRows (h : Attaches R At line (rowsIn [] attrs)) :
    LeadsBy R ((rowsIn [] attrs).map line) (At [] []) fun s => ∃ parents, At parents (rowsIn [] attrs) s := by
  have hrows : LeadsBy R ((rowsIn [] attrs).map line) (Inside At [] 0 [])
      (Inside At [] 0 (rowsIn [] attrs)) :=
    leads_rows h (show rowsIn [] attrs = [] ++ rowsIn [] attrs ++ [] by simp) rfl rfl
  refine hrows.imp (fun s hs => ⟨[], rfl, hs⟩) ?_
  rintro s ⟨parents, -, hs⟩
  exact ⟨parents, hs⟩

end Nested

/-- What is known of an entity when the attributes of `done` have been read. -/
def EntityUpTo (e : Entity) (own : List Relation) (entities : List Entity) (types : List NamedType)
    (relations : List Relation) (parents : Parents) (done : List Row) : State → Prop :=
  Holds (.entity e.id parents) (entities ++ [entityUpTo e done]) types
    (relations ++ done.flatMap fun r => relationsAt own r.path)

theorem attaches_attributes (h : LegibleEntity e) (hfresh : ∀ f ∈ entities, f.id ≠ e.id)
    (hrelations : ∀ path ∈ pathsOf e.attrs, ∀ q ∈ relationsAt own path, WrittenAt e.id path q)
    (types : List NamedType) (relations : List Relation) :
    Attaches Line.Says (EntityUpTo e own entities types relations) (attributeSentence e own)
      (rowsIn [] e.attrs) := by
  refine fun done r rest parents hrows hparent => .single fun s l hs hsaid => ?_
  have hindent : l.indent = 2 * r.path.length := hsaid.indent
  have hpositive : l.indent ≠ 0 := by
    rw [hindent]
    simp [Row.path]
  have hwords : l.words ≠ [] := fun hnil => by
    have := hsaid.words
    simp [hnil, attributeSentence] at this
  have hmem : r ∈ rowsIn [] e.attrs := by simp [hrows]
  obtain ⟨parsed, hread, hattr, hkey, hindexes, hchecks, hreferences⟩ :=
    read_attributeSentence h hmem (hrelations r.path (List.mem_map_of_mem hmem)) hsaid
  have hpath : r.parent ++ [r.attr.name] = r.path := rfl
  rw [line_indented hwords hpositive, State.indented, hs.block]
  simp only [hs.space, hread, State.addAttributeLine, hindent, hparent, hattr, hpath]
  refine ⟨rfl, rfl, ?_, hs.types, ?_, hs.diagnostics⟩
  · have hother : ∀ f ∈ entities, (f.id == e.id) = false := fun f hf => by simpa using hfresh f hf
    rw [hs.entities, modifyFirst_append hother (by exact beq_self_eq_true e.id),
      addAttribute_entityUpTo h hrows hattr hkey hindexes hchecks]
  · rw [List.map_append, hs.relations, List.flatMap_append, List.flatMap_singleton, ← List.append_assoc,
      ← hreferences, List.map_map]
    rfl

/-- What an entity writes of the relations that start from its attributes. -/
def relationsOf (own : List Relation) (e : Entity) : List Relation :=
  (pathsOf e.attrs).flatMap (relationsAt own)

theorem leads_entityBlock (h : LegibleEntity e) (hfresh : ∀ f ∈ entities, f.id ≠ e.id)
    (hrelations : ∀ path ∈ pathsOf e.attrs, ∀ q ∈ relationsAt (ownRelations db e) path,
      WrittenAt e.id path q) :
    Leads (entityBlock db e ++ [Sentence.empty]) (Holds .closed entities types relations)
      (Holds .closed (entities ++ [e]) types (relations ++ relationsOf (ownRelations db e) e)) := by
  have hrows := leads_allRows (attaches_attributes h hfresh hrelations types relations)
  have hopened : ∀ s, Holds (.entity e.id []) (entities ++ [openedEntity e]) types relations s →
      EntityUpTo e (ownRelations db e) entities types relations [] [] s := fun s hs => by
    simpa [EntityUpTo, entityUpTo_nil h.stats] using hs
  have hblock := (leads_entity h hfresh).append (hrows.imp hopened fun s hs => hs)
  refine hblock.append ?_
  rintro s lines ⟨parents, hs⟩ hlines
  rw [EntityUpTo, entityUpTo_all h] at hs
  have hend := leads_empty s lines hs hlines
  simpa [relationsOf, pathsOf, List.flatMap_map] using hend

end SchemaDialects.Markup
