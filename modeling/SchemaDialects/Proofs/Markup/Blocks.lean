import SchemaDialects.Proofs.Diff.Patch
import SchemaDialects.Proofs.Markup.Alike
import SchemaDialects.Proofs.Markup.Grounded

/-!
# Blocks in any order

A blank line closes the open entity, and what refers to another block is looked up when all blocks are known.
So a block adds to a schema what it gives alone (`Beside`), unless it defines something again or names a
namespace, and blocks in another order make up the same schema (`isEmpty_diff_blocks`).
-/

namespace SchemaDialects.Markup

/-- A `namespace` directive. -/
def Line.namesSpace (l : Line) : Bool :=
  l.indent = 0 && l.words.length ≤ 2 && l.words.head?.any (·.is "namespace")

namespace State

/-- What is defined so far. Relations are as they are written. -/
def schema (s : State) : Database where
  entities := s.entities
  relations := s.pending.map (·.relation)
  types := s.types

def closed (s : State) : State := { s with block := .closed }

/-- Nothing has been defined twice. -/
def Unrejected (s : State) : Prop := ∀ d ∈ s.diagnostics, d.kind ≠ .duplicateEntity

end State

/-- The schemas have no entity and no type with the same name. -/
structure Apart (a b : Database) : Prop where
  entities : List.Disjoint (a.entities.map Entity.id) (b.entities.map Entity.id)
  types : List.Disjoint (a.types.map NamedType.id) (b.types.map NamedType.id)

-- ---------------------------------------------------------------------------
-- What a line takes back
-- ---------------------------------------------------------------------------

/-- Names and diagnostics stay. -/
structure Grows (s s' : State) : Prop where
  diagnostics : s.diagnostics ⊆ s'.diagnostics
  entities : s.entities.map Entity.id ⊆ s'.entities.map Entity.id
  types : s.types.map NamedType.id ⊆ s'.types.map NamedType.id

theorem Grows.refl (s : State) : Grows s s := ⟨List.Subset.refl _, List.Subset.refl _, List.Subset.refl _⟩

theorem Grows.trans (h : Grows s s') (h' : Grows s' s'') : Grows s s'' :=
  ⟨List.Subset.trans h.1 h'.1, List.Subset.trans h.2 h'.2, List.Subset.trans h.3 h'.3⟩

namespace State

theorem grows_report (s : State) (p : Problem) (position : Position) : Grows s (s.report p position) :=
  ⟨List.subset_append_left _ _, List.Subset.refl _, List.Subset.refl _⟩

theorem ids_addAttributeLine (s : State) (id : EntityName) (parents : Parents) (indent : Nat) (l : AttributeLine) :
    (s.addAttributeLine id parents indent l).entities.map Entity.id = s.entities.map Entity.id := by
  have hid : ∀ e, (addAttribute (parents.around indent).path l e).id = e.id := fun _ => rfl
  exact map_modifyFirst (fun e _ => hid e) _

theorem grows_indented (s : State) (l : Line) : Grows s (s.indented l) := by
  unfold State.indented
  split
  · exact .refl s
  · exact grows_report _ _ _
  · split
    · exact ⟨List.Subset.refl _, (ids_addAttributeLine ..).symm ▸ List.Subset.refl _, List.Subset.refl _⟩
    · exact grows_report _ _ _

theorem grows_openEntity (s : State) (l : Line) (name : Word) (rest : List Word) :
    Grows s (s.openEntity l name rest) := by
  unfold State.openEntity State.reportEach State.report
  simp only
  generalize entityIn s.space name.text.toList = id
  split
  · refine ⟨?_, List.Subset.refl _, List.Subset.refl _⟩
    exact List.Subset.trans (List.subset_append_left _ _) (List.subset_append_left _ _)
  · refine ⟨List.subset_append_left _ _, ?_, List.Subset.refl _⟩
    exact List.map_subset _ (List.subset_append_left _ _)

theorem grows_relation (s : State) (l : Line) : Grows s (s.relation l) := by
  unfold State.relation
  split
  · split
    · exact grows_report _ _ _
    · extract_lets origin
      split
      · exact grows_report _ _ _
      · exact ⟨List.Subset.refl _, List.Subset.refl _, List.Subset.refl _⟩
  · exact grows_report _ _ _

theorem grows_type (s : State) (l : Line) (name : Word) (rest : List Word) : Grows s (s.type l name rest) := by
  unfold State.type State.reportEach
  extract_lets written id
  split
  · exact grows_report _ _ _
  · refine ⟨List.subset_append_left _ _, List.Subset.refl _, ?_⟩
    exact List.map_subset _ (List.subset_append_left _ _)

theorem grows_line (s : State) (l : Line) : Grows s (s.line l) := by
  have hclosed : ∀ {s'}, Grows { s with block := .closed } s' → Grows s s' := fun h => ⟨h.1, h.2, h.3⟩
  unfold State.line
  split
  · exact hclosed (.refl _)
  · split
    · exact .refl s
    · split
      · unfold State.outermost
        split
        · exact hclosed (grows_report _ _ _)
        · split
          · exact ⟨List.Subset.refl _, List.Subset.refl _, List.Subset.refl _⟩
          · split
            · exact hclosed (grows_relation _ l)
            · split
              · split
                · exact hclosed (grows_type _ l _ _)
                · exact hclosed (grows_openEntity _ l _ _)
              · exact hclosed (grows_openEntity _ l _ _)
      · exact grows_indented s l

theorem grows_lines (s : State) (lines : List Line) : Grows s (lines.foldl State.line s) :=
  List.foldlRecOn (motive := Grows s) lines State.line (.refl s) fun _ h l _ => h.trans (grows_line _ l)

end State

-- ---------------------------------------------------------------------------
-- Two runs of the reader
-- ---------------------------------------------------------------------------

/-- The first schema under construction is `before` and what has been added to it, the second one is what has
been added. -/
structure Beside (before : Database) (s t : State) : Prop where
  space : s.space = {}
  space' : t.space = {}
  block : s.block = t.block
  entities : s.entities = before.entities ++ t.entities
  types : s.types = before.types ++ t.types
  relations : s.pending.map (·.relation) = before.relations ++ t.pending.map (·.relation)
  opened : ∀ id parents, t.block = .entity id parents → id ∈ t.entities.map Entity.id
  apart : Apart before t.schema

namespace Beside

variable {before : Database} {s t : State} {l l' : Line}

theorem report (h : Beside before s t) (p p' : Problem) (position position' : Position) :
    Beside before (s.report p position) (t.report p' position') := { h with }

theorem closed (h : Beside before s t) : Beside before s.closed t.closed :=
  { h with block := rfl, opened := nofun }

theorem addAttributeLine {id : EntityName} (h : Beside before s t) (hblock : t.block = .entity id parents)
    (hl : AttributeLine.Alike a a') (indent : Nat) :
    Beside before (s.addAttributeLine id parents indent a) (t.addAttributeLine id parents indent a') := by
  have hid : id ∈ t.entities.map Entity.id := h.opened id parents hblock
  have hother : ∀ e ∈ before.entities, (e.id == id) = false := fun e he =>
    beq_false_of_ne fun heq => h.apart.entities (List.mem_map_of_mem he) (heq ▸ hid)
  have hsame : addAttribute (parents.around indent).path a = addAttribute (parents.around indent).path a' := by
    funext e
    rw [addAttribute, addAttribute, hl.attr, hl.key, hl.indexes, hl.checks]
  have hids := State.ids_addAttributeLine t id parents indent a'
  refine { h with block := ?_, entities := ?_, relations := ?_, opened := ?_, apart := ⟨?_, h.apart.types⟩ }
  · rw [State.addAttributeLine, State.addAttributeLine, hl.attr]
  · rw [State.addAttributeLine, State.addAttributeLine, h.entities, hsame]
    exact modifyFirst_append_left hother _
  · have hreferences := congrArg (List.map fun r : (Cardinality × Cardinality) × Endpoint => ({
        source := { entity := id, attrs := [(parents.around indent).path ++ [a'.attr.name]], cardinality := some r.1.1 }
        target := { entity := r.2.entity, attrs := r.2.attrs, cardinality := some r.1.2 } } : Relation)) hl.references
    rw [List.map_map, List.map_map] at hreferences
    rw [State.addAttributeLine, State.addAttributeLine, List.map_append, List.map_append, h.relations, hl.attr,
      List.append_assoc, List.map_map, List.map_map]
    exact congrArg _ (congrArg _ hreferences)
  · rintro _ _ ⟨⟩
    exact hids ▸ hid
  · exact hids ▸ h.apart.entities

theorem indented (h : Beside before s t) (hl : l.sentence = l'.sentence) :
    Beside before (s.indented l) (t.indented l') := by
  have hread := AttributeLine.alike_read {} hl
  have hindent : l.indent = l'.indent := (Sentence.mk.inj hl).1
  unfold State.indented
  rw [h.space, h.space', h.block, hindent]
  split
  · exact h
  · exact h.report _ _ _ _
  · rename_i hblock
    cases heq : AttributeLine.read {} l <;> cases heq' : AttributeLine.read {} l' <;> rw [heq, heq'] at hread
    · exact h.report _ _ _ _
    · exact hread.elim
    · exact hread.elim
    · exact h.addAttributeLine hblock hread _

theorem relation (h : Beside before s t) (hl : l.sentence = l'.sentence) :
    Beside before (s.relation l) (t.relation l') := by
  obtain ⟨-, hwords, hnote, hcomment⟩ := Sentence.mk.inj hl
  have hnote : noteText l = noteText l' := hnote
  have hextra := AttributeLine.commentExtra_eq hcomment
  by_cases hfour : l.words.length = 4
  · have hfour' : l'.words.length = 4 := by
      have hlength := congrArg List.length hwords
      rw [List.length_map, List.length_map] at hlength
      omega
    obtain ⟨first, source, operator, target, heq⟩ := List.length_eq_four.mp hfour
    obtain ⟨first', source', operator', target', heq'⟩ := List.length_eq_four.mp hfour'
    obtain ⟨-, hsource, hoperator, htarget⟩ : first.text = first'.text ∧ source.text = source'.text ∧
        operator.text = operator'.text ∧ target.text = target'.text := by
      simpa [heq, heq'] using hwords
    simp only [State.relation, heq, heq', h.space, h.space', hsource, hoperator, htarget]
    split
    · exact h.report _ _ _ _
    · split
      · exact h.report _ _ _ _
      · refine { h with space := rfl, space' := rfl, relations := ?_, apart := ⟨h.apart.1, h.apart.2⟩ }
        rw [List.map_append, List.map_append, h.relations, List.append_assoc, hnote, hextra]
        rfl
  · have hnone : ∀ {s : State} {l : Line}, l.words.length ≠ 4 → s.relation l = s.report .malformedRelation l.position := by
      intro s l hlength
      unfold State.relation
      split
      · rename_i heq
        exact absurd (by rw [heq]; rfl) hlength
      · rfl
    have hlength := congrArg List.length hwords
    rw [List.length_map, List.length_map] at hlength
    rw [hnone hfour, hnone (hlength ▸ hfour)]
    exact h.report _ _ _ _

theorem map_snoc {key : α → κ} (items : List α) (h : key a = k) :
    (items ++ [a]).map key = items.map key ++ [k] := by
  rw [List.map_append, List.map_singleton, h]

theorem any_key [BEq κ] [LawfulBEq κ] {items : List α} {key : α → κ} {k : κ} :
    (items.any (key · == k)) = true ↔ k ∈ items.map key := by
  rw [List.any_eq_true, List.mem_map]
  simp only [beq_iff_eq]

theorem openEntity (h : Beside before s t) (hl : l.sentence = l'.sentence) {name name' : Word}
    (hname : name.text = name'.text) (rest rest' : List Word)
    (hclear : (s.openEntity l name rest).Unrejected ∨ Apart before (t.openEntity l' name' rest').schema) :
    Beside before (s.openEntity l name rest) (t.openEntity l' name' rest') := by
  obtain ⟨-, -, hnote, hcomment⟩ := Sentence.mk.inj hl
  have hnote : noteText l = noteText l' := hnote
  have hextra := AttributeLine.commentExtra_eq hcomment
  unfold State.openEntity State.reportEach State.report at hclear ⊢
  simp only [h.space, h.space', hname, any_key] at hclear ⊢
  generalize entityIn {} name'.text.toList = id at hclear ⊢
  have hids : s.entities.map Entity.id = before.entities.map Entity.id ++ t.entities.map Entity.id := by
    rw [h.entities, List.map_append]
  by_cases hknown : id ∈ t.entities.map Entity.id
  · rw [if_pos (hids ▸ List.mem_append_right _ hknown), if_pos hknown]
    exact { h with space := rfl, space' := rfl, block := rfl, opened := nofun }
  · rw [if_neg hknown] at hclear ⊢
    have hfresh : id ∉ before.entities.map Entity.id := by
      intro hmem
      rcases hclear with hclear | hclear
      · rw [if_pos (hids ▸ List.mem_append_left _ hmem)] at hclear
        exact hclear _ (List.mem_append_right _ List.mem_cons_self) rfl
      · exact hclear.entities hmem (map_snoc t.entities rfl ▸ List.mem_append_right _ List.mem_cons_self)
    rw [if_neg (hids ▸ fun hmem => (List.mem_append.mp hmem).elim hfresh hknown), hnote, hextra]
    refine { h with space := rfl, space' := rfl, block := rfl, entities := ?_, opened := ?_, apart := ⟨?_, h.apart.types⟩ }
    · rw [h.entities, List.append_assoc]
    · rintro _ _ ⟨⟩
      exact map_snoc t.entities rfl ▸ List.mem_append_right _ List.mem_cons_self
    · rw [State.schema, map_snoc t.entities rfl, List.disjoint_append_right]
      exact ⟨h.apart.entities, List.disjoint_singleton.mpr hfresh⟩

theorem withBody_eq {rest rest' : List Word} (h : rest.map (·.text) = rest'.map (·.text)) (t : NamedType) :
    State.withBody t rest.head? = State.withBody t rest'.head? := by
  cases rest with
  | nil => rw [List.map_eq_nil_iff.mp h.symm]
  | cons w rest =>
    obtain ⟨w', rest', rfl, hw, -⟩ := List.map_eq_cons_iff.mp h.symm
    simp [State.withBody, hw]

theorem type (h : Beside before s t) (hl : l.sentence = l'.sentence) {name name' : Word}
    (hname : name.text = name'.text) {rest rest' : List Word} (hrest : rest.map (·.text) = rest'.map (·.text))
    (hclear : (s.type l name rest).Unrejected ∨ Apart before (t.type l' name' rest').schema) :
    Beside before (s.type l name rest) (t.type l' name' rest') := by
  obtain ⟨-, -, hnote, hcomment⟩ := Sentence.mk.inj hl
  have hnote : noteText l = noteText l' := hnote
  have hextra := AttributeLine.commentExtra_eq hcomment
  unfold State.type State.reportEach State.report at hclear ⊢
  simp only [h.space, h.space', hname, any_key] at hclear ⊢
  generalize (if (TypeName.parse name'.text).space = {} then _ else _ : TypeName) = id at hclear ⊢
  have hids : s.types.map NamedType.id = before.types.map NamedType.id ++ t.types.map NamedType.id := by
    rw [h.types, List.map_append]
  by_cases hknown : id ∈ t.types.map NamedType.id
  · rw [if_pos (hids ▸ List.mem_append_right _ hknown), if_pos hknown]
    exact { h with space := rfl, space' := rfl }
  · rw [if_neg hknown] at hclear ⊢
    have hfresh : id ∉ before.types.map NamedType.id := by
      intro hmem
      rcases hclear with hclear | hclear
      · rw [if_pos (hids ▸ List.mem_append_left _ hmem)] at hclear
        exact hclear _ (List.mem_append_right _ List.mem_cons_self) rfl
      · exact hclear.types hmem (map_snoc t.types (id_withBody _ _) ▸ List.mem_append_right _ List.mem_cons_self)
    rw [if_neg (hids ▸ fun hmem => (List.mem_append.mp hmem).elim hfresh hknown), hnote, hextra, withBody_eq hrest]
    refine { h with space := rfl, space' := rfl, types := ?_, apart := ⟨h.apart.entities, ?_⟩ }
    · rw [h.types, List.append_assoc]
    · rw [State.schema, map_snoc t.types (id_withBody _ _), List.disjoint_append_right]
      exact ⟨h.apart.types, List.disjoint_singleton.mpr hfresh⟩

/-- What two lines without indentation that say the same do. -/
theorem outermost_alike (hl : l.sentence = l'.sentence) (hindent : l'.indent = 0) (hspace : l'.namesSpace = false) :
    (∀ s t : State, s.outermost l = s.closed.report .missingEntityName l.position ∧
      t.outermost l' = t.closed.report .missingEntityName l'.position) ∨
    (∀ s t : State, s.outermost l = s.closed.relation l ∧ t.outermost l' = t.closed.relation l') ∨
    (∃ name name' rest rest', name.text = name'.text ∧ rest.map (·.text) = rest'.map (·.text) ∧
      ∀ s t : State, s.outermost l = s.closed.type l name rest ∧ t.outermost l' = t.closed.type l' name' rest') ∨
    (∃ name name' rest rest', name.text = name'.text ∧
      ∀ s t : State, s.outermost l = s.closed.openEntity l name rest ∧
        t.outermost l' = t.closed.openEntity l' name' rest') := by
  obtain ⟨-, hwords, -, -⟩ := Sentence.mk.inj hl
  unfold State.outermost
  cases hcons' : l'.words with
  | nil =>
    rw [hcons'] at hwords
    rw [List.map_eq_nil_iff.mp hwords]
    exact .inl fun _ _ => ⟨rfl, rfl⟩
  | cons first' rest' =>
    rw [hcons'] at hwords
    obtain ⟨first, rest, hcons, hfirst, hrest⟩ := List.map_eq_cons_iff.mp hwords
    have his : ∀ keyword, first.is keyword = first'.is keyword := fun keyword => by rw [Word.is, Word.is, hfirst]
    have hlength : rest.length = rest'.length := by simpa using congrArg List.length hrest
    have hempty : rest.isEmpty = rest'.isEmpty := by
      rw [Bool.eq_iff_iff, List.isEmpty_iff_length_eq_zero, List.isEmpty_iff_length_eq_zero, hlength]
    have hnot : ¬(first'.is "namespace" ∧ rest'.length ≤ 1) := by
      rintro ⟨hfirst', hshort⟩
      simp [Line.namesSpace, hindent, hcons', hfirst', hshort] at hspace
    simp only [hcons, his, hlength, hempty, if_neg hnot]
    by_cases hrel : first'.is "rel" = true ∧ (!rest'.isEmpty) = true
    · simp only [if_pos hrel]
      exact .inr (.inl fun _ _ => ⟨rfl, rfl⟩)
    · simp only [if_neg hrel]
      refine .inr (.inr ?_)
      cases rest' with
      | nil =>
        rw [List.map_eq_nil_iff.mp hrest]
        exact .inr ⟨first, first', [], [], hfirst, fun _ _ => ⟨rfl, rfl⟩⟩
      | cons name' more' =>
        obtain ⟨name, more, rfl, hname, hmore⟩ := List.map_eq_cons_iff.mp hrest
        by_cases htype : first'.is "type" = true
        · simp only [if_pos htype]
          exact .inl ⟨name, name', more, more', hname, hmore, fun _ _ => ⟨rfl, rfl⟩⟩
        · simp only [if_neg htype]
          exact .inr ⟨first, first', name :: more, name' :: more', hfirst, fun _ _ => ⟨rfl, rfl⟩⟩

theorem isBlank_alike (h : l.sentence = l'.sentence) : l.isBlank = l'.isBlank := by
  obtain ⟨-, hwords, hnote, hcomment⟩ := Sentence.mk.inj h
  have hwords : l.words.isEmpty = l'.words.isEmpty := by simpa using congrArg List.isEmpty hwords
  have hnote : l.note.isNone = l'.note.isNone := by simpa using congrArg Option.isNone hnote
  have hcomment : l.comment.isNone = l'.comment.isNone := by simpa using congrArg Option.isNone hcomment
  rw [Line.isBlank, hwords, hnote, hcomment, Line.isBlank]

theorem isComment_alike (h : l.sentence = l'.sentence) : l.isComment = l'.isComment := by
  obtain ⟨-, hwords, hnote, hcomment⟩ := Sentence.mk.inj h
  have hwords : l.words.isEmpty = l'.words.isEmpty := by simpa using congrArg List.isEmpty hwords
  have hnote : l.note.isNone = l'.note.isNone := by simpa using congrArg Option.isNone hnote
  have hcomment : l.comment.isSome = l'.comment.isSome := by simpa using congrArg Option.isSome hcomment
  rw [Line.isComment, hwords, hnote, hcomment, Line.isComment]

/-- A line does the same in both runs, unless it defines again what is defined before. -/
theorem line (h : Beside before s t) (hl : l.sentence = l'.sentence) (hspace : l'.namesSpace = false)
    (hclear : (s.line l).Unrejected ∨ Apart before (t.line l').schema) :
    Beside before (s.line l) (t.line l') := by
  have hindent : l.indent = l'.indent := (Sentence.mk.inj hl).1
  unfold State.line at hclear ⊢
  rw [isBlank_alike hl, isComment_alike hl, hindent] at hclear ⊢
  split
  · exact h.closed
  · split
    · exact h
    · rename_i hblank hremark
      rw [if_neg hblank, if_neg hremark, if_neg hblank, if_neg hremark] at hclear
      split
      · rename_i hindent
        rw [if_pos hindent, if_pos hindent] at hclear
        rcases outermost_alike hl hindent hspace with hboth | hboth | ⟨name, name', rest, rest', hname, hrest, hboth⟩ |
          ⟨name, name', rest, rest', hname, hboth⟩ <;> rw [(hboth s t).1, (hboth s t).2] at hclear ⊢
        · exact h.closed.report _ _ _ _
        · exact h.closed.relation hl
        · exact h.closed.type hl hname hrest hclear
        · exact h.closed.openEntity hl hname rest rest' hclear
      · exact h.indented hl

/-- Lines do the same in both runs, unless they define again what is defined before. -/
theorem lines {lines lines' : List Line} (h : Beside before s t) (hl : lines.map Line.sentence = lines'.map Line.sentence)
    (hspace : ∀ l ∈ lines', l.namesSpace = false)
    (hclear : (lines.foldl State.line s).Unrejected ∨ Apart before (lines'.foldl State.line t).schema) :
    Beside before (lines.foldl State.line s) (lines'.foldl State.line t) := by
  induction lines' generalizing lines s t with
  | nil =>
    rw [List.map_eq_nil_iff.mp hl]
    exact h
  | cons l' lines' ih =>
    obtain ⟨l, lines, rfl, hfirst, hrest⟩ := List.map_eq_cons_iff.mp hl
    obtain ⟨hspace, hmore⟩ := List.forall_mem_cons.mp hspace
    have hstep : Beside before (s.line l) (t.line l') := by
      refine h.line hfirst hspace (hclear.imp (fun hclear d hd => ?_) fun hclear => ?_)
      · exact hclear d ((State.grows_lines _ lines).diagnostics hd)
      · have hgrows := State.grows_lines (t.line l') lines'
        exact ⟨List.disjoint_of_subset_right hgrows.entities hclear.entities,
          List.disjoint_of_subset_right hgrows.types hclear.types⟩
    rw [List.foldl_cons, List.foldl_cons] at hclear ⊢
    exact ih hstep hrest hmore hclear

end Beside

-- ---------------------------------------------------------------------------
-- Blocks
-- ---------------------------------------------------------------------------

/-- The text consists of these blocks with blank lines between them. -/
inductive ConsistsOf : List String → String → Prop
  | nil : ConsistsOf [] ""
  | single (block : String) : ConsistsOf [block] block
  | cons (block : String) {gap next rest : String} {blocks : List String}
      (hgap : ∀ l ∈ (readLines gap).1, l.isBlank = true) (h : ConsistsOf (next :: blocks) rest) :
      ConsistsOf (block :: next :: blocks) (block ++ "\n" ++ gap ++ "\n" ++ rest)

/-- One empty line between the blocks will do. -/
theorem consistsOf_intercalate (blocks : List String) : ConsistsOf blocks ("\n\n".intercalate blocks) := by
  induction blocks with
  | nil => exact .nil
  | cons block blocks ih =>
    cases blocks with
    | nil => exact .single block
    | cons next blocks =>
      have hgap : ∀ l ∈ (readLines "").1, l.isBlank = true := by decide +kernel
      have htext : block ++ "\n" ++ "" ++ "\n" ++ "\n\n".intercalate (next :: blocks) =
          "\n\n".intercalate (block :: next :: blocks) := by
        rw [String.intercalate_cons_cons, ← String.toList_inj]
        simp
      exact htext ▸ .cons block hgap ih

def joined (a b : Database) : Database where
  entities := a.entities ++ b.entities
  relations := a.relations ++ b.relations
  types := a.types ++ b.types

/-- What each block defines alone, in this order. -/
def definitions (blocks : List String) : Database where
  entities := blocks.flatMap fun block => (stateBehind block).entities
  relations := blocks.flatMap fun block => (stateBehind block).schema.relations
  types := blocks.flatMap fun block => (stateBehind block).types

/-- No name is given twice. -/
structure Distinct (db : Database) : Prop where
  entities : (db.entities.map Entity.id).Nodup
  types : (db.types.map NamedType.id).Nodup

theorem definitions_cons (block : String) (blocks : List String) :
    definitions (block :: blocks) = joined (stateBehind block).schema (definitions blocks) := rfl

theorem joined_assoc (a b c : Database) : joined (joined a b) c = joined a (joined b c) := by
  simp [joined, List.append_assoc]

theorem Distinct.apart (h : Distinct (joined a b)) : Apart a b := by
  obtain ⟨hentities, htypes⟩ := h
  rw [joined, List.map_append, List.nodup_append'] at hentities htypes
  exact ⟨hentities.2.2, htypes.2.2⟩

theorem Distinct.left (h : Distinct (joined a b)) : Distinct a := by
  obtain ⟨hentities, htypes⟩ := h
  rw [joined, List.map_append, List.nodup_append'] at hentities htypes
  exact ⟨hentities.1, htypes.1⟩

theorem lines_blank (hne : lines ≠ []) (h : ∀ l ∈ lines, Line.isBlank l = true) (s : State) :
    lines.foldl State.line s = s.closed := by
  induction lines generalizing s with
  | nil => exact absurd rfl hne
  | cons l lines ih =>
    obtain ⟨hl, hlines⟩ := List.forall_mem_cons.mp h
    have hline : s.line l = s.closed := by rw [State.line, if_pos hl, State.closed]
    rw [List.foldl_cons, hline]
    cases lines with
    | nil => rfl
    | cons next lines => exact ih (List.cons_ne_nil _ _) hlines s.closed

theorem readLines_ne_nil (text : String) : (readLines text).1 ≠ [] := by
  have hmap : (readLines text).1.map Line.sentence ≠ [] := by
    rw [readLines, sentences_readLinesFrom]
    simpa [Text.splitAt] using Text.pieces_ne_nil
  simpa using hmap

theorem blank_alike (h : lines.map Line.sentence = sentences gap) (hgap : ∀ l ∈ (readLines gap).1, l.isBlank = true) :
    lines ≠ [] ∧ ∀ l ∈ lines, l.isBlank = true := by
  refine ⟨?_, fun l hl => ?_⟩
  · rintro rfl
    exact readLines_ne_nil gap (List.map_eq_nil_iff.mp h.symm)
  · have hmem : l.sentence ∈ sentences gap := h ▸ List.mem_map_of_mem hl
    obtain ⟨l', hl', heq⟩ := List.mem_map.mp hmem
    rw [← hgap l' hl', Beside.isBlank_alike heq]

section
variable {lines : List Line} {s : State} {block text : String} {blocks : List String}

/-- A block adds what it defines alone. -/
theorem beside_block (hl : lines.map Line.sentence = sentences block)
    (hspace : ∀ l ∈ (readLines block).1, l.namesSpace = false) (hs : s.space = {}) (hblock : s.block = .closed)
    (hclear : (lines.foldl State.line s).Unrejected ∨ Apart s.schema (stateBehind block).schema) :
    (lines.foldl State.line s).schema = joined s.schema (stateBehind block).schema ∧
      (lines.foldl State.line s).space = {} := by
  have hstart : Beside s.schema s (stateBefore block) := by
    refine ⟨hs, rfl, hblock, ?_, ?_, ?_, nofun, ⟨?_, ?_⟩⟩ <;> simp [State.schema, stateBefore]
  have hend := hstart.lines hl hspace hclear
  refine ⟨?_, hend.space⟩
  rw [State.schema, hend.entities, hend.types, hend.relations]
  rfl

theorem schema_lines (h : ConsistsOf blocks text)
    (hspace : ∀ block ∈ blocks, ∀ l ∈ (readLines block).1, l.namesSpace = false)
    (hl : lines.map Line.sentence = sentences text) (hs : s.space = {}) (hblock : s.block = .closed)
    (hclear : (lines.foldl State.line s).Unrejected ∨ Distinct (joined s.schema (definitions blocks))) :
    (lines.foldl State.line s).schema = joined s.schema (definitions blocks) := by
  induction h generalizing lines s with
  | nil =>
    obtain ⟨hne, hblank⟩ := blank_alike hl (by decide +kernel)
    rw [lines_blank hne hblank]
    simp [joined, definitions, State.closed, State.schema]
  | single block =>
    rw [definitions_cons] at hclear ⊢
    have hapart := hclear.imp_right fun hdistinct => (joined_assoc .. ▸ hdistinct).left.apart
    rw [(beside_block hl (hspace block List.mem_cons_self) hs hblock hapart).1]
    simp [joined, definitions]
  | @cons block gap next rest blocks hgap h ih =>
    obtain ⟨hfirst, hmore⟩ := List.forall_mem_cons.mp hspace
    rw [sentences_append, sentences_append] at hl
    obtain ⟨ahead, ofRest, rfl, hahead, hrest⟩ := List.map_eq_append_iff.mp hl
    obtain ⟨ofBlock, ofGap, rfl, hofBlock, hofGap⟩ := List.map_eq_append_iff.mp hahead
    obtain ⟨hne, hblank⟩ := blank_alike hofGap hgap
    rw [List.foldl_append, List.foldl_append, lines_blank hne hblank] at hclear ⊢
    rw [definitions_cons] at hclear ⊢
    obtain ⟨hschema, hspace'⟩ := beside_block hofBlock hfirst hs hblock (hclear.imp
      (fun hclear d hd => hclear d ((State.grows_lines _ ofRest).diagnostics hd))
      fun hclear => (joined_assoc .. ▸ hclear).left.apart)
    rw [← joined_assoc, ← hschema] at hclear ⊢
    exact ih hmore hrest hspace' rfl hclear

/-- The schema of a text before relations are filled in. -/
theorem schema_stateBehind (h : ConsistsOf blocks text)
    (hspace : ∀ block ∈ blocks, ∀ l ∈ (readLines block).1, l.namesSpace = false)
    (hclear : (stateBehind text).Unrejected ∨ Distinct (definitions blocks)) :
    (stateBehind text).schema = definitions blocks := by
  have hempty : joined (stateBefore text).schema (definitions blocks) = definitions blocks := rfl
  rw [← hempty] at hclear ⊢
  exact schema_lines h hspace rfl rfl rfl hclear

end

-- ---------------------------------------------------------------------------
-- Relations
-- ---------------------------------------------------------------------------

/-- The relation as it is among these entities. -/
def filledIn (entities : List Entity) (r : Relation) : Relation := State.resolve { entities } ⟨r, .unknown⟩

theorem filledIn_perm (h : entities.Perm entities') (hids : (entities.map Entity.id).Nodup) :
    filledIn entities = filledIn entities' := by
  have hfind : ∀ id : EntityName, entities.find? (·.id == id) = entities'.find? (·.id == id) := by
    refine fun id => List.find?_eq_find?_of_perm h fun a ha b hb => ?_
    exact List.inj_on_of_nodup_map hids ha.1 hb.1 ((beq_iff_eq.mp ha.2).trans (beq_iff_eq.mp hb.2).symm)
  funext r
  simp only [filledIn, State.resolve, State.find?, hfind]

theorem value_readSchema_eq (text : String) : (readSchema text).value = some {
    entities := (stateBehind text).schema.entities
    relations := (stateBehind text).schema.relations.map (filledIn (stateBehind text).schema.entities)
    types := (stateBehind text).schema.types } := by
  have hrelations : (stateBehind text).schema.relations.map (filledIn (stateBehind text).schema.entities) =
      (stateBehind text).pending.map (stateBehind text).resolve := List.map_map
  rw [hrelations]
  rfl

theorem unrejected_of_readSchema (h : ∀ d ∈ (readSchema text).diagnostics, d.kind ≠ .duplicateEntity) :
    (stateBehind text).Unrejected := by
  refine fun d hd => h d (List.mem_mergeSort.mpr ?_)
  exact List.mem_append_left _ (List.mem_append_left _ hd)

theorem distinct_stateBehind (text : String) : Distinct (stateBehind text).schema :=
  have hrun := run_readLines text
  ⟨hrun.gathered.entities, hrun.gathered.types⟩

section
variable {text text' : String} {blocks blocks' : List String}

theorem definitions_perm (h : blocks.Perm blocks') :
    (definitions blocks).entities.Perm (definitions blocks').entities ∧
      (definitions blocks).relations.Perm (definitions blocks').relations ∧
      (definitions blocks).types.Perm (definitions blocks').types :=
  ⟨h.flatMap_right _, h.flatMap_right _, h.flatMap_right _⟩

/-- Blocks of lines in another order make up the same schema if none of them names a namespace, nothing is
defined twice and no two relations have the same ends. Blocks may have blank lines inside them. -/
theorem isEmpty_diff_blocks (hperm : blocks.Perm blocks') (htext : ConsistsOf blocks text)
    (htext' : ConsistsOf blocks' text')
    (hspace : ∀ block ∈ blocks, ∀ l ∈ (readLines block).1, l.namesSpace = false)
    (hunique : ∀ d ∈ (readSchema text).diagnostics, d.kind ≠ .duplicateEntity)
    (hends : ∀ db ∈ (readSchema text).value, (db.relations.map Relation.key).Nodup) :
    ∃ db db', (readSchema text).value = some db ∧ (readSchema text').value = some db' ∧
      (db.diff db').isEmpty = true := by
  have hschema : (stateBehind text).schema = definitions blocks :=
    schema_stateBehind htext hspace (.inl (unrejected_of_readSchema hunique))
  obtain ⟨hentities, hrelations, htypes⟩ := definitions_perm hperm
  have hdistinct : Distinct (definitions blocks) := hschema ▸ distinct_stateBehind text
  have hdistinct' : Distinct (definitions blocks') :=
    ⟨(hentities.map _).nodup_iff.mp hdistinct.entities, (htypes.map _).nodup_iff.mp hdistinct.types⟩
  have hschema' : (stateBehind text').schema = definitions blocks' :=
    schema_stateBehind htext' (fun block hblock => hspace block (hperm.mem_iff.mpr hblock)) (.inr hdistinct')
  have hvalue := value_readSchema_eq text
  have hvalue' := value_readSchema_eq text'
  rw [hschema] at hvalue
  rw [hschema', ← filledIn_perm hentities hdistinct.entities] at hvalue'
  refine ⟨_, _, hvalue, hvalue', isEmpty_diff (.of_eq fun id => ?_) (.of_eq fun key => ?_) (.of_eq fun id => ?_)⟩
  · exact firstAt?_perm hentities hdistinct.entities id
  · exact firstAt?_perm (hrelations.map _) (hends _ hvalue) key
  · exact firstAt?_perm htypes hdistinct.types id

end

/-- A target without attributes, a type declared later and a relation to a later entity. -/
def shopBlocks : List String := [
  "orders\n  buyer fk users\n  state mood # of the buyer",
  "  stray line\nusers\n  id int pk\n  nick \"varchar(9)\" unique\nrel users(nick) <> orders",
  "type mood (fine, sad)"]

theorem isEmpty_diff_blocks_shop : ∃ db db',
    (readSchema ("\n\n".intercalate shopBlocks)).value = some db ∧
      (readSchema ("\n\n".intercalate shopBlocks.reverse)).value = some db' ∧ (db.diff db').isEmpty = true :=
  isEmpty_diff_blocks (List.reverse_perm shopBlocks).symm (consistsOf_intercalate _) (consistsOf_intercalate _)
    (by decide +kernel) (by decide +kernel) (by decide +kernel)

end SchemaDialects.Markup
