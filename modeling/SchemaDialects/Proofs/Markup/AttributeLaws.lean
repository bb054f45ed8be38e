import SchemaDialects.Proofs.Markup.Legible

/-!
# Attribute lines read back

A line that says what the writer says of an attribute is read as that attribute, its part in the keys,
indexes and checks of its entity and the relations that start from it (`read_attributeSentence`).
-/

namespace SchemaDialects.Markup

open Text

-- ---------------------------------------------------------------------------
-- Modifiers
-- ---------------------------------------------------------------------------

def Modifier.isReference : Modifier → Bool
  | .reference _ => true
  | _ => false

namespace AttributeLine

theorem applyAll_cons (h : Modifier.ofWord? w.text = some m) (hm : m.isReference = false) :
    applyAll space l (w :: words) = applyAll space (l.apply m) words := by
  cases m with
  | reference c => cases hm
  | _ => simp only [applyAll, h]

theorem applyAll_append {words : List Word} {ms : List Modifier}
    (h : words.map (fun w => Modifier.ofWord? w.text) = ms.map some)
    (hm : ∀ m ∈ ms, m.isReference = false) :
    applyAll space l (words ++ rest) = applyAll space (ms.foldl apply l) rest := by
  induction ms generalizing words l with
  | nil =>
    obtain rfl : words = [] := List.map_eq_nil_iff.mp h
    rfl
  | cons m ms ih =>
    obtain ⟨w, words, rfl, hw, hwords⟩ := List.map_eq_cons_iff.mp h
    rw [List.cons_append, applyAll_cons hw (hm m List.mem_cons_self),
      ih hwords fun n hn => hm n (List.mem_cons_of_mem _ hn)]
    rfl

theorem foldl_index (items : List (Option String × Bool)) (l : AttributeLine) :
    (items.map fun i => Modifier.index i.1 i.2).foldl apply l =
      { l with indexes := l.indexes ++ items } := by
  induction items generalizing l with
  | nil => simp
  | cons i items ih => rw [List.map_cons, List.foldl_cons, ih]; simp [apply]

theorem foldl_check (items : List (Option String × String)) (l : AttributeLine) :
    (items.map fun c => Modifier.check c.1 c.2).foldl apply l =
      { l with checks := l.checks ++ items } := by
  induction items generalizing l with
  | nil => simp
  | cons c items ih => rw [List.map_cons, List.foldl_cons, ih]; simp [apply]

end AttributeLine

/-- The modifiers of an attribute, without the relations. -/
def plainModifiers (e : Entity) (path : AttributePath) (attr : Attribute) : List Modifier :=
  ((e.primaryKey.filter (·.attrs.contains path)).map fun key => Modifier.key key.name).toList ++
    ((if attr.nullable then [.nullable] else []) ++ ((if attr.generated then [.generated] else []) ++
      ((((indexesAt e path).map fun i => (i.name, i.unique)).map fun i => .index i.1 i.2) ++
        (((checksAt e path).map fun c => (c.name, c.predicate)).map fun c => .check c.1 c.2))))

theorem isReference_plainModifiers (e : Entity) (path : AttributePath) (attr : Attribute) :
    ∀ m ∈ plainModifiers e path attr, m.isReference = false := by
  intro m hm
  simp only [plainModifiers, List.mem_append, List.mem_map, Option.mem_toList,
    Option.map_eq_some_iff] at hm
  obtain ⟨key, -, rfl⟩ | hm | hm | ⟨i, -, rfl⟩ | ⟨c, -, rfl⟩ := hm
  · rfl
  · split at hm <;> simp_all [Modifier.isReference]
  · split at hm <;> simp_all [Modifier.isReference]
  · rfl
  · rfl

theorem ofWord?_plainWords (h : LegibleEntity e) (path : AttributePath) (attr : Attribute) :
    (plainWords e path attr).map Modifier.ofWord? = (plainModifiers e path attr).map some := by
  have hkey : (keyWords e path).map Modifier.ofWord? =
      ((e.primaryKey.filter (·.attrs.contains path)).map fun key => Modifier.key key.name).toList.map
        some := by
    unfold keyWords
    cases e.primaryKey.filter (·.attrs.contains path) with
    | none => rfl
    | some key => simp [ofWord?_pk]
  have hnullable : (if attr.nullable then ["nullable"] else []).map Modifier.ofWord? =
      (if attr.nullable then [Modifier.nullable] else []).map some := by
    cases attr.nullable <;> simp [ofWord?_nullable]
  have hgenerated : (if attr.generated then ["generated"] else []).map Modifier.ofWord? =
      (if attr.generated then [Modifier.generated] else []).map some := by
    cases attr.generated <;> simp [ofWord?_generated]
  have hindexes : ((indexesAt e path).map fun i => indexWord (indexName e i, i.unique)).map
      Modifier.ofWord? = (indexesAt e path).map fun i => some (.index i.name i.unique) := by
    rw [List.map_map]
    refine List.map_congr_left fun i hi => ?_
    rw [Function.comp_apply, h.indexName_eq (List.mem_of_mem_filter hi), ofWord?_indexWord]
  have hchecks : ((checksAt e path).map fun c => checkWord (checkName e c, c.predicate)).map
      Modifier.ofWord? = (checksAt e path).map fun c => some (.check c.name c.predicate) := by
    rw [List.map_map]
    refine List.map_congr_left fun c hc => ?_
    have hc := List.mem_of_mem_filter hc
    rw [Function.comp_apply, h.checkName_eq hc]
    exact ofWord?_checkWord fun name hname => ((h.check c hc).name name hname).2
  simp only [plainWords, plainModifiers, List.map_append, hkey, hnullable, hgenerated, hindexes,
    hchecks]
  simp [Function.comp_def]

/-- What the modifiers make of an attribute that is read without any. -/
theorem foldl_plainModifiers (e : Entity) (path : AttributePath) (attr : Attribute)
    (l : AttributeLine) (hnullable : l.attr.nullable = false) (hgenerated : l.attr.generated = false)
    (hkey : l.key = none) (hindexes : l.indexes = []) (hchecks : l.checks = []) :
    (plainModifiers e path attr).foldl AttributeLine.apply l =
      { l with
        attr := { l.attr with nullable := attr.nullable, generated := attr.generated }
        key := (e.primaryKey.filter (·.attrs.contains path)).map (·.name)
        indexes := (indexesAt e path).map fun i => (i.name, i.unique)
        checks := (checksAt e path).map fun c => (c.name, c.predicate) } := by
  obtain ⟨⟨name, type, nullable, generated, defaultValue, nested, doc, extra⟩, typePosition, key,
    indexes, checks, references⟩ := l
  obtain rfl : nullable = false := hnullable
  obtain rfl : generated = false := hgenerated
  obtain rfl : key = none := hkey
  obtain rfl : indexes = [] := hindexes
  obtain rfl : checks = [] := hchecks
  simp only [plainModifiers, List.foldl_append, AttributeLine.foldl_index, AttributeLine.foldl_check]
  cases e.primaryKey.filter (·.attrs.contains path) <;> cases attr.nullable <;>
    cases attr.generated <;> simp [AttributeLine.apply]

-- ---------------------------------------------------------------------------
-- Relations at an attribute
-- ---------------------------------------------------------------------------

/-- The relation that a reference at the attribute `path` of `id` stands for. -/
def Reference.relation (id : EntityName) (path : AttributePath) (r : Reference) : Relation where
  source := { entity := id, attrs := [path], cardinality := some r.cardinalities.1 }
  target := { entity := r.target.entity, attrs := r.target.attrs, cardinality := some r.cardinalities.2 }

/-- The relation says nothing that cannot be written at the attribute `path` of `id`. -/
structure WrittenAt (id : EntityName) (path : AttributePath) (r : Relation) : Prop where
  listable : Listable r.target.attrs
  eq : ∃ c, c ≠ (.one, .many) ∧ r = {
    source := { entity := id, attrs := [path], cardinality := some c.1 }
    target := { entity := r.target.entity, attrs := r.target.attrs, cardinality := some c.2 } }

theorem applyAll_references {id : EntityName} {words : List Word} {relations : List Relation}
    (hwords : words.map (·.text) = relations.flatMap fun r => [operator r, endpointText r.target])
    (h : ∀ r ∈ relations, WrittenAt id path r) (l : AttributeLine) :
    ∃ references, references.map (Reference.relation id path) = relations ∧
      l.applyAll {} words = .ok { l with references := l.references ++ references } := by
  induction relations generalizing words l with
  | nil =>
    obtain rfl : words = [] := List.map_eq_nil_iff.mp hwords
    exact ⟨[], rfl, by simp [AttributeLine.applyAll]⟩
  | cons r relations ih =>
    obtain ⟨op, words, rfl, hop, hwords⟩ := List.map_eq_cons_iff.mp hwords
    obtain ⟨target, words, rfl, htarget, hwords⟩ := List.map_eq_cons_iff.mp hwords
    obtain ⟨hlistable, c, hc, heq⟩ := h r List.mem_cons_self
    have hof : Modifier.ofWord? op.text = some (.reference c) := by
      rw [hop]
      exact ofWord?_operator (by rw [heq]) (by rw [heq]) hc
    have hread : Endpoint.read {} target.text =
        { entity := r.target.entity, attrs := r.target.attrs } := by
      rw [htarget]
      exact Endpoint.read_endpointText hlistable
    let reference : Reference := ⟨c, ⟨r.target.entity, r.target.attrs⟩, target.position⟩
    obtain ⟨references, hrelations, hok⟩ := ih hwords (fun q hq => h q (List.mem_cons_of_mem _ hq))
      { l with references := l.references ++ [reference] }
    refine ⟨reference :: references, ?_, ?_⟩
    · rw [List.map_cons, hrelations]
      exact congrArg (· :: relations) heq.symm
    · simp only [AttributeLine.applyAll, hof, hread]
      exact hok.trans (by simp)

-- ---------------------------------------------------------------------------
-- The line
-- ---------------------------------------------------------------------------

theorem commentExtra_eq (h : SpellableExtra extra) {l : Line}
    (hcomment : l.comment.map (·.text) = commentOf extra) : commentExtra l = extra := by
  obtain rfl | ⟨text, rfl, -⟩ := h.comment
  · obtain hnone : l.comment = none := by simpa [commentOf] using hcomment
    simp [commentExtra, hnone]
  · obtain ⟨word, hword, htext⟩ : ∃ word, l.comment = some word ∧ word.text = text := by
      simpa [commentOf] using hcomment
    simp [commentExtra, hword, htext]

theorem nested_of_mem_rowsIn (h : r ∈ rowsIn parent attrs) : r.attr.nested = [] := by
  induction attrs using attributes_induction generalizing parent with
  | nil => simp at h
  | cons attr rest ihn ihr =>
    rw [rowsIn_cons] at h
    rcases List.mem_cons.mp h with rfl | h
    · rfl
    · exact (List.mem_append.mp h).elim ihn ihr

theorem read_attributeSentence (he : LegibleEntity e) (hr : r ∈ rowsIn [] e.attrs)
    (hrelations : ∀ q ∈ relationsAt relations r.path, WrittenAt e.id r.path q) {l : Line}
    (hsaid : l.Says (attributeSentence e relations r)) :
    ∃ parsed, AttributeLine.read {} l = .ok parsed ∧ parsed.attr = r.attr ∧
      parsed.key = (e.primaryKey.filter (·.attrs.contains r.path)).map (·.name) ∧
      parsed.indexes = (indexesAt e r.path).map (fun i => (i.name, i.unique)) ∧
      parsed.checks = (checksAt e r.path).map (fun c => (c.name, c.predicate)) ∧
      parsed.references.map (Reference.relation e.id r.path) = relationsAt relations r.path := by
  have hattr := he.attrs r hr
  obtain ⟨name, words, hl, hname, hwords⟩ := List.map_eq_cons_iff.mp hsaid.words
  obtain ⟨type, words, rfl, htype, hwords⟩ := List.map_eq_cons_iff.mp hwords
  obtain ⟨plain, references, rfl, hplain, hreferences⟩ := List.map_eq_append_iff.mp hwords
  have hmodifiers : plain.map (fun w => Modifier.ofWord? w.text) =
      (plainModifiers e r.path r.attr).map some := by
    rw [← ofWord?_plainWords he, ← hplain, List.map_map]
    rfl
  have hnone : Modifier.ofWord? type.text = none := htype ▸ hattr.type.plain
  let start : AttributeLine := AttributeLine.withType
    { attr := {
      name := unquote name.text.toList
      type := unknownTypeName
      doc := noteText l
      extra := commentExtra l } } type
  obtain ⟨more, hmore, hok⟩ := applyAll_references hreferences hrelations
    ((plainModifiers e r.path r.attr).foldl AttributeLine.apply start)
  have hstart : start.attr = { r.attr with nullable := false, generated := false } := by
    have hnested := nested_of_mem_rowsIn hr
    have hcomment : commentExtra l = r.attr.extra := commentExtra_eq hattr.extra hsaid.comment
    have hnote : noteText l = r.attr.doc := hsaid.note
    simp only [start, AttributeLine.withType, htype, hname, hnote, hcomment, String.toList_ofList,
      hattr.type.readType, hattr.type.readValue, unquote_quote, hnested]
  have hfold := foldl_plainModifiers e r.path r.attr start (by rw [hstart]) (by rw [hstart]) rfl rfl rfl
  have hline : AttributeLine.read {} l =
      ((plainModifiers e r.path r.attr).foldl AttributeLine.apply start).applyAll {} references := by
    simp only [AttributeLine.read, hl, hnone, Option.isSome_none, Bool.false_eq_true, ↓reduceIte]
    exact AttributeLine.applyAll_append hmodifiers (isReference_plainModifiers e r.path r.attr)
  refine ⟨_, hline.trans hok, ?_⟩
  rw [hfold, hstart]
  refine ⟨?_, rfl, rfl, rfl, hmore⟩
  cases r.attr
  rfl

end SchemaDialects.Markup
