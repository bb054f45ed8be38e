import SchemaDialects.Proofs.Markup.Reading

/-!
# The outline of a schema

The entities of a schema and the names of their attributes, without everything else. More generally, a summary
has of each entity its identity and some `content`. What a line of the writer does to a summary depends on its
indentation and its words only: of an attribute the reader has at least what `ReadFrom` says, and if the content
goes along with that (`Tells`), so does the summary (`attaches_summary`).
-/

namespace SchemaDialects.Markup

open Text

-- ---------------------------------------------------------------------------
-- Names
-- ---------------------------------------------------------------------------

/-- The name of an attribute and those of the attributes nested in it. -/
inductive NameTree
  | node (name : String) (nested : List NameTree)
  deriving Repr

mutual

def nameTree : Attribute → NameTree
  | ⟨name, _, _, _, _, nested, _, _⟩ => .node name (nameTrees nested)

def nameTrees : List Attribute → List NameTree
  | [] => []
  | attr :: rest => nameTree attr :: nameTrees rest

end

/-- The entity with the names of its attributes. -/
def outline (e : Entity) : EntityName × List NameTree := (e.id, nameTrees e.attrs)

@[simp] theorem nameTrees_nil : nameTrees [] = [] := by rw [nameTrees]

@[simp] theorem nameTrees_cons (attr : Attribute) (rest : List Attribute) :
    nameTrees (attr :: rest) = .node attr.name (nameTrees attr.nested) :: nameTrees rest := by
  cases attr
  rw [nameTrees, nameTree]

@[simp] theorem nameTrees_append (as bs : List Attribute) :
    nameTrees (as ++ bs) = nameTrees as ++ nameTrees bs := by
  induction as with
  | nil => simp
  | cons a as ih => simp [ih]

/-- Changes that do the same to the names do so inside every attribute. -/
theorem nameTrees_changeInside (hfg : ∀ as bs, nameTrees as = nameTrees bs → nameTrees (f as) = nameTrees (g bs))
    (path : AttributePath) (h : nameTrees as = nameTrees bs) :
    nameTrees (changeInside f as path) = nameTrees (changeInside g bs path) := by
  induction path generalizing as bs with
  | nil => exact hfg as bs h
  | cons name path ih =>
    simp only [changeInside]
    induction as generalizing bs with
    | nil =>
      cases bs with
      | nil => rfl
      | cons b bs => simp at h
    | cons a as ihas =>
      cases bs with
      | nil => simp at h
      | cons b bs =>
        simp only [nameTrees_cons, List.cons.injEq, NameTree.node.injEq] at h
        obtain ⟨⟨hname, hnested⟩, hrest⟩ := h
        by_cases ha : a.name = name
        · simp [modifyFirst, ha, ← hname, hrest, ih hnested]
        · simp [modifyFirst, ha, ← hname, hnested, ihas hrest]

theorem nameTrees_attach (hname : a.name = b.name) (hnested : nameTrees a.nested = nameTrees b.nested)
    (h : nameTrees as = nameTrees bs) (parent : AttributePath) :
    nameTrees (attach a as parent) = nameTrees (attach b bs parent) := by
  rw [attach_eq, attach_eq]
  exact nameTrees_changeInside (fun as bs h => by simp [h, hname, hnested]) parent h

-- ---------------------------------------------------------------------------
-- Lines
-- ---------------------------------------------------------------------------

/-- The words that leave anything on a line. -/
def visible (words : List String) : List String := words.filter (· ≠ "")

theorem visible_cons (h : w ≠ "") : visible (w :: words) = w :: visible words :=
  List.filter_cons_of_pos (by simpa using h)

/-- The line has the indentation and the words of the sentence. The definition of a type may go on to
the end of its line. -/
structure Line.Follows (l : Line) (t : Sentence) : Prop where
  indent : l.indent = t.indent
  words : l.words.map (·.text) = visible t.words ∨ t.indent = 0 ∧ ∃ name more written,
    t.words = "type" :: name :: written ∧ l.words.map (·.text) = "type" :: name :: more
  blank : t.words = [] → l.isBlank = true

/-- An entity by its identity and what `content` tells of it. -/
def summary (content : Entity → γ) (e : Entity) : EntityName × γ := (e.id, content e)

/-- What is known of the entities so far, in a text that names no namespace. -/
structure Summarized (content : Entity → γ) (block : Block) (entities : List (EntityName × γ)) (s : State) :
    Prop where
  space : s.space = {}
  block : s.block = block
  entities : s.entities.map (summary content) = entities

section Outermost

variable {content : Entity → γ} {entities : List (EntityName × γ)}

theorem summarized_empty : LeadsBy Line.Follows [Sentence.empty] (Summarized content block entities)
    (Summarized content .closed entities) := by
  refine .single fun s l hs hfollows => ?_
  rw [State.line, if_pos (hfollows.blank rfl)]
  exact ⟨hs.space, rfl, hs.entities⟩

/-- The entities are left as they are. -/
structure Spares (s s' : State) : Prop where
  sameSpace : s'.space = s.space
  sameBlock : s'.block = s.block
  sameEntities : s'.entities = s.entities

theorem spares_type (s : State) (l : Line) (name : Word) (rest : List Word) : Spares s (s.type l name rest) := by
  unfold State.type
  extract_lets written id
  split <;> exact ⟨rfl, rfl, rfl⟩

theorem spares_relation (s : State) (l : Line) : Spares s (s.relation l) := by
  unfold State.relation
  split
  · split
    · exact ⟨rfl, rfl, rfl⟩
    · dsimp only
      split <;> exact ⟨rfl, rfl, rfl⟩
  · exact ⟨rfl, rfl, rfl⟩

theorem Summarized.spared (h : Summarized content b entities s) (hs : Spares { s with block := .closed } s') :
    Summarized content .closed entities s' :=
  ⟨hs.sameSpace.trans h.space, hs.sameBlock, hs.sameEntities ▸ h.entities⟩

/-- A type does not show in a summary of the entities, whatever its definition is. -/
theorem summarized_type (t : NamedType) (hname : t.id.render ≠ "") :
    LeadsBy Line.Follows [typeSentence t] (Summarized content .closed entities)
      (Summarized content .closed entities) := by
  refine .single fun s l hs hfollows => ?_
  obtain ⟨more, hwords⟩ : ∃ more, l.words.map (·.text) = "type" :: t.id.render :: more := by
    rcases hfollows.words with hwords | ⟨-, name, more, written, hsentence, hwords⟩
    · rw [typeSentence, visible_cons (by decide), visible_cons hname] at hwords
      exact ⟨_, hwords⟩
    · obtain ⟨rfl, -⟩ := List.cons.inj (List.cons.inj hsentence).2
      exact ⟨more, hwords⟩
  obtain ⟨first, rest, hl, hfirst, hrest⟩ := List.map_eq_cons_iff.mp hwords
  obtain ⟨name, body, rfl, -, -⟩ := List.map_eq_cons_iff.mp hrest
  rw [line_outermost (by simp [hl]) hfollows.indent, outermost_type hl hfirst]
  exact hs.spared (spares_type _ l name body)

theorem summarized_relation (r : Relation) (hsource : endpointText r.source ≠ "") :
    LeadsBy Line.Follows [relationSentence r] (Summarized content .closed entities)
      (Summarized content .closed entities) := by
  refine .single fun s l hs hfollows => ?_
  have hwords : l.words.map (·.text) = visible (relationSentence r).words :=
    hfollows.words.resolve_right fun ⟨_, _, _, _, hsentence, _⟩ => by simp [relationSentence] at hsentence
  rw [relationSentence, visible_cons (by decide), visible_cons hsource] at hwords
  obtain ⟨first, rest, hl, hfirst, hrest⟩ := List.map_eq_cons_iff.mp hwords
  obtain ⟨source, rest, rfl, -, -⟩ := List.map_eq_cons_iff.mp hrest
  rw [line_outermost (by simp [hl]) hfollows.indent, outermost_relation hl hfirst]
  exact hs.spared (spares_relation _ l)

theorem summarized_entity (h : ContainedEntity e) (hname : e.id.render ≠ "")
    (hfresh : ∀ f ∈ entities, f.1 ≠ e.id)
    (hopened : ∀ f : Entity, f.attrs = [] → f.primaryKey = none → f.indexes = [] → content f = start) :
    LeadsBy Line.Follows [entitySentence e] (Summarized content .closed entities)
      (Summarized content (.entity e.id []) (entities ++ [(e.id, start)])) := by
  refine .single fun s l hs hfollows => ?_
  have hwords : l.words.map (·.text) = visible (entitySentence e).words :=
    hfollows.words.resolve_right fun ⟨_, _, _, _, hsentence, _⟩ => by simp [entitySentence] at hsentence
  obtain ⟨first, rest, hl, hfirst, hrest⟩ := List.map_eq_cons_iff.mp
    (hwords.trans (visible_cons hname))
  obtain rfl : rest = [] := List.map_eq_nil_iff.mp hrest
  have hid : entityIn {} first.text.toList = e.id := by rw [hfirst, entityIn_render]
  have hnone : s.entities.any (·.id == e.id) = false := by
    refine List.any_eq_false.mpr fun f hf => ?_
    have hmem : summary content f ∈ entities := hs.entities ▸ List.mem_map_of_mem hf
    simpa [summary] using hfresh _ hmem
  rw [line_outermost (by simp [hl]) hfollows.indent,
    outermost_entity hl (hfirst ▸ toLower_render_ne h.noDirective), State.openEntity]
  simp only [hs.space, hid]
  rw [if_neg (by simpa [State.reportEach] using hnone)]
  refine ⟨rfl, rfl, ?_⟩
  show (s.entities ++ [_]).map (summary content) = _
  rw [List.map_append, hs.entities, List.map_singleton, summary, hopened _ rfl rfl rfl]
  rfl

end Outermost

-- ---------------------------------------------------------------------------
-- Attributes
-- ---------------------------------------------------------------------------

/-- Whatever the name of a check, its word is a modifier. -/
theorem ofWord?_checkWord_isSome (item : Option String × String) :
    ∃ name predicate, Modifier.ofWord? (checkWord item) = some (.check name predicate) := by
  obtain ⟨name, predicate⟩ := item
  obtain ⟨hkey, hrest⟩ := ofWord?_append "check".toList (forall_chars (by decide))
    (checkWord_head name predicate)
  unfold keyword at hkey
  simp only [Modifier.ofWord?, checkWord, String.toList_append, List.append_assoc, hkey, hrest]
  rw [toLower_eq]
  exact ⟨_, _, rfl⟩

theorem ofWord?_plainWord (h : w ∈ plainWords e path attr) :
    ∃ m, Modifier.ofWord? w = some m ∧ m.isReference = false := by
  simp only [plainWords, List.mem_append] at h
  obtain h | h | h | h | h := h
  · obtain ⟨key, -, rfl⟩ := Option.map_eq_some_iff.mp (Option.mem_toList.mp h)
    exact ⟨_, ofWord?_pk, rfl⟩
  · split at h
    · obtain rfl := List.mem_singleton.mp h
      exact ⟨_, ofWord?_nullable, rfl⟩
    · cases h
  · split at h
    · obtain rfl := List.mem_singleton.mp h
      exact ⟨_, ofWord?_generated, rfl⟩
    · cases h
  · obtain ⟨i, -, rfl⟩ := List.mem_map.mp h
    exact ⟨_, ofWord?_indexWord _, rfl⟩
  · obtain ⟨c, -, rfl⟩ := List.mem_map.mp h
    obtain ⟨name, predicate, hword⟩ := ofWord?_checkWord_isSome (checkName e c, c.predicate)
    exact ⟨_, hword, rfl⟩

theorem ofWord?_operator_isSome (r : Relation) : ∃ c, Modifier.ofWord? (operator r) = some (.reference c) := by
  have hall : ∀ text ∈ ["--", "<>", "->"], ∃ c, Modifier.ofWord? text = some (.reference c) := by
    intro text htext
    simp only [List.mem_cons, List.not_mem_nil, or_false] at htext
    rcases htext with rfl | rfl | rfl <;> rw [Modifier.ofWord?, cardinalities?, toLower_eq, toLower_eq] <;>
      exact ⟨_, rfl⟩
  refine hall _ ?_
  unfold operator
  split <;> simp

/-- Operators take the next words with them, whatever these are. -/
theorem applyAll_targets {words : List Word} {relations : List Relation}
    (h : words.map (·.text) = relations.flatMap fun r => [operator r, endpointText r.target])
    (space : Namespace) (l : AttributeLine) : ∃ references, l.applyAll space words = .ok { l with references } := by
  induction relations generalizing words l with
  | nil =>
    obtain rfl : words = [] := List.map_eq_nil_iff.mp h
    exact ⟨l.references, by rw [AttributeLine.applyAll]⟩
  | cons r relations ih =>
    obtain ⟨op, words, rfl, hop, hwords⟩ := List.map_eq_cons_iff.mp h
    obtain ⟨target, words, rfl, -, hwords⟩ := List.map_eq_cons_iff.mp hwords
    obtain ⟨c, hc⟩ := ofWord?_operator_isSome r
    obtain ⟨references, hok⟩ := ih hwords
      { l with references := l.references ++ [⟨c, .read space target.text, target.position⟩] }
    refine ⟨references, ?_⟩
    rw [← hop] at hc
    simp only [AttributeLine.applyAll, hc, hok]

/-- What the words are as modifiers; others do not count. -/
def modifiersIn (words : List String) : List Modifier := words.filterMap Modifier.ofWord?

theorem map_modifiersIn {words : List String} (h : ∀ w ∈ words, (Modifier.ofWord? w).isSome) :
    (modifiersIn words).map some = words.map Modifier.ofWord? := by
  induction words with
  | nil => rfl
  | cons w words ih =>
    obtain ⟨hw, hwords⟩ := List.forall_mem_cons.mp h
    obtain ⟨m, hm⟩ := Option.isSome_iff_exists.mp hw
    have ih := ih hwords
    rw [modifiersIn] at ih
    simp [modifiersIn, hm, ih]

theorem applyAll_modifierWords {words : List Word}
    (h : words.map (·.text) = modifierWords e relations path attr) (l : AttributeLine) :
    ∃ references, l.applyAll space words =
      .ok { (modifiersIn (plainWords e path attr)).foldl AttributeLine.apply l with references } := by
  obtain ⟨plain, targets, rfl, hplain, htargets⟩ := List.map_eq_append_iff.mp h
  have hwords : plain.map (fun w => Modifier.ofWord? w.text) = (modifiersIn (plainWords e path attr)).map some := by
    rw [← hplain, map_modifiersIn fun w hw => ?_, List.map_map]
    · rfl
    · obtain ⟨m, hm, -⟩ := ofWord?_plainWord (hplain ▸ hw : w ∈ plainWords e path attr)
      simp [hm]
  have hmodifiers : ∀ m ∈ modifiersIn (plainWords e path attr), m.isReference = false := by
    intro m hm
    obtain ⟨w, hw, hwm⟩ := List.mem_filterMap.mp hm
    obtain ⟨m', hm', hplain⟩ := ofWord?_plainWord hw
    rw [hwm] at hm'
    exact Option.some.inj hm' ▸ hplain
  obtain ⟨references, hok⟩ := applyAll_targets htargets space
    ((modifiersIn (plainWords e path attr)).foldl AttributeLine.apply l)
  exact ⟨references, (AttributeLine.applyAll_append hwords hmodifiers).trans hok⟩

theorem ofWord?_head_modifierWords (h : modifierWords e relations path attr = w :: words) :
    (Modifier.ofWord? w).isSome = true := by
  rw [modifierWords] at h
  rcases List.append_eq_cons_iff.mp h with ⟨hplain, hrest⟩ | ⟨more, hplain, -⟩
  · cases hrelations : relationsAt relations path with
    | nil => simp [hrelations] at hrest
    | cons r rest =>
      obtain ⟨c, hc⟩ := ofWord?_operator_isSome r
      rw [hrelations, List.flatMap_cons, List.cons_append] at hrest
      obtain ⟨rfl, -⟩ := List.cons.inj hrest
      rw [hc]
      rfl
  · obtain ⟨m, hm, -⟩ := ofWord?_plainWord (hplain ▸ List.mem_cons_self : w ∈ plainWords e path attr)
    rw [hm]
    rfl

theorem cardinalities?_of_reference (h : Modifier.ofWord? text = some (.reference c)) :
    cardinalities? text = some c := by
  unfold Modifier.ofWord? at h
  dsimp only at h
  split at h <;> simp_all

/-- An attribute line of which only the name, the note and the comment have been read. -/
def namedLine (l : Line) (name : Word) : AttributeLine where
  attr := {
    name := unquote name.text.toList
    type := unknownTypeName
    doc := noteText l
    extra := commentExtra l }

theorem read_name {l : Line} (h : l.words = [name]) : AttributeLine.read space l = .ok (namedLine l name) := by
  simp only [AttributeLine.read, h]
  rfl

theorem read_words {l : Line} (h : l.words = name :: word :: more) : AttributeLine.read space l =
    if (Modifier.ofWord? word.text).isSome then (namedLine l name).applyAll space (word :: more)
    else ((namedLine l name).withType word).applyAll space more := by
  simp only [AttributeLine.read, h]
  rfl

/-- The words behind the name of a written attribute, of which the type may leave nothing. -/
def behindName (e : Entity) (relations : List Relation) (r : Row) : List String :=
  (if typeWord r.attr.type r.attr.defaultValue = [] then []
    else [String.ofList (typeWord r.attr.type r.attr.defaultValue)]) ++
    modifierWords e relations r.path r.attr

/-- The modifiers among them; the type is one if it looks like one. -/
def modifiersBehind (e : Entity) (r : Row) : List Modifier :=
  modifiersIn ((if typeWord r.attr.type r.attr.defaultValue = [] then []
    else [String.ofList (typeWord r.attr.type r.attr.defaultValue)]) ++ plainWords e r.path r.attr)

/-- They are all read. -/
theorem read_behindName {l : Line} {r : Row} (h : ContainedAttribute r.attr) (hl : l.words = name :: words)
    (hwords : words.map (·.text) = behindName e relations r) :
    ∃ start references, (start = namedLine l name ∨ ∃ word, start = (namedLine l name).withType word) ∧
      AttributeLine.read {} l =
        .ok { (modifiersBehind e r).foldl AttributeLine.apply start with references } := by
  rw [behindName] at hwords
  rw [modifiersBehind]
  split at hwords
  · rename_i hnone
    rw [if_pos hnone]
    cases words with
    | nil =>
      have hplain : plainWords e r.path r.attr = [] :=
        (List.append_eq_nil_iff.mp (List.append_eq_nil_iff.mp hwords.symm).2).1
      refine ⟨_, [], .inl rfl, ?_⟩
      rw [read_name hl, List.nil_append, hplain]
      rfl
    | cons word more =>
      obtain ⟨references, hok⟩ := applyAll_modifierWords hwords (namedLine l name)
      refine ⟨_, references, .inl rfl, ?_⟩
      rw [read_words hl, if_pos (ofWord?_head_modifierWords hwords.symm)]
      exact hok
  · rename_i hsome
    rw [if_neg hsome]
    obtain ⟨word, more, rfl, hword, hmore⟩ := List.map_eq_cons_iff.mp hwords
    rw [read_words hl, List.singleton_append, modifiersIn, List.filterMap_cons, ← hword]
    cases hm : Modifier.ofWord? word.text with
    | none =>
      obtain ⟨references, hok⟩ := applyAll_modifierWords hmore ((namedLine l name).withType word)
      exact ⟨_, references, .inr ⟨word, rfl⟩, hok⟩
    | some m =>
      have hplain : m.isReference = false := by
        cases m with
        | reference c =>
          have := cardinalities?_of_reference hm
          rw [hword, h.operator] at this
          cases this
        | _ => rfl
      obtain ⟨references, hok⟩ := applyAll_modifierWords hmore ((namedLine l name).apply m)
      refine ⟨_, references, .inl rfl, ?_⟩
      rw [if_pos Option.isSome_some, AttributeLine.applyAll_cons hm hplain, hok]
      rfl

def Modifier.isKey : Modifier → Bool
  | .key _ => true
  | _ => false

/-- The group that an index modifier names. -/
def Modifier.group? : Modifier → Option (Option String × Bool)
  | .index name unique => some (name, unique)
  | _ => none

/-- What the reader has of the line of an attribute at least: its name and its part in keys and indexes. -/
structure ReadFrom (e : Entity) (r : Row) (l : AttributeLine) : Prop where
  name : l.attr.name = r.attr.name
  nested : l.attr.nested = []
  key : l.key.isSome = (modifiersBehind e r).any Modifier.isKey
  indexes : l.indexes = (modifiersBehind e r).filterMap Modifier.group?

theorem foldl_apply (ms : List Modifier) (l : AttributeLine) :
    (ms.foldl AttributeLine.apply l).attr.name = l.attr.name ∧
      (ms.foldl AttributeLine.apply l).attr.nested = l.attr.nested ∧
      (ms.foldl AttributeLine.apply l).key.isSome = (l.key.isSome || ms.any Modifier.isKey) ∧
      (ms.foldl AttributeLine.apply l).indexes = l.indexes ++ ms.filterMap Modifier.group? := by
  induction ms generalizing l with
  | nil => simp
  | cons m ms ih =>
    obtain ⟨hname, hnested, hkey, hindexes⟩ := ih (l.apply m)
    rw [List.foldl_cons, hname, hnested, hkey, hindexes]
    cases m <;> simp [AttributeLine.apply, Modifier.isKey, Modifier.group?, List.filterMap_cons]

theorem ReadFrom.withReferences (h : ReadFrom e r l) (references : List Reference) :
    ReadFrom e r { l with references } :=
  ⟨h.name, h.nested, h.key, h.indexes⟩

theorem readFrom_behindName {l : Line} {r : Row} (h : ContainedAttribute r.attr) (hl : l.words = name :: words)
    (hname : name.text = quote r.attr.name) (hwords : words.map (·.text) = behindName e relations r) :
    ∃ parsed, ReadFrom e r parsed ∧ AttributeLine.read {} l = .ok parsed := by
  obtain ⟨start, references, hstart, hread⟩ := read_behindName h hl hwords
  obtain ⟨hname', hnested, hkey, hindexes⟩ := foldl_apply (modifiersBehind e r) start
  have hstart : start.attr.name = r.attr.name ∧ start.attr.nested = [] ∧ start.key = none ∧ start.indexes = [] := by
    have hunquoted : unquote name.text.toList = r.attr.name := by rw [hname, unquote_quote]
    rcases hstart with rfl | ⟨word, rfl⟩ <;> exact ⟨hunquoted, rfl, rfl, rfl⟩
  obtain ⟨hs₁, hs₂, hs₃, hs₄⟩ := hstart
  have hfrom : ReadFrom e r ((modifiersBehind e r).foldl AttributeLine.apply start) := by
    refine ⟨hname'.trans hs₁, hnested.trans hs₂, ?_, ?_⟩
    · rw [hkey, hs₃, Option.isSome_none, Bool.false_or]
    · rw [hindexes, hs₄, List.nil_append]
  exact ⟨_, hfrom.withReferences references, hread⟩

theorem visible_attributeSentence (hname : quote r.attr.name ≠ "")
    (hmodifiers : ∀ w ∈ modifierWords e relations r.path r.attr, w ≠ "") :
    visible (attributeSentence e relations r).words = quote r.attr.name :: behindName e relations r := by
  have hall : visible (modifierWords e relations r.path r.attr) = modifierWords e relations r.path r.attr :=
    List.filter_eq_self.mpr fun w hw => by simpa using hmodifiers w hw
  have htype : visible (String.ofList (typeWord r.attr.type r.attr.defaultValue) ::
      modifierWords e relations r.path r.attr) = behindName e relations r := by
    rw [behindName]
    split
    · rename_i hnil
      rw [hnil]
      exact hall
    · rename_i hne
      rw [visible_cons fun hempty => hne (by simpa using congrArg String.toList hempty), hall]
      rfl
  rw [attributeSentence, visible_cons hname, htype]

/-- What is told of an entity when the attributes `done` have been read: `content` goes along with every line that
is read from an attribute. -/
structure Tells (content : Entity → γ) (e : Entity) (upTo : List Row → γ) : Prop where
  opened : ∀ f : Entity, f.attrs = [] → f.primaryKey = none → f.indexes = [] → content f = upTo []
  attached : ∀ done r rest, rowsIn [] e.attrs = done ++ r :: rest → ∀ f l, content f = upTo done → ReadFrom e r l →
    content (addAttribute r.parent l f) = upTo (done ++ [r])

/-- What is known of the entities when the attributes of `done` have been read. -/
def SummaryUpTo (content : Entity → γ) (upTo : List Row → γ) (id : EntityName) (entities : List (EntityName × γ))
    (parents : Parents) (done : List Row) : State → Prop :=
  Summarized content (.entity id parents) (entities ++ [(id, upTo done)])

theorem attaches_summary {content : Entity → γ} (h : ContainedEntity e) (htells : Tells content e upTo)
    (hfresh : ∀ f ∈ entities, f.1 ≠ e.id) (hrelations : ∀ r ∈ own, ContainedLink r.target) :
    Attaches Line.Follows (SummaryUpTo content upTo e.id entities) (attributeSentence e own) (rowsIn [] e.attrs) := by
  refine fun done r rest parents hrows hparent => .single fun s l hs hfollows => ?_
  have hmem : r ∈ rowsIn [] e.attrs := by simp [hrows]
  have hindent : l.indent = 2 * r.path.length := hfollows.indent
  have hpositive : l.indent ≠ 0 := by
    rw [hindent]
    simp [Row.path]
  have hwords : l.words.map (·.text) = quote r.attr.name :: behindName e own r := by
    rcases hfollows.words with hwords | ⟨hzero, -⟩
    · rw [hwords, visible_attributeSentence (unbroken_quote (h.attrs r hmem).name).ne_empty fun w hw =>
        (unbroken_modifierWords h hrelations hw).ne_empty]
    · exact absurd (hfollows.indent.trans hzero) hpositive
  obtain ⟨first, words, hl, hfirst, hbehind⟩ := List.map_eq_cons_iff.mp hwords
  obtain ⟨parsed, hfrom, hread⟩ := readFrom_behindName (h.attrs r hmem) hl hfirst hbehind
  have hpath : r.parent ++ [r.attr.name] = r.path := rfl
  rw [line_indented (by simp [hl]) hpositive, State.indented, hs.block]
  simp only [hs.space, hread, State.addAttributeLine, hindent, hparent, hfrom.name, hpath]
  refine ⟨rfl, rfl, ?_⟩
  obtain ⟨before, last, hentities, hbefore, hlast⟩ := List.map_eq_append_iff.mp hs.entities
  obtain ⟨f, rfl, hf⟩ := List.map_eq_singleton_iff.mp hlast
  have hid : f.id = e.id := congrArg Prod.fst hf
  have hother : ∀ g ∈ before, (g.id == e.id) = false := fun g hg => by
    have hmem : summary content g ∈ entities := hbefore ▸ List.mem_map_of_mem hg
    simpa [summary] using hfresh _ hmem
  have hcontent := htells.attached done r rest hrows f parsed (congrArg Prod.snd hf) hfrom
  rw [hentities, modifyFirst_append hother (by simpa using hid), List.map_append, List.map_cons, hbefore,
    List.map_nil, ← hcontent, ← hid]
  rfl

/-- The names of the attributes grow as a tree, whatever else is read. -/
theorem tells_names (e : Entity) :
    Tells (fun f => nameTrees f.attrs) e fun done => nameTrees (attachAll done []) where
  opened f hf _ _ := by simp [hf, attachAll]
  attached done r rest hrows f l hf hfrom := by
    have hnested : r.attr.nested = [] := nested_of_mem_rowsIn (by rw [hrows]; simp)
    have htree := nameTrees_attach (b := r.attr) hfrom.name (by rw [hfrom.nested, hnested]) hf r.parent
    simpa [addAttribute, attachAll] using htree

end SchemaDialects.Markup
