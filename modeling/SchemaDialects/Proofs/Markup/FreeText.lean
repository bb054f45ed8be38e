import SchemaDialects.Proofs.Markup.Documents
import SchemaDialects.Proofs.Markup.Outline

/-!
# Free text between names

A note or a comment takes the rest of its line, so nothing in it is read as a word; a carriage return at
the end of a line is dropped, but no word ends in one. Each line of a contained schema therefore has the
words that the writer put there (`follows_documentSentences`), and the schema keeps its outline
(`outline_readSchema_writeSchema`). One whose texts are not contained need not (`outline_broken`).
-/

namespace SchemaDialects.Markup

open Text
open Sentence (trailerChars)

-- ---------------------------------------------------------------------------
-- The words of a line
-- ---------------------------------------------------------------------------

theorem ending_trailerChars (note comment : Option String) : Ending (trailerChars note comment) := by
  cases note with
  | some text => exact .inr ⟨'|', by simp, _, rfl⟩
  | none =>
    cases comment with
    | some text => exact .inr ⟨'#', by simp, _, rfl⟩
    | none => exact .inl rfl

/-- What the reader has of the line `body ++ tail`. -/
theorem content_append {body : List Char} (h : body.getLast? ≠ some '\r') (tail : List Char) :
    ∃ rest, (dropTail? ['\r'] (body ++ tail)).getD (body ++ tail) = body ++ rest ∧
      (tail = rest ∨ tail = rest ++ ['\r']) := by
  cases hdrop : dropTail? ['\r'] (body ++ tail) with
  | none => exact ⟨tail, rfl, .inl rfl⟩
  | some content =>
    have heq := dropTail?_eq_some.mp hdrop
    have hlast : (body ++ tail).getLast? = some '\r' := by rw [heq]; simp
    have hne : tail ≠ [] := by
      rintro rfl
      exact h (by simpa using hlast)
    rw [List.getLast?_append_of_ne_nil _ hne] at hlast
    obtain ⟨rest, rfl⟩ := List.getLast?_eq_some_iff.mp hlast
    refine ⟨rest, ?_, .inr rfl⟩
    rw [← List.append_assoc] at heq
    exact (List.append_cancel_right heq).symm

theorem Ending.shortened (h : Ending tail) (htail : tail = rest ∨ tail = rest ++ ['\r']) : Ending rest := by
  rcases htail with rfl | rfl
  · exact h
  · rcases h with hnil | ⟨mark, hmark, more, heq⟩
    · simp at hnil
    · cases rest with
      | nil => cases heq
      | cons c rest =>
        obtain ⟨rfl, hmore⟩ := List.cons.inj heq
        cases rest with
        | nil =>
          obtain ⟨rfl, -⟩ := List.cons.inj hmore
          exact absurd hmark (by decide)
        | cons d rest =>
          obtain ⟨rfl, -⟩ := List.cons.inj hmore
          exact .inr ⟨_, hmark, rest, rfl⟩

theorem WordEnd.shortened (h : WordEnd tail) (htail : tail = rest ∨ tail = rest ++ ['\r']) : WordEnd rest := by
  rcases htail with rfl | rfl
  · exact h
  · rcases h with hnil | ⟨more, heq⟩
    · simp at hnil
    · cases rest with
      | nil => cases heq
      | cons c rest =>
        obtain ⟨rfl, -⟩ := List.cons.inj heq
        exact .inr ⟨rest, rfl⟩

variable {first : String} {words : List String} {n : Nat}

theorem reads_visible (h : ∀ w ∈ words, w = "" ∨ Unbroken w.toList) (hend : WordEnd cs)
    (hcs : Reads cs [] note comment) :
    Reads ((words.map String.toList).flatMap (' ' :: ·) ++ cs) (visible words) note comment := by
  induction words with
  | nil => exact hcs
  | cons w words ih =>
    have ih := ih fun v hv => h v (List.mem_cons_of_mem _ hv)
    have hrest : WordEnd ((words.map String.toList).flatMap (' ' :: ·) ++ cs) := by
      cases words with
      | nil => exact hend
      | cons v words => exact .inr ⟨_, rfl⟩
    rw [List.map_cons, List.flatMap_cons, List.append_assoc]
    rcases h w List.mem_cons_self with rfl | hw
    · exact ih.space
    · rw [visible_cons hw.ne_empty]
      exact (ih.word hw hrest).space

theorem last_spaced (h : ∀ w ∈ words, w = "" ∨ Unbroken w.toList) :
    ∀ c ∈ ((words.map String.toList).flatMap (' ' :: ·)).getLast?, c ≠ '\r' := by
  induction words with
  | nil => simp
  | cons w words ih =>
    rw [List.map_cons, List.flatMap_cons]
    refine last_append ?_ (ih fun v hv => h v (List.mem_cons_of_mem _ hv))
    rintro c hc rfl
    rcases h w List.mem_cons_self with rfl | hw
    · simp at hc
    · rw [List.getLast?_cons_of_ne_nil hw.solid.ne_nil] at hc
      cases hw.last _ hc

theorem last_words (hfirst : Unbroken first.toList) (h : ∀ w ∈ words, w = "" ∨ Unbroken w.toList) :
    (List.replicate n ' ' ++ (first.toList ++ (words.map String.toList).flatMap (' ' :: ·))).getLast? ≠
      some '\r' := by
  intro hlast
  rw [List.getLast?_append_of_ne_nil _ (by simp [hfirst.solid.ne_nil])] at hlast
  refine last_append (P := (· ≠ '\r')) ?_ (last_spaced h) '\r' hlast rfl
  rintro c hc rfl
  cases hfirst.last _ hc

theorem indentWidth_words (hfirst : Unbroken first.toList) :
    indentWidth (List.replicate n ' ' ++ (first.toList ++ rest)) = n := by
  refine indentWidth_replicate fun c hc => isSpacing_of_not_isBlank ?_
  rw [List.head?_append_of_ne_nil _ hfirst.solid.ne_nil] at hc
  exact hfirst.solid.head c hc

/-- A line of words that can be empty, with whatever note and comment. -/
theorem follows_of_words {t : Sentence} (hwords : t.words = first :: rest) (hfirst : Unbroken first.toList)
    (hrest : ∀ w ∈ rest, w = "" ∨ Unbroken w.toList) (place : Place) :
    (readLine place t.chars).1.Follows t := by
  obtain ⟨tail, hcontent, htail⟩ := content_append (last_words (n := t.indent) hfirst hrest)
    (trailerChars t.note t.comment)
  have hending := (ending_trailerChars t.note t.comment).shortened htail
  obtain ⟨note, comment, hreads⟩ := hending.reads
  have hreads := reads_visible hrest hending.wordEnd hreads
  have hwordEnd : WordEnd ((rest.map String.toList).flatMap (' ' :: ·) ++ tail) := by
    cases rest with
    | nil => exact hending.wordEnd
    | cons v words => exact .inr ⟨_, rfl⟩
  have hreads := (hreads.word hfirst hwordEnd).spaces (k := t.indent)
  rw [← List.append_assoc, ← List.append_assoc, List.append_assoc (List.replicate _ _)] at hreads
  rw [readLine, Sentence.chars_eq hwords, hcontent]
  refine ⟨?_, .inl ?_, fun hnil => ?_⟩
  · rw [List.append_assoc, List.append_assoc]
    exact indentWidth_words hfirst
  · rw [hwords, visible_cons hfirst.ne_empty]
    exact hreads.words place
  · rw [hwords] at hnil
    cases hnil

theorem follows_empty (place : Place) : (readLine place Sentence.empty.chars).1.Follows Sentence.empty := by
  obtain ⟨hsaid, -⟩ := readLine_chars readable_empty place
  exact ⟨hsaid.indent, .inl hsaid.words, fun _ => hsaid.isBlank⟩

/-- What stands behind a word does not change it. -/
theorem words_cons (hw : Unbroken w.toList) (hend : WordEnd cs) (place : Place) : ∃ next,
    (assemble place (tiles cut (w.toList ++ cs))).1.words.map (·.text) =
      w :: (assemble next (tiles cut cs)).1.words.map (·.text) := by
  refine ⟨place.afterAll w.toList, ?_⟩
  rw [tiles_word hw hend, assemble]
  simp [Word.between]

theorem words_space (cs : List Char) (place : Place) : ∃ next,
    (assemble place (tiles cut (' ' :: cs))).1.words = (assemble next (tiles cut cs)).1.words := by
  have htiles : tiles cut (' ' :: cs) = (.spacing, [' ']) :: tiles cut cs := by
    rw [tiles]
    rfl
  exact ⟨place.afterAll [' '], by rw [htiles, assemble]⟩

/-- Of a type the line has at least its name, wherever its definition ends. -/
theorem follows_typeSentence {t : NamedType} (h : ContainedNamedType t) (place : Place) :
    (readLine place (typeSentence t).chars).1.Follows (typeSentence t) := by
  have htype : Unbroken "type".toList := unbroken_keyword (by decide) (forall_chars (by decide))
  have hname : Unbroken t.id.render.toList := unbroken_named h.space h.name
  let head := "type".toList ++ ' ' :: t.id.render.toList
  let tail := (((bodyWord t).toList.map String.ofList).map String.toList).flatMap (' ' :: ·) ++
    trailerChars t.doc (commentOf t.extra)
  have hchars : (typeSentence t).chars = head ++ tail := by
    rw [Sentence.chars_eq (w := "type") rfl]
    simp [typeSentence, head, tail]
  have hlast : head.getLast? ≠ some '\r' := fun hlast => by
    rw [List.getLast?_append_of_ne_nil _ (by simp),
      List.getLast?_cons_of_ne_nil hname.solid.ne_nil] at hlast
    cases hname.last _ hlast
  have hend : WordEnd tail := by
    cases hbody : bodyWord t with
    | none => simpa [tail, hbody] using (ending_trailerChars t.doc (commentOf t.extra)).wordEnd
    | some cs => exact .inr ⟨_, by simp only [tail, hbody]; rfl⟩
  obtain ⟨rest, hcontent, hrest⟩ := content_append hlast tail
  have hsplit : head ++ rest = "type".toList ++ (' ' :: (t.id.render.toList ++ rest)) := by simp [head]
  obtain ⟨next, hfirst⟩ := words_cons htype (.inr ⟨t.id.render.toList ++ rest, rfl⟩) place
  obtain ⟨after, hspace⟩ := words_space (t.id.render.toList ++ rest) next
  obtain ⟨final, hsecond⟩ := words_cons hname (hend.shortened hrest) after
  rw [readLine, hchars, hcontent]
  refine ⟨?_, .inr ⟨rfl, t.id.render, (assemble final (tiles cut rest)).1.words.map (·.text), _, rfl, ?_⟩,
    fun hnil => ?_⟩
  · show indentWidth (head ++ rest) = 0
    rw [hsplit]
    rfl
  · show (assemble place (tiles cut (head ++ rest))).1.words.map (·.text) = _
    rw [hsplit, hfirst, hspace, hsecond]
  · cases hnil

-- ---------------------------------------------------------------------------
-- The lines of a contained schema
-- ---------------------------------------------------------------------------

theorem follows_documentSentences (h : Contained db) :
    ∀ t ∈ documentSentences db, ∀ place, (readLine place t.chars).1.Follows t := by
  refine forall_documentSentences follows_empty (fun t ht => follows_typeSentence (h.type t ht))
    (fun e he => ?_) (fun e he r hr => ?_) fun r hr => ?_
  · exact follows_of_words rfl (unbroken_named (h.entity e he).space (h.entity e he).name) (by simp)
  · have hattr := (h.entity e he).attrs r hr
    have htarget : ∀ q ∈ ownRelations db e, ContainedLink q.target := fun q hq =>
      (h.relation q (mem_ownRelations hq).1).target
    refine follows_of_words rfl (unbroken_quote hattr.name) fun w hw => ?_
    rcases List.mem_cons.mp hw with rfl | hw
    · by_cases hnil : typeWord r.attr.type r.attr.defaultValue = []
      · exact .inl (by rw [hnil])
      · exact .inr (by simpa using unbroken_typeWord hnil hattr.word)
    · exact .inr (unbroken_modifierWords (h.entity e he) htarget hw)
  · have hrelation := h.relation r hr
    refine follows_of_words rfl (unbroken_keyword (by decide) (forall_chars (by decide))) fun w hw => .inr ?_
    simp only [List.mem_cons, List.not_mem_nil, or_false] at hw
    obtain rfl | rfl | rfl := hw
    · exact unbroken_endpointText hrelation.source
    · exact unbroken_operator r
    · exact unbroken_endpointText hrelation.target

theorem feedFree_bodyWord (h : ContainedNamedType t) (hcs : cs ∈ bodyWord t) : '\n' ∉ cs := by
  obtain ⟨space, name, values, definition, doc, extra⟩ := t
  cases values with
  | some values =>
    obtain rfl := Option.mem_some_iff.mp hcs
    exact (unbroken_values (h.values values rfl)).feedFree
  | none =>
    cases definition with
    | some definition =>
      obtain rfl := Option.mem_some_iff.mp hcs
      have := h.definition definition rfl
      simp_all [FeedFree]
    | none => cases hcs

theorem feedFree_documentSentences (h : Contained db) : ∀ t ∈ documentSentences db, '\n' ∉ t.chars := by
  refine forall_documentSentences (by simp [Sentence.empty, Sentence.chars, trailerChars])
    (fun t ht => ?_) (fun e he => ?_) (fun e he r hr => ?_) fun r hr => ?_
  · have htype := h.type t ht
    refine Sentence.feedFree_chars (fun w hw => ?_) htype.trailer.doc htype.trailer.comment
    simp only [typeSentence, List.mem_cons, List.mem_map, Option.mem_toList] at hw
    obtain rfl | rfl | ⟨cs, hcs, rfl⟩ := hw
    · decide
    · exact (unbroken_named htype.space htype.name).feedFree
    · simpa using feedFree_bodyWord htype hcs
  · have hentity := h.entity e he
    refine Sentence.feedFree_chars (fun w hw => ?_) hentity.trailer.doc hentity.trailer.comment
    obtain rfl := List.mem_singleton.mp hw
    exact (unbroken_named hentity.space hentity.name).feedFree
  · have hattr := (h.entity e he).attrs r hr
    have htarget : ∀ q ∈ ownRelations db e, ContainedLink q.target := fun q hq =>
      (h.relation q (mem_ownRelations hq).1).target
    refine Sentence.feedFree_chars (fun w hw => ?_) hattr.trailer.doc hattr.trailer.comment
    simp only [attributeSentence, List.mem_cons] at hw
    obtain rfl | rfl | hw := hw
    · exact (unbroken_quote hattr.name).feedFree
    · exact hattr.word.feedFree
    · exact (unbroken_modifierWords (h.entity e he) htarget hw).feedFree
  · have hrelation := h.relation r hr
    refine Sentence.feedFree_chars (fun w hw => ?_) hrelation.trailer.doc hrelation.trailer.comment
    simp only [relationSentence, List.mem_cons, List.not_mem_nil, or_false] at hw
    obtain rfl | rfl | rfl | rfl := hw
    · decide
    · exact (unbroken_endpointText hrelation.source).feedFree
    · exact (unbroken_operator r).feedFree
    · exact (unbroken_endpointText hrelation.target).feedFree

-- ---------------------------------------------------------------------------
-- The entities of the document
-- ---------------------------------------------------------------------------

section Entities

variable {content : Entity → γ} {entities : List (EntityName × γ)}

theorem summarized_types {types : List NamedType} (h : ∀ t ∈ types, ContainedNamedType t) :
    LeadsBy Line.Follows (types.map typeSentence) (Summarized content .closed entities)
      (Summarized content .closed entities) := by
  induction types with
  | nil => exact .nil
  | cons t types ih =>
    have ht := h t List.mem_cons_self
    exact (summarized_type t (unbroken_named ht.space ht.name).ne_empty).append
      (ih fun u hu => h u (List.mem_cons_of_mem _ hu))

theorem summarized_relations {relations : List Relation} (h : ∀ r ∈ relations, ContainedRelation r) :
    LeadsBy Line.Follows (relations.map relationSentence) (Summarized content .closed entities)
      (Summarized content .closed entities) := by
  induction relations with
  | nil => exact .nil
  | cons r relations ih =>
    exact (summarized_relation r (unbroken_endpointText (h r List.mem_cons_self).source).ne_empty).append
      (ih fun q hq => h q (List.mem_cons_of_mem _ hq))

theorem summarized_entityBlock (h : ContainedEntity e) (htells : Tells content e upTo)
    (hfresh : ∀ f ∈ entities, f.1 ≠ e.id) (hrelations : ∀ r ∈ ownRelations db e, ContainedLink r.target) :
    LeadsBy Line.Follows (entityBlock db e ++ [Sentence.empty]) (Summarized content .closed entities)
      (Summarized content .closed (entities ++ [(e.id, upTo (rowsIn [] e.attrs))])) := by
  have hname : e.id.render ≠ "" := (unbroken_named h.space h.name).ne_empty
  have hrows := leads_allRows (attaches_summary h htells hfresh hrelations)
  have hblock := (summarized_entity h hname hfresh htells.opened).append (hrows.imp (fun s hs => hs) fun s hs => hs)
  refine hblock.append ?_
  rintro s lines ⟨parents, hs⟩ hlines
  exact summarized_empty s lines hs hlines

theorem summarized_entities {upTo : Entity → List Row → γ} (h : Contained db)
    (htells : ∀ e ∈ db.entities, Tells content e (upTo e)) {done rest : List Entity}
    (hsplit : db.entities = done ++ rest) :
    LeadsBy Line.Follows ((rest.map (entityBlock db)).flatMap (· ++ [Sentence.empty]))
      (Summarized content .closed (done.map fun e => (e.id, upTo e (rowsIn [] e.attrs))))
      (Summarized content .closed (db.entities.map fun e => (e.id, upTo e (rowsIn [] e.attrs)))) := by
  induction rest generalizing done with
  | nil => simpa [hsplit] using LeadsBy.nil
  | cons e rest ih =>
    have he : e ∈ db.entities := by simp [hsplit]
    have hfresh : ∀ f ∈ done.map fun e => (e.id, upTo e (rowsIn [] e.attrs)), f.1 ≠ e.id := by
      intro f hf
      obtain ⟨g, hg, rfl⟩ := List.mem_map.mp hf
      have hnodup := h.entities
      rw [hsplit, List.map_append, List.nodup_append] at hnodup
      exact hnodup.2.2 g.id (List.mem_map_of_mem hg) e.id (by simp)
    have htargets : ∀ r ∈ ownRelations db e, ContainedLink r.target := fun r hr =>
      (h.relation r (mem_ownRelations hr).1).target
    have hfirst := summarized_entityBlock (h.entity e he) (htells e he) hfresh htargets
    have hnext := @ih (done ++ [e]) (by simpa using hsplit)
    rw [List.map_append, List.map_singleton] at hnext
    simpa using hfirst.append hnext

/-- What is told of the entities of a contained schema is found again in what is read from its text. -/
theorem summary_readSchema_writeSchema {upTo : Entity → List Row → γ} (h : Contained db)
    (htells : ∀ e ∈ db.entities, Tells content e (upTo e)) :
    ∃ db', (readSchema (writeSchema db)).value = some db' ∧
      db'.entities.map (summary content) = db.entities.map fun e => (e.id, upTo e (rowsIn [] e.attrs)) := by
  have hlines : List.Forall₂ Line.Follows (readLines (writeSchema db)).1
      (documentSentences db ++ [Sentence.empty]) := by
    refine readLines_forall₂ (feedFree_documentSentences h) (toList_writeSchema db) fun t ht place => ?_
    rcases List.mem_append.mp ht with ht | ht
    · exact follows_documentSentences h t ht place
    · obtain rfl := List.mem_singleton.mp ht
      exact follows_empty place
  have hdocument := leads_blocks (summarized_types h.type) summarized_empty
    (summarized_entities h htells (List.nil_append _).symm)
    (summarized_relations fun r hr => h.relation r (List.mem_of_mem_filter hr)) summarized_empty
  have hend := hdocument { diagnostics := (readLines (writeSchema db)).2 } _ ⟨rfl, rfl, rfl⟩ hlines
  exact ⟨_, rfl, hend.entities⟩

end Entities

/-- Whatever stands in the notes, comments, types, defaults, predicates and values of a contained schema, its
text is read with the same entities and the same attributes in them. -/
theorem outline_readSchema_writeSchema (h : Contained db) :
    ∃ db', (readSchema (writeSchema db)).value = some db' ∧
      db'.entities.map outline = db.entities.map outline := by
  obtain ⟨db', hvalue, hentities⟩ := summary_readSchema_writeSchema h fun e _ => tells_names e
  have hnames : ∀ e ∈ db.entities, (e.id, nameTrees (attachAll (rowsIn [] e.attrs) [])) = outline e := by
    intro e he
    rw [attachAll_rows (h.entity e he).distinct (by simp), List.nil_append, outline]
  exact ⟨db', hvalue, hentities.trans (List.map_congr_left hnames)⟩

-- ---------------------------------------------------------------------------
-- Schemas with marks of the language in their texts
-- ---------------------------------------------------------------------------

/-- A log whose texts look like notes, comments, modifiers and lines of their own. -/
def log : Entity where
  name := "log"
  attrs := [
    { name := "entry", type := "pk", doc := some " # int nullable\r", extra := [("comment", .str "a | \"b")] },
    { name := "mood", type := "enum('a','b')", defaultValue := some "a | b # c",
      nested := [{ name := "of day", type := "", nullable := true }] }]
  checks := [{ attrs := [["mood"]], predicate := "mood <> ')'" }]
  doc := some "rel log(mood) -> log(mood)"

def logs : Database where
  entities := [log]
  types := [{ name := "mood", definition := some "a ` b | c" }]

theorem contained_log : ContainedEntity log where
  space := by decide
  name := by decide
  noDirective := by decide +kernel
  attrs := by
    simp only [log, rowsIn, List.append_nil, List.cons_append, List.nil_append, List.forall_mem_cons]
    exact ⟨by decide +kernel, by decide +kernel, by decide +kernel, by simp⟩
  distinct := by simp [log, pathsOf_cons]
  key := by simp [log]
  index := by simp [log]
  check := by simp [log, checkName, groupName]
  predicate := by decide
  trailer := by decide

theorem contained_logs : Contained logs where
  entity := by simpa [logs] using contained_log
  entities := by decide
  type := by decide
  relation := by simp [logs]

theorem outline_readSchema_writeSchema_sample : Contained logs ∧
    ∃ db', (readSchema (writeSchema logs)).value = some db' ∧
      db'.entities.map outline = logs.entities.map outline :=
  ⟨contained_logs, outline_readSchema_writeSchema contained_logs⟩

/-- An entity with one attribute and a note of two lines, of which the second looks like an attribute. -/
def annotated : Database where
  entities := [{ name := "users", attrs := [{ name := "id", type := "int" }], doc := some "People\n  age int" }]

/-- Without a bound on its texts a schema need not keep its outline: the second line of this note is read as
an attribute. -/
theorem outline_broken : (annotated.entities.map Entity.id).Nodup ∧
    (∀ e ∈ annotated.entities, (pathsOf e.attrs).Nodup) ∧
    ¬ ∃ db', (readSchema (writeSchema annotated)).value = some db' ∧
      db'.entities.map outline = annotated.entities.map outline := by
  refine ⟨by decide, by simp [annotated, pathsOf_cons], ?_⟩
  rintro ⟨db', hvalue, houtline⟩
  have hread : (readSchema (writeSchema annotated)).value.map
      (fun db => db.entities.map fun e => (nameTrees e.attrs).length) = some [2] := by decide +kernel
  have hkept : db'.entities.map (fun e => (nameTrees e.attrs).length) = [1] := by
    have := congrArg (List.map fun o => o.2.length) houtline
    rw [List.map_map, List.map_map] at this
    exact this.trans (by decide)
  rw [hvalue, Option.map_some, hkept] at hread
  exact absurd (Option.some.inj hread) (by decide)

end SchemaDialects.Markup
