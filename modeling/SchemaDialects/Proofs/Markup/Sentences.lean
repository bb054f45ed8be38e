import SchemaDialects.Proofs.Markup.Rows
import SchemaDialects.Proofs.Markup.WordLaws

/-!
# The writer's lines

`documentSentences` says what stands on each line of a written schema, whatever is in its texts
(`toList_writeSchema`).
-/

namespace SchemaDialects.Markup

open Text
open Sentence (trailerChars)

-- ---------------------------------------------------------------------------
-- What stands on a line
-- ---------------------------------------------------------------------------

/-- The comment among the metadata. -/
def commentOf (extra : Json.Extra) : Option String :=
  match extra.lookup "comment" with
  | some (.str text) => some text
  | _ => none

def typeSentence (t : NamedType) : Sentence where
  words := "type" :: t.id.render :: (bodyWord t).toList.map String.ofList
  note := t.doc
  comment := commentOf t.extra

def entitySentence (e : Entity) : Sentence where
  words := [e.id.render]
  note := e.doc
  comment := commentOf e.extra

def relationSentence (r : Relation) : Sentence where
  words := ["rel", endpointText r.source, operator r, endpointText r.target]
  note := r.doc
  comment := commentOf r.extra

def keyWords (e : Entity) (path : AttributePath) : List String :=
  ((e.primaryKey.filter (·.attrs.contains path)).map fun key => "pk" ++ assigned key.name).toList

def indexesAt (e : Entity) (path : AttributePath) : List Index :=
  e.indexes.filter (·.attrs.contains path)

def checksAt (e : Entity) (path : AttributePath) : List Check :=
  e.checks.filter (·.attrs.contains path)

def relationsAt (relations : List Relation) (path : AttributePath) : List Relation :=
  relations.filter (·.source.attrs == [path])

/-- The name by which the attributes of an index find together. -/
def indexName (e : Entity) (i : Index) : Option String :=
  groupName e i.name i.attrs (if i.unique then "unique" else "index")

def checkName (e : Entity) (c : Check) : Option String := groupName e c.name c.attrs "check"

/-- The words behind the type of an attribute, without those of the relations. -/
def plainWords (e : Entity) (path : AttributePath) (attr : Attribute) : List String :=
  keyWords e path ++ ((if attr.nullable then ["nullable"] else []) ++
    ((if attr.generated then ["generated"] else []) ++
      ((indexesAt e path).map (fun i => indexWord (indexName e i, i.unique)) ++
        (checksAt e path).map (fun c => checkWord (checkName e c, c.predicate)))))

def modifierWords (e : Entity) (relations : List Relation) (path : AttributePath) (attr : Attribute) :
    List String :=
  plainWords e path attr ++
    (relationsAt relations path).flatMap fun r => [operator r, endpointText r.target]

def attributeSentence (e : Entity) (relations : List Relation) (r : Row) : Sentence where
  indent := 2 * r.path.length
  words := quote r.attr.name :: String.ofList (typeWord r.attr.type r.attr.defaultValue) ::
    modifierWords e relations r.path r.attr
  note := r.attr.doc
  comment := commentOf r.attr.extra

-- ---------------------------------------------------------------------------
-- Lines
-- ---------------------------------------------------------------------------

theorem toList_trailer (doc : Option String) (extra : Json.Extra) :
    (trailer doc extra).toList = trailerChars doc (commentOf extra) ++ ['\n'] := by
  unfold trailer commentOf trailerChars
  cases doc <;> cases extra.lookup "comment" with
  | none => simp
  | some value => cases value <;> simp

/-- A line with its line feed. -/
def Sentence.full (t : Sentence) : List Char := t.chars ++ ['\n']

theorem Sentence.chars_eq {t : Sentence} (hwords : t.words = w :: ws) : t.chars =
    List.replicate t.indent ' ' ++ (w.toList ++ (ws.map String.toList).flatMap (' ' :: ·)) ++
      trailerChars t.note t.comment := by
  simp [chars, hwords, intercalate_cons_flatMap]

theorem Sentence.full_eq {t : Sentence} (hwords : t.words = w :: ws) : t.full =
    List.replicate t.indent ' ' ++ (w.toList ++ ((ws.map String.toList).flatMap (' ' :: ·) ++
      (trailerChars t.note t.comment ++ ['\n']))) := by
  simp [full, chars_eq hwords]

theorem toList_typeLine (t : NamedType) : (typeLine t).toList = (typeSentence t).full := by
  rw [Sentence.full_eq rfl]
  obtain ⟨space, name, values, definition, doc, extra⟩ := t
  cases values with
  | some values =>
    simp [typeLine, typeSentence, bodyWord, toList_trailer, String.toList_intercalate,
      Function.comp_def]
  | none =>
    cases definition <;> simp [typeLine, typeSentence, bodyWord, toList_trailer]

theorem toList_entityLine (e : Entity) :
    (e.id.render ++ trailer e.doc e.extra).toList = (entitySentence e).full := by
  rw [Sentence.full_eq rfl, String.toList_append, toList_trailer]
  simp [entitySentence]

theorem toList_relationLine (r : Relation) :
    (relationLine r).toList = (relationSentence r).full := by
  rw [Sentence.full_eq rfl]
  simp [relationLine, toList_trailer, relationSentence]

theorem indexText_eq (e : Entity) (i : Index) :
    indexText e i = " " ++ indexWord (indexName e i, i.unique) := by
  rw [indexText, indexName]
  cases i.unique <;> simp only [indexWord, ← String.append_assoc] <;> rfl

theorem checkText_eq (e : Entity) (c : Check) :
    checkText e c = " " ++ checkWord (checkName e c, c.predicate) := by
  rw [checkText, checkWord, predicateText, checkName]
  simp only [String.append_assoc]
  rfl

theorem toList_keyText (e : Entity) (path : AttributePath) :
    (keyText e path).toList = ((keyWords e path).map String.toList).flatMap (' ' :: ·) := by
  unfold keyText keyWords
  cases e.primaryKey with
  | none => rfl
  | some key => by_cases h : path ∈ key.attrs <;> simp [h, Option.filter]

theorem toList_modifiers (e : Entity) (relations : List Relation) (path : AttributePath)
    (attr : Attribute) :
    (keyText e path ++ (if attr.nullable then " nullable" else "") ++
      (if attr.generated then " generated" else "") ++
      String.join ((indexesAt e path).map (indexText e)) ++
      String.join ((checksAt e path).map (checkText e)) ++
      String.join ((relationsAt relations path).map fun r =>
        " " ++ operator r ++ " " ++ endpointText r.target)).toList =
      ((modifierWords e relations path attr).map String.toList).flatMap (' ' :: ·) := by
  have hindexes : (indexesAt e path).map (indexText e) =
      (indexesAt e path).map fun i => " " ++ indexWord (indexName e i, i.unique) :=
    List.map_congr_left fun i _ => indexText_eq e i
  have hchecks : (checksAt e path).map (checkText e) =
      (checksAt e path).map fun c => " " ++ checkWord (checkName e c, c.predicate) :=
    List.map_congr_left fun c _ => checkText_eq e c
  rw [hindexes, hchecks]
  have hnullable : (if attr.nullable then " nullable" else "").toList =
      ((if attr.nullable then ["nullable"] else []).map String.toList).flatMap (' ' :: ·) := by
    cases attr.nullable <;> simp
  have hgenerated : (if attr.generated then " generated" else "").toList =
      ((if attr.generated then ["generated"] else []).map String.toList).flatMap (' ' :: ·) := by
    cases attr.generated <;> simp
  simp only [modifierWords, plainWords, List.map_append, List.flatMap_append, String.toList_append,
    toList_keyText, hnullable, hgenerated, String.toList_join, List.append_assoc]
  simp [List.flatMap_map, List.map_flatMap, List.flatMap_assoc]

theorem toList_attributeLine (e : Entity) (relations : List Relation) (r : Row) :
    (indentation r.path.length ++ attributeText e relations r.path r.attr).toList =
      (attributeSentence e relations r).full := by
  rw [Sentence.full_eq rfl]
  have hmodifiers := toList_modifiers e relations r.path r.attr
  simp only [attributeSentence, List.map_cons, List.flatMap_cons, ← hmodifiers]
  simp only [attributeText, indentation, typeWord, toList_trailer, String.toList_append,
    String.toList_ofList, List.cons_append, List.append_assoc]
  rfl

-- ---------------------------------------------------------------------------
-- The whole document
-- ---------------------------------------------------------------------------

/-- The relations that are written at the attributes of an entity. -/
def ownRelations (db : Database) (e : Entity) : List Relation :=
  (db.relations.filter (isAtAttribute db)).filter (·.source.entity == e.id)

def standaloneRelations (db : Database) : List Relation :=
  db.relations.filter (!isAtAttribute db ·)

def entityBlock (db : Database) (e : Entity) : List Sentence :=
  entitySentence e :: (rowsIn [] e.attrs).map (attributeSentence e (ownRelations db e))

/-- A block, unless it would be empty. -/
def unlessEmpty (block : List α) : List (List α) := if block = [] then [] else [block]

/-- The blocks between which there are empty lines. -/
def blocks (db : Database) : List (List Sentence) :=
  unlessEmpty (db.types.map typeSentence) ++ (db.entities.map (entityBlock db) ++
    unlessEmpty ((standaloneRelations db).map relationSentence))

def documentSentences (db : Database) : List Sentence := [Sentence.empty].intercalate (blocks db)

theorem mem_ownRelations (h : r ∈ ownRelations db e) :
    r ∈ db.relations ∧ isAtAttribute db r = true ∧ r.source.entity = e.id := by
  obtain ⟨h, hentity⟩ := List.mem_filter.mp h
  obtain ⟨hr, hat⟩ := List.mem_filter.mp h
  exact ⟨hr, hat, by simpa using hentity⟩

theorem mem_unlessEmpty {block : List α} (h : b ∈ unlessEmpty block) : b = block := by
  unfold unlessEmpty at h
  split at h
  · cases h
  · exact List.mem_singleton.mp h

/-- What holds of the line of each type, entity, attribute and relation, and of an empty line, holds of
every line of the document. -/
theorem forall_documentSentences {P : Sentence → Prop} (hempty : P .empty)
    (htypes : ∀ t ∈ db.types, P (typeSentence t)) (hentities : ∀ e ∈ db.entities, P (entitySentence e))
    (hattrs : ∀ e ∈ db.entities, ∀ r ∈ rowsIn [] e.attrs, P (attributeSentence e (ownRelations db e) r))
    (hrelations : ∀ r ∈ db.relations, P (relationSentence r)) : ∀ t ∈ documentSentences db, P t := by
  have hblocks : ∀ block ∈ blocks db, ∀ t ∈ block, P t := by
    intro block hblock t ht
    simp only [blocks, List.mem_append] at hblock
    obtain hblock | hblock | hblock := hblock
    · obtain rfl := mem_unlessEmpty hblock
      obtain ⟨type, htype, rfl⟩ := List.mem_map.mp ht
      exact htypes type htype
    · obtain ⟨e, he, rfl⟩ := List.mem_map.mp hblock
      rcases List.mem_cons.mp ht with rfl | ht
      · exact hentities e he
      · obtain ⟨r, hr, rfl⟩ := List.mem_map.mp ht
        exact hattrs e he r hr
    · obtain rfl := mem_unlessEmpty hblock
      obtain ⟨r, hr, rfl⟩ := List.mem_map.mp ht
      exact hrelations r (List.mem_of_mem_filter hr)
  intro t ht
  rcases mem_intercalate ht with ht | ⟨block, hblock, ht⟩
  · obtain rfl := List.mem_singleton.mp ht
    exact hempty
  · exact hblocks block hblock t ht

def fullText (ts : List Sentence) : List Char := ts.flatMap Sentence.full

theorem fullText_intercalate (blocks : List (List Sentence)) :
    fullText ([Sentence.empty].intercalate blocks) = ['\n'].intercalate (blocks.map fullText) := by
  induction blocks with
  | nil => rfl
  | cons block rest ih =>
    cases rest with
    | nil => simp
    | cons next rest =>
      rw [List.intercalate_cons_cons, List.map_cons, List.map_cons, List.intercalate_cons_cons,
        ← List.map_cons, ← ih, fullText, fullText, fullText, List.flatMap_append,
        List.flatMap_append]
      rfl

theorem toList_entityText (db : Database) (e : Entity) : (entityText e (ownRelations db e)).toList =
    fullText (entityBlock db e) := by
  have hlines : (attributesLines e (ownRelations db e) [] e.attrs).flatMap String.toList =
      fullText ((rowsIn [] e.attrs).map (attributeSentence e (ownRelations db e))) := by
    rw [attributesLines_eq, fullText, List.flatMap_map, List.flatMap_map]
    exact List.flatMap_congr fun r _ => toList_attributeLine e (ownRelations db e) r
  rw [entityText, String.toList_append, toList_entityLine, String.toList_join, hlines]
  rfl

theorem toList_section {line : α → String} {sentence : α → Sentence}
    (h : ∀ a, (line a).toList = (sentence a).full) (items : List α) :
    (if (items.map line).isEmpty then [] else [String.join (items.map line)]).map String.toList =
      (unlessEmpty (items.map sentence)).map fullText := by
  cases items with
  | nil => rfl
  | cons a items =>
    have hjoin : (String.join ((a :: items).map line)).toList = fullText ((a :: items).map sentence) := by
      rw [String.toList_join, fullText, List.flatMap_map, List.flatMap_map]
      exact List.flatMap_congr fun a _ => h a
    simpa [unlessEmpty] using hjoin

theorem toList_writeSchema (db : Database) :
    (writeSchema db).toList = fullText (documentSentences db) := by
  have hentities : (db.entities.map fun e => entityText e (ownRelations db e)).map String.toList =
      (db.entities.map (entityBlock db)).map fullText := by
    rw [List.map_map, List.map_map]
    exact List.map_congr_left fun e _ => toList_entityText db e
  rw [documentSentences, fullText_intercalate, blocks, List.map_append, List.map_append,
    ← hentities, ← toList_section toList_typeLine, ← toList_section toList_relationLine,
    ← List.map_append, ← List.map_append]
  rw [writeSchema, String.toList_intercalate]
  simp only [List.partition_eq_filter_filter, List.append_assoc]
  rfl

end SchemaDialects.Markup
