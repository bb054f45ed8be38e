import SchemaDialects.Proofs.Markup.Documents
import SchemaDialects.Proofs.Markup.Settled

/-!
# Markup written once more

The writer names a constraint at each of its attributes and a relation at its place, so that repetitions in a
constraint and the order of the relations do not show in its text (`writeSchema_tidiedDatabase`,
`writeSchema_relationsInLines`). Hence the text of a settled schema is written again when it is read
(`writeSchema_readSchema_stable`). That of a schema which is not settled need not be
(`writeSchema_readSchema_unsettled`).
-/

namespace SchemaDialects.Markup

open Text

theorem writeSchema_congr (h : documentSentences db = documentSentences db') :
    writeSchema db = writeSchema db' :=
  String.toList_injective (by rw [toList_writeSchema, toList_writeSchema, h])

-- ---------------------------------------------------------------------------
-- Repetitions
-- ---------------------------------------------------------------------------

theorem groupName_tidied (hname : 1 < attrs.length → name.isSome) (hle : attrs'.length ≤ attrs.length) :
    groupName (tidied e) name attrs' suffix = groupName e name attrs suffix := by
  cases name with
  | some name => rfl
  | none =>
    have hshort : attrs.length ≤ 1 := by simpa using hname
    rw [groupName, groupName, if_pos hshort, if_pos (hle.trans hshort)]

/-- The words of the items at an attribute, if no item changes its word. -/
theorem map_filter_tidy {G : Grouping α} {paths : List AttributePath} {items : List α} {word word' : α → String}
    (h : ∀ item ∈ items, G.attrs item ⊆ paths) (hword : ∀ item ∈ items, word' (G.tidy paths item) = word item)
    (path : AttributePath) :
    ((items.map (G.tidy paths)).filter fun item => (G.attrs item).contains path).map word' =
      (items.filter fun item => (G.attrs item).contains path).map word := by
  have hsame : ∀ item ∈ items,
      (G.attrs (G.tidy paths item)).contains path = (G.attrs item).contains path := fun item hitem =>
    Bool.eq_iff_iff.mpr (by simpa using Grouping.mem_tidy (h item hitem))
  have hkept : items.filter ((fun item => (G.attrs item).contains path) ∘ G.tidy paths) =
      items.filter fun item => (G.attrs item).contains path := List.filter_congr hsame
  rw [List.filter_map, List.map_map, hkept]
  exact List.map_congr_left fun item hitem => hword item (List.mem_of_mem_filter hitem)

theorem attributeSentence_tidied (h : GatheredEntity e) (hnodup : (pathsOf e.attrs).Nodup)
    (relations : List Relation) (r : Row) :
    attributeSentence (tidied e) relations r = attributeSentence e relations r := by
  have hindexes : (indexesAt (tidied e) r.path).map (fun i => indexWord (indexName (tidied e) i, i.unique)) =
      (indexesAt e r.path).map fun i => indexWord (indexName e i, i.unique) := by
    refine map_filter_tidy (fun i hi => (h.indexes.attrs i hi).2) (fun i hi => ?_) r.path
    have hname : indexName (tidied e) (indexGrouping.tidy (pathsOf e.attrs) i) = indexName e i := by
      have hnamed : 1 < i.attrs.length → i.name.isSome := fun hlong => by
        simpa [indexGrouping, sameGroup_self] using h.indexes.named i hi hlong
      exact groupName_tidied hnamed (Grouping.length_tidy (G := indexGrouping) hnodup)
    rw [hname]
    rfl
  have hchecks : (checksAt (tidied e) r.path).map (fun c => checkWord (checkName (tidied e) c, c.predicate)) =
      (checksAt e r.path).map fun c => checkWord (checkName e c, c.predicate) := by
    refine map_filter_tidy (fun c hc => (h.checks.attrs c hc).2) (fun c hc => ?_) r.path
    have hname : checkName (tidied e) (checkGrouping.tidy (pathsOf e.attrs) c) = checkName e c := by
      have hnamed : 1 < c.attrs.length → c.name.isSome := fun hlong => by
        simpa [checkGrouping, sameGroup_self] using h.checks.named c hc hlong
      exact groupName_tidied hnamed (Grouping.length_tidy (G := checkGrouping) hnodup)
    rw [hname]
    rfl
  simp only [attributeSentence, modifierWords, plainWords, hindexes, hchecks]
  rfl

theorem writeSchema_tidiedDatabase (h : ∀ e ∈ db.entities, (pathsOf e.attrs).Nodup ∧ GatheredEntity e) :
    writeSchema (tidiedDatabase db) = writeSchema db := by
  have hat : isAtAttribute (tidiedDatabase db) = isAtAttribute db := funext (isAtAttribute_tidiedDatabase db)
  have hentities : (tidiedDatabase db).entities.map (entityBlock (tidiedDatabase db)) =
      db.entities.map (entityBlock db) := by
    refine (List.map_map).trans (List.map_congr_left fun e he => ?_)
    have hown : ownRelations (tidiedDatabase db) (tidied e) = ownRelations db e := by
      rw [ownRelations, ownRelations, hat]
      rfl
    have hrows : (rowsIn [] e.attrs).map (attributeSentence (tidied e) (ownRelations db e)) =
        (rowsIn [] e.attrs).map (attributeSentence e (ownRelations db e)) :=
      List.map_congr_left fun r _ => attributeSentence_tidied (h e he).2 (h e he).1 _ r
    rw [Function.comp_apply, entityBlock, entityBlock, hown, ← hrows]
    rfl
  have hstandalone : standaloneRelations (tidiedDatabase db) = standaloneRelations db := by
    rw [standaloneRelations, standaloneRelations, hat]
    rfl
  refine writeSchema_congr ?_
  rw [documentSentences, documentSentences, blocks, blocks, hentities, hstandalone]
  rfl

-- ---------------------------------------------------------------------------
-- The order of relations
-- ---------------------------------------------------------------------------

/-- Each place still has its items when the items are put in the order of their places. -/
theorem filter_places {places : List β} {at_ : α → β → Bool} {l : List α} (hnodup : places.Nodup)
    (hunique : ∀ a p q, at_ a p = true → at_ a q = true → p = q) (hp : p ∈ places) :
    (places.flatMap (fun q => l.filter (at_ · q)) ++ l.filter fun a => !places.any (at_ a)).filter (at_ · p) =
      l.filter (at_ · p) := by
  obtain ⟨before, after, rfl⟩ := List.append_of_mem hp
  obtain ⟨-, hnodup, hdisjoint⟩ := List.nodup_append.mp hnodup
  have hother : ∀ q, q ≠ p → (l.filter (at_ · q)).filter (at_ · p) = [] := fun q hq => by
    rw [List.filter_filter]
    refine List.filter_eq_nil_iff.mpr fun a _ hat => hq ?_
    obtain ⟨hp, hq⟩ := Bool.and_eq_true_iff.mp hat
    exact hunique a q p hq hp
  have hbefore : before.flatMap (fun q => (l.filter (at_ · q)).filter (at_ · p)) = [] :=
    List.flatMap_eq_nil_iff.mpr fun q hq => hother q (hdisjoint q hq p List.mem_cons_self)
  have hafter : after.flatMap (fun q => (l.filter (at_ · q)).filter (at_ · p)) = [] :=
    List.flatMap_eq_nil_iff.mpr fun q hq => hother q fun heq => (List.nodup_cons.mp hnodup).1 (heq ▸ hq)
  have hlast : (l.filter fun a => !(before ++ p :: after).any (at_ a)).filter (at_ · p) = [] := by
    rw [List.filter_filter]
    refine List.filter_eq_nil_iff.mpr fun a _ hat => ?_
    simp only [Bool.and_eq_true, Bool.not_eq_true', List.any_eq_false] at hat
    exact hat.2 p hp hat.1
  rw [List.filter_append, hlast, List.append_nil, List.filter_flatMap, List.flatMap_append, hbefore,
    List.flatMap_cons, hafter]
  simp

theorem filter_placeless {places : List β} {at_ : α → β → Bool} {l : List α} :
    (places.flatMap (fun q => l.filter (at_ · q)) ++ l.filter fun a => !places.any (at_ a)).filter
      (fun a => !places.any (at_ a)) = l.filter fun a => !places.any (at_ a) := by
  have hplaced : (places.flatMap fun q => l.filter (at_ · q)).filter (fun a => !places.any (at_ a)) = [] := by
    refine List.filter_eq_nil_iff.mpr fun a ha => ?_
    obtain ⟨q, hq, ha⟩ := List.mem_flatMap.mp ha
    simpa using ⟨q, hq, (List.mem_filter.mp ha).2⟩
  rw [List.filter_append, hplaced, List.filter_filter]
  simp

/-- The writer puts each relation at its place. -/
theorem writeSchema_relationsInLines (h : Legible db) :
    writeSchema { db with relations := relationsInLines db } = writeSchema db := by
  have hown : ∀ e ∈ db.entities, ∀ r ∈ rowsIn [] e.attrs,
      relationsAt (ownRelations { db with relations := relationsInLines db } e) r.path =
        relationsAt (ownRelations db e) r.path := by
    intro e he r hr
    have hplace : (e.id, r.path) ∈ places db :=
      List.mem_flatMap.mpr ⟨e, he, List.mem_map_of_mem (List.mem_map_of_mem hr)⟩
    rw [relationsAt_ownRelations, relationsAt_ownRelations]
    exact relationsInLines_places h ▸
      filter_places (nodup_places h) (fun a p q hp hq => isAt_unique hp hq) hplace
  have hplaceless : (!isAtAttribute db ·) = fun r => !(places db).any (isAt db r) :=
    funext fun r => by rw [any_isAt h]
  have hstandalone : standaloneRelations { db with relations := relationsInLines db } =
      standaloneRelations db := by
    have hfilter : (relationsInLines db).filter (!isAtAttribute db ·) = standaloneRelations db := by
      rw [standaloneRelations, hplaceless, relationsInLines_places h, filter_placeless]
    exact hfilter
  have hblocks : db.entities.map (entityBlock { db with relations := relationsInLines db }) =
      db.entities.map (entityBlock db) := by
    refine List.map_congr_left fun e he => ?_
    rw [entityBlock, entityBlock]
    refine congrArg (entitySentence e :: ·) (List.map_congr_left fun r hr => ?_)
    simp only [attributeSentence, modifierWords, hown e he r hr]
  refine writeSchema_congr ?_
  rw [documentSentences, documentSentences, blocks, blocks, hstandalone, hblocks]

-- ---------------------------------------------------------------------------
-- Settled schemas
-- ---------------------------------------------------------------------------

/-- The text of a settled schema is written again when it is read. -/
theorem writeSchema_readSchema_stable (hread : (readSchema text).value = some db) (h : Settled db) :
    (readSchema (writeSchema db)).value.map writeSchema = some (writeSchema db) := by
  have hlegible := legible_tidied hread h
  have htidied : writeSchema (tidiedDatabase db) = writeSchema db :=
    writeSchema_tidiedDatabase fun e he => ⟨(h.entity e he).distinct, gathered_entity hread h e he⟩
  rw [← htidied, (read_legible hlegible).1, Option.map_some, writeSchema_relationsInLines hlegible]

/-- The type was quoted, but the writer gives it without quotes, so that it is taken for a key. -/
theorem writeSchema_readSchema_unsettled :
    (readSchema "users\n  id \"pk\"\n").value.map writeSchema = some "users\n  id pk\n" ∧
      (readSchema "users\n  id pk\n").value.map writeSchema = some "users\n  id unknown pk\n" := by
  decide +kernel

-- ---------------------------------------------------------------------------
-- A text that is not in its final form
-- ---------------------------------------------------------------------------

/-- An attribute names its index twice, and a relation can be written at its attribute. -/
def draft : String :=
  "namespace shop\n\n" ++
    "type mood (fine, \"so so\")\n" ++
    "type even `VALUE % 2 = 0`\n\n" ++
    "users | all of them # kept\n" ++
    "\tID int PK\n" ++
    "\tname \"varchar(20)\"=x NULLABLE unique=place index=place index=place\n" ++
    "\thome struct\n" ++
    "\t\tcity text unique=place check(`city <> ''`) | where\n\n" ++
    "orders\n" ++
    "  user fk users\n" ++
    "  id\n\n" ++
    "rel orders(id) <> users(name, home.city) | odd\n" ++
    "rel orders(user) -> users\n"

def draftSchema : Database := (readSchema draft).value.getD {}

/-- Whatever the text is, there is a schema. -/
theorem value_readSchema (text : String) :
    (readSchema text).value = some ((readSchema text).value.getD {}) := rfl

/-- What is read of a text, as a function of its characters. -/
def readChars (cs : List Char) : Parsed Database :=
  let (lines, problems) := readLinesFrom {} (splitAt '\n' cs)
  (lines.foldl State.line { diagnostics := problems }).finish

theorem readSchema_eq (text : String) : readSchema text = readChars text.toList := rfl

theorem settled_draftSchema : Settled draftSchema := by
  have hread : draftSchema = (readChars draft.toList).value.getD {} := by
    rw [draftSchema, readSchema_eq]
  rw [hread]
  -- The characters are spelled out first, because a long string is slow to decode.
  unfold draft
  simp only [String.toList_append, String.reduceToList]
  decide +kernel

theorem writeSchema_readSchema_stable_draft :
    (readSchema draft).value = some draftSchema ∧ Settled draftSchema ∧
      (readSchema (writeSchema draftSchema)).value.map writeSchema = some (writeSchema draftSchema) :=
  ⟨value_readSchema draft, settled_draftSchema,
    writeSchema_readSchema_stable (value_readSchema draft) settled_draftSchema⟩

end SchemaDialects.Markup
