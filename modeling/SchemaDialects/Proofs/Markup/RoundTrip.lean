import SchemaDialects.Proofs.Markup.Documents

/-!
# Markup read back

`readSchema_writeSchema`: the text of a spellable schema is read as this very schema, without an error.
The relations come back in their order because they stand in the order of their lines.
-/

namespace SchemaDialects.Markup

open Text

-- ---------------------------------------------------------------------------
-- Relations in the order of their lines
-- ---------------------------------------------------------------------------

theorem filter_append_filter_not {p : α → Bool} {l : List α} (h : l.Pairwise fun a b => p b = true → p a = true) :
    l.filter p ++ l.filter (!p ·) = l := by
  induction l with
  | nil => rfl
  | cons a l ih =>
    obtain ⟨hfirst, hrest⟩ := List.pairwise_cons.mp h
    cases ha : p a with
    | true => simpa [ha] using ih hrest
    | false =>
      have hnone : ∀ b ∈ l, p b = false := fun b hb => by
        cases hb' : p b with
        | false => rfl
        | true => simp [hfirst b hb hb'] at ha
      have hnil : l.filter p = [] := List.filter_eq_nil_iff.mpr fun b hb => by simp [hnone b hb]
      have hall : l.filter (!p ·) = l := List.filter_eq_self.mpr fun b hb => by simp [hnone b hb]
      simp [ha, hnil, hall]

/-- Items in the order of their places are found again place by place, those without a place last. -/
theorem flatMap_filter_places {places : List β} {isAt : α → β → Bool} {l : List α} (hnodup : places.Nodup)
    (hunique : ∀ a p q, isAt a p = true → isAt a q = true → p = q)
    (h : l.Pairwise fun a b => places.findIdx (isAt a) ≤ places.findIdx (isAt b)) :
    places.flatMap (fun p => l.filter (isAt · p)) ++ l.filter (fun a => !places.any (isAt a)) = l := by
  induction places generalizing l with
  | nil => simp
  | cons p places ih =>
    obtain ⟨hfresh, hnodup⟩ := List.nodup_cons.mp hnodup
    have hfirst : l.filter (isAt · p) ++ l.filter (!isAt · p) = l := by
      refine filter_append_filter_not (h.imp fun {a b} hle hb => ?_)
      rw [List.findIdx_cons, List.findIdx_cons, hb] at hle
      cases ha : isAt a p with
      | true => rfl
      | false => simp [ha] at hle
    have hrest : (l.filter (!isAt · p)).Pairwise fun a b =>
        places.findIdx (isAt a) ≤ places.findIdx (isAt b) := by
      refine (h.filter _).imp_of_mem fun {a b} ha hb hle => ?_
      have ha : isAt a p = false := by simpa using (List.mem_filter.mp ha).2
      have hb : isAt b p = false := by simpa using (List.mem_filter.mp hb).2
      simpa [List.findIdx_cons, ha, hb] using hle
    have hplaces : places.flatMap (fun q => l.filter (isAt · q)) =
        places.flatMap fun q => (l.filter (!isAt · p)).filter (isAt · q) := by
      refine List.flatMap_congr fun q hq => ?_
      rw [List.filter_filter]
      refine List.filter_congr fun a _ => ?_
      cases ha : isAt a q with
      | false => rfl
      | true =>
        have hp : isAt a p = false := Bool.eq_false_iff.mpr fun hp =>
          hfresh (hunique a p q hp ha ▸ hq)
        simp [hp]
    have hnone : l.filter (fun a => !(p :: places).any (isAt a)) =
        (l.filter (!isAt · p)).filter fun a => !places.any (isAt a) := by
      rw [List.filter_filter]
      refine List.filter_congr fun a _ => ?_
      simp [Bool.and_comm]
    rw [List.flatMap_cons, List.append_assoc, hplaces, hnone, ih hnodup hrest, hfirst]

theorem rank_eq (db : Database) (r : Relation) : rank db r = (places db).findIdx (isAt db r) := by
  unfold rank isAt
  split
  · rename_i h
    simp [h]
  · rename_i h
    refine (List.findIdx_eq_length.mpr fun p _ => ?_).symm
    simp [h]

/-- The relations of a spellable schema are in the order of their lines. -/
theorem relationsInLines_eq (h : Spellable db) : relationsInLines db = db.relations := by
  rw [relationsInLines_places h.legible]
  refine flatMap_filter_places (nodup_places h.legible) (fun r p q hp hq => isAt_unique hp hq) ?_
  simpa only [rank_eq] using h.relations

/-- A written schema is read as the same schema, without an error. -/
theorem readSchema_writeSchema (h : Spellable db) : (readSchema (writeSchema db)).value = some db ∧
    (readSchema (writeSchema db)).hasErrors = false := by
  obtain ⟨hvalue, hclean⟩ := read_legible h.legible
  rw [relationsInLines_eq h] at hvalue
  exact ⟨hvalue, hclean⟩

-- ---------------------------------------------------------------------------
-- A schema with something of everything
-- ---------------------------------------------------------------------------

/-- People with a nested address, known by a key and an index of two attributes each. -/
def people : Entity where
  space := { schema := some "a.b" }
  name := "people"
  attrs := [
    { name := "id", type := "int" },
    { name := "home", type := "struct", nested := [
      { name := "the city", type := "varchar(20)", nullable := true, defaultValue := some "c = 'x'" }] },
    { name := "zip", type := "int", doc := some "five#digits", extra := [("comment", .str "# kept")] }]
  primaryKey := some { attrs := [["id"], ["zip"]] }
  indexes := [{ name := some "by place", attrs := [["home", "the city"], ["zip"]], unique := true }]
  checks := [{ attrs := [["zip"]], predicate := "zip > (0)" }]

def visits : Entity where
  name := "visits"
  attrs := [{ name := "who", type := "int" }, { name := "zip", type := "int" }]
  doc := some ""

def sample : Database where
  entities := [people, visits]
  types := [{ name := "mood", values := some ["fine", "so, so"] }]
  relations := [
    .manyToOne visits.id [["who"]] people.id [["id"]],
    { Relation.manyToOne visits.id [["who"], ["zip"]] people.id [["id"], ["zip"]] with
      doc := some "both" }]

theorem spellableType_int : SpellableType "int" where
  ne_empty := by decide
  bare _ := by
    refine ⟨rfl, by simp, ?_⟩
    rw [Modifier.ofWord?, toLower_eq, cardinalities?, toLower_eq]
    rfl

theorem spellableType_struct : SpellableType "struct" where
  ne_empty := by decide
  bare _ := by
    refine ⟨rfl, by simp, ?_⟩
    rw [Modifier.ofWord?, toLower_eq, cardinalities?, toLower_eq]
    rfl

theorem spellableType_varchar : SpellableType "varchar(20)" where
  ne_empty := by decide
  bare _ := by
    refine ⟨rfl, by simp, ?_⟩
    rw [Modifier.ofWord?, toLower_eq, cardinalities?, toLower_eq]
    rfl

theorem spellableNote_digits : SpellableNote "five#digits" where
  feedFree := by simp [FeedFree]
  trimmed := by decide
  hashes := hashesInside_iff.mpr (by decide)

theorem pathsOf_people : pathsOf people.attrs = [["id"], ["home"], ["home", "the city"], ["zip"]] := by
  simp [people, pathsOf, rowsIn, Row.path]

theorem pathsOf_visits : pathsOf visits.attrs = [["who"], ["zip"]] := by
  simp [visits, pathsOf, rowsIn, Row.path]

theorem spellable_people : SpellableEntity people where
  space := by simp [SpellableSpace, people, FeedFree]
  name := by simp [people, FeedFree]
  noDirective := by simp [people]
  attrs := by
    simp only [people, rowsIn, List.forall_mem_cons, List.append_nil, List.nil_append,
      List.cons_append]
    refine ⟨?_, ?_, ?_, ?_, by simp⟩
    · exact ⟨by simp [FeedFree], by simp [FeedFree], spellableType_int, by simp, by simp, ⟨.inl rfl⟩⟩
    · exact ⟨by simp [FeedFree], by simp [FeedFree], spellableType_struct, by simp, by simp,
        ⟨.inl rfl⟩⟩
    · refine ⟨by simp [FeedFree], by simp [FeedFree], spellableType_varchar, ?_, by simp, ⟨.inl rfl⟩⟩
      rintro value ⟨⟩
      exact ⟨by simp [FeedFree], by simp⟩
    · refine ⟨by simp [FeedFree], by simp [FeedFree], spellableType_int, by simp, ?_, ⟨.inr ?_⟩⟩
      · rintro text ⟨⟩
        exact spellableNote_digits
      · exact ⟨_, rfl, by simp [FeedFree], by decide⟩
  distinct := by
    rw [pathsOf_people]
    decide
  key := by
    rw [pathsOf_people]
    rintro key ⟨⟩
    exact ⟨by simp, by simp, by decide⟩
  index := by
    simp only [people, List.forall_mem_singleton]
    refine ⟨?_, rfl, rfl, rfl⟩
    rintro name ⟨⟩
    simp [FeedFree]
  indexes := by
    rw [pathsOf_people]
    refine ⟨?_, ?_, by simp [people], by simp [people]⟩
    · simp only [people, List.forall_mem_singleton]
      exact ⟨by simp [indexGrouping], by decide⟩
    · simp [people, indexGrouping, sameGroup]
  check := by
    simp only [people, List.forall_mem_singleton]
    exact ⟨by simp, ⟨by simp [FeedFree], by simp⟩, rfl⟩
  checks := by
    rw [pathsOf_people]
    refine ⟨?_, ?_, by simp [people], by simp [people]⟩
    · simp only [people, List.forall_mem_singleton]
      exact ⟨by simp [checkGrouping], by decide⟩
    · simp [people, checkGrouping]
  doc := by simp [people]
  extra := ⟨.inl rfl⟩
  stats := rfl

theorem spellable_visits : SpellableEntity visits where
  space := by simp [SpellableSpace, visits]
  name := by simp [visits, FeedFree]
  noDirective _ := by
    rw [toLower_eq]
    decide
  attrs := by
    simp only [visits, rowsIn, List.forall_mem_cons, List.append_nil, List.nil_append]
    refine ⟨?_, ?_, by simp⟩
    · exact ⟨by simp [FeedFree], by simp [FeedFree], spellableType_int, by simp, by simp, ⟨.inl rfl⟩⟩
    · exact ⟨by simp [FeedFree], by simp [FeedFree], spellableType_int, by simp, by simp, ⟨.inl rfl⟩⟩
  distinct := by
    rw [pathsOf_visits]
    decide
  key := by simp [visits]
  index := by simp [visits]
  indexes := ⟨by simp [visits], by simp [visits], .nil, .nil⟩
  check := by simp [visits]
  checks := ⟨by simp [visits], by simp [visits], .nil, .nil⟩
  doc := by
    rintro text ⟨⟩
    exact ⟨by simp [FeedFree], by decide, hashesInside_iff.mpr rfl⟩
  extra := ⟨.inl rfl⟩
  stats := rfl

theorem spellable_sample : Spellable sample where
  entity := by
    simp only [sample, List.forall_mem_cons]
    exact ⟨spellable_people, spellable_visits, by simp⟩
  entities := by decide
  type := by
    simp only [sample, List.forall_mem_singleton]
    refine ⟨by simp [SpellableSpace], by simp [FeedFree], ?_, by simp, .inr rfl, by simp, ⟨.inl rfl⟩⟩
    rintro values ⟨⟩
    simp [FeedFree]
  types := by decide
  relation := by
    have hcardinalities : (Cardinality.many, Cardinality.one) ≠ (.one, .many) := by decide
    simp only [sample, List.forall_mem_cons, Relation.manyToOne]
    refine ⟨?_, ?_, by simp⟩
    · refine ⟨?_, ?_, ⟨_, hcardinalities, rfl, rfl⟩, rfl, rfl, rfl, by simp, ⟨.inl rfl⟩⟩
      · constructor <;> simp [SpellableSpace, visits, Entity.id, FeedFree]
      · constructor <;> simp [SpellableSpace, people, Entity.id, FeedFree]
    · refine ⟨?_, ?_, ⟨_, hcardinalities, rfl, rfl⟩, rfl, rfl, rfl, ?_, ⟨.inl rfl⟩⟩
      · constructor <;> simp [SpellableSpace, visits, Entity.id, FeedFree]
      · constructor <;> simp [SpellableSpace, people, Entity.id, FeedFree]
      · rintro text ⟨⟩
        exact ⟨by simp [FeedFree], by decide, hashesInside_iff.mpr (by decide)⟩
  relations := by
    refine List.pairwise_pair.mpr ?_
    rw [rank_eq, rank_eq]
    refine Nat.le_trans List.findIdx_le_length (Nat.le_of_eq ?_)
    exact (List.findIdx_eq_length.mpr fun p _ => rfl).symm
  extra := rfl
  stats := rfl

theorem readSchema_writeSchema_sample : Spellable sample ∧
    (readSchema (writeSchema sample)).value = some sample ∧
    (readSchema (writeSchema sample)).hasErrors = false :=
  ⟨spellable_sample, readSchema_writeSchema spellable_sample⟩

end SchemaDialects.Markup
