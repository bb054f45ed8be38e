import SchemaDialects.Markup.Reader
import SchemaDialects.Proofs.NameLaws
import SchemaDialects.Proofs.TextLaws

/-!
# Where the characters come from

The reader takes words apart and drops quotes, but it adds no character: a name, a type, a value or a
predicate that it takes from a word has only characters of this word. So a text that is read from one
line holds no line feed, and one that is read between parentheses keeps what these guarantee.
-/

namespace SchemaDialects

open Text

-- ---------------------------------------------------------------------------
-- Parts of texts
-- ---------------------------------------------------------------------------

namespace Text

theorem dropEndWhile_subset : dropEndWhile p cs ⊆ cs := fun _ hc =>
  List.mem_reverse.mp ((List.dropWhile_sublist p).subset (List.mem_reverse.mp hc))

theorem stripWhile_subset : stripWhile p cs ⊆ cs :=
  List.Subset.trans dropEndWhile_subset (List.dropWhile_sublist p).subset

theorem dropHead?_subset (h : dropHead? head cs = some rest) : rest ⊆ cs := by
  rw [dropHead?_eq_some.mp h]
  exact List.subset_append_right _ _

theorem dropTail?_subset (h : dropTail? tail cs = some rest) : rest ⊆ cs := by
  rw [dropTail?_eq_some.mp h]
  exact List.subset_append_left _ _

theorem breakAt?_eq_some (h : breakAt? p cs = some (before, after)) :
    ∃ c, p c = true ∧ cs = before ++ c :: after ∧ ∀ b ∈ before, p b = false := by
  induction cs generalizing before with
  | nil => cases h
  | cons c cs ih =>
    rw [breakAt?] at h
    split at h
    · rename_i hc
      obtain ⟨rfl, rfl⟩ := Prod.mk.inj (Option.some.inj h)
      exact ⟨c, hc, rfl, by simp⟩
    · rename_i hc
      obtain ⟨⟨before, rest⟩, hrest, heq⟩ := Option.map_eq_some_iff.mp h
      obtain ⟨rfl, rfl⟩ := Prod.mk.inj heq
      obtain ⟨d, hd, rfl, hbefore⟩ := ih hrest
      exact ⟨d, hd, rfl, List.forall_mem_cons.mpr ⟨by simpa using hc, hbefore⟩⟩

end Text

-- ---------------------------------------------------------------------------
-- Names
-- ---------------------------------------------------------------------------

theorem splitUnquotedChars_subset (h : piece ∈ splitUnquotedChars sep inQuotes cs) : piece ⊆ cs := by
  induction cs generalizing piece inQuotes with
  | nil =>
    obtain rfl := List.mem_singleton.mp h
    exact List.Subset.refl _
  | cons c cs ih =>
    rw [splitUnquotedChars] at h
    split at h
    · rcases List.mem_cons.mp h with rfl | h
      · exact List.nil_subset _
      · exact List.subset_cons_of_subset c (ih h)
    · split at h
      · obtain rfl := List.mem_singleton.mp h
        simp
      · rename_i first pieces hpieces
        have hall : ∀ q ∈ first :: pieces, q ⊆ cs := fun q hq => ih (hpieces ▸ hq)
        rcases List.mem_cons.mp h with rfl | h
        · exact List.cons_subset_cons c (hall first List.mem_cons_self)
        · exact List.subset_cons_of_subset c (hall piece (List.mem_cons_of_mem _ h))

theorem SegmentState.finish_subset {state : SegmentState} (h : state.finish current = some name) :
    name.toList ⊆ current := by
  rw [finish] at h
  split at h
  · cases h
  · obtain rfl := Option.some.inj h
    simp

theorem readSegments_subset {state : SegmentState} (h : some name ∈ readSegments state current cs) :
    name.toList ⊆ current ++ cs := by
  induction state, current, cs using readSegments.induct with
  | case1 state current =>
    rw [readSegments, List.mem_singleton] at h
    simpa using SegmentState.finish_subset h.symm
  | case2 current rest ih =>
    rw [readSegments] at h
    have := ih h
    grind
  | case3 current rest hrest ih =>
    rw [readSegments] at h
    · have := ih h
      grind
    · exact hrest
  | case4 current c cs hquote hdouble ih =>
    rw [readSegments] at h
    · have := ih h
      grind
    · exact hdouble
    · exact hquote
  | case5 state current c cs hopen hstate ih =>
    rw [readSegments, if_pos hopen] at h
    · have := ih h
      grind
    · exact hstate
  | case6 state current cs hstate hopen ih =>
    rw [readSegments, if_neg hopen, if_pos rfl, List.mem_cons] at h
    · rcases h with h | h
      · have := SegmentState.finish_subset h.symm
        grind
      · have := ih h
        grind
    · exact hstate
  | case7 state current c cs hopen hdot hstate ih =>
    rw [readSegments, if_neg hopen, if_neg hdot] at h
    · have := ih h
      grind
    · exact hstate

/-- All names in the namespace are made of these characters. -/
def Namespace.TakenFrom (cs : List Char) (n : Namespace) : Prop :=
  ∀ segment ∈ [n.database, n.catalog, n.schema], ∀ name ∈ segment, name.toList ⊆ cs

theorem takenFrom_ofReversed {cs : List Char}
    (h : ∀ segment ∈ segments, ∀ name ∈ segment, String.toList name ⊆ cs) :
    (Namespace.ofReversed segments).TakenFrom cs := by
  intro segment hsegment name hname
  unfold Namespace.ofReversed at hsegment
  split at hsegment <;> grind

theorem splitSegments_subset (text : String) :
    ∀ segment ∈ (splitSegments text).reverse, ∀ name ∈ segment, name.toList ⊆ text.toList := by
  intro segment hsegment name hname
  obtain rfl := Option.mem_def.mp hname
  exact readSegments_subset (List.mem_reverse.mp hsegment)

theorem takenFrom_parse (text : String) : (Namespace.parse text).TakenFrom text.toList :=
  takenFrom_ofReversed (splitSegments_subset text)

theorem splitNamed_subset (text : String) :
    (splitNamed text).1.toList ⊆ text.toList ∧ (splitNamed text).2.TakenFrom text.toList := by
  have hall := splitSegments_subset text
  unfold splitNamed
  split
  · exact ⟨List.nil_subset _, by simp [Namespace.TakenFrom]⟩
  · rename_i name outer heq
    rw [heq] at hall
    refine ⟨?_, takenFrom_ofReversed fun segment hsegment => hall segment (List.mem_cons_of_mem _ hsegment)⟩
    cases name with
    | none => exact List.nil_subset _
    | some name => exact hall (some name) List.mem_cons_self name rfl

-- ---------------------------------------------------------------------------
-- Words
-- ---------------------------------------------------------------------------

namespace Markup

theorem undoubled_subset : undoubled cs ⊆ cs := by
  induction cs using undoubled.induct with
  | case1 cs ih =>
    rw [undoubled]
    exact List.cons_subset_cons _ (List.subset_cons_of_subset _ ih)
  | case2 c cs hdouble ih =>
    rw [undoubled]
    · exact List.cons_subset_cons _ ih
    · exact hdouble
  | case3 => exact List.Subset.refl _

theorem between?_subset {opening closing : Char} (h : between? opening closing cs = some content) :
    content ⊆ cs := by
  obtain ⟨rest, hrest, hcontent⟩ := Option.bind_eq_some_iff.mp h
  exact List.Subset.trans (dropTail?_subset hcontent) (dropHead?_subset hrest)

theorem unquote_subset : (unquote cs).toList ⊆ cs := by
  unfold unquote
  split
  · rename_i content hcontent
    rw [String.toList_ofList]
    exact List.Subset.trans undoubled_subset (between?_subset hcontent)
  · rw [String.toList_ofList]
    exact List.Subset.refl _

theorem unbacktick_subset : (unbacktick cs).toList ⊆ cs := by
  rw [unbacktick, String.toList_ofList]
  cases hcontent : between? '`' '`' cs with
  | none => exact List.Subset.refl _
  | some content => exact between?_subset hcontent

theorem listItems_subset (h : item ∈ listItems cs) : item ⊆ cs := by
  obtain ⟨piece, hpiece, rfl⟩ := List.mem_map.mp (List.mem_filter.mp h).1
  exact List.Subset.trans stripWhile_subset (splitUnquotedChars_subset hpiece)

-- ---------------------------------------------------------------------------
-- Modifiers
-- ---------------------------------------------------------------------------

theorem modifierName?_subset (h : modifierName? cs = some name) : name.toList ⊆ cs := by
  unfold modifierName? at h
  obtain ⟨rest, hrest, h⟩ := Option.bind_eq_some_iff.mp h
  simp only at h
  split at h
  · cases h
  · obtain rfl := Option.some.inj h
    exact List.Subset.trans unquote_subset (List.Subset.trans stripWhile_subset (dropHead?_subset hrest))

theorem modifierPredicate_subset : (modifierPredicate cs).toList ⊆ cs := by
  unfold modifierPredicate
  split
  · rename_i content hcontent
    exact List.Subset.trans unbacktick_subset (between?_subset hcontent)
  · exact List.nil_subset _

theorem cardinalities?_ne (h : cardinalities? word = some c) : c ≠ (.one, .many) := by
  unfold cardinalities? at h
  split at h <;> cases h <;> decide

/-- What a modifier may hold that is taken from a word. -/
def Modifier.TakenFrom (cs : List Char) : Modifier → Prop
  | .key name | .index name _ => ∀ n ∈ name, n.toList ⊆ cs
  | .nullable | .generated => True
  | .check name predicate => (∀ n ∈ name, n.toList ⊆ cs ∧ '(' ∉ n.toList) ∧ predicate.toList ⊆ cs
  | .reference c => c ≠ (.one, .many)

theorem Modifier.takenFrom_of_ofWord? (h : Modifier.ofWord? text = some m) : m.TakenFrom text.toList := by
  have hrest : ∀ p : Char → Bool, text.toList.dropWhile p ⊆ text.toList := fun p =>
    (List.dropWhile_sublist p).subset
  have hname : ∀ p : Char → Bool, ∀ n ∈ modifierName? (text.toList.dropWhile p), n.toList ⊆ text.toList :=
    fun p n hn => List.Subset.trans (modifierName?_subset hn) (hrest p)
  unfold Modifier.ofWord? at h
  simp only at h
  split at h
  · cases h
    exact hname _
  · cases h
    trivial
  · cases h
    trivial
  · cases h
    exact hname _
  · cases h
    exact hname _
  · cases h
    refine ⟨fun n hn => ?_, ?_⟩
    · have hsub := modifierName?_subset hn
      refine ⟨List.Subset.trans hsub ?_, fun hmem => ?_⟩
      · exact List.Subset.trans (List.takeWhile_sublist _).subset (hrest _)
      · simpa using List.all_eq_true.mp List.all_takeWhile _ (hsub hmem)
    · exact List.Subset.trans modifierPredicate_subset
        (List.Subset.trans (List.dropWhile_sublist _).subset (hrest _))
  · obtain ⟨c, hc, rfl⟩ := Option.map_eq_some_iff.mp h
    exact cardinalities?_ne hc

-- ---------------------------------------------------------------------------
-- Ends of relations
-- ---------------------------------------------------------------------------

/-- The list of an end is what stands behind its last opening parenthesis. -/
theorem breakAtLastOpen?_eq_some (h : breakAtLastOpen? cs = some (before, after)) :
    before ⊆ cs ∧ after ⊆ cs ∧ '(' ∉ after := by
  obtain ⟨⟨back, front⟩, hbreak, heq⟩ := Option.map_eq_some_iff.mp h
  obtain ⟨rfl, rfl⟩ := Prod.mk.inj heq
  obtain ⟨c, -, hcs, hback⟩ := breakAt?_eq_some hbreak
  have hmem : ∀ d, d ∈ cs ↔ d ∈ back ++ c :: front := fun d => by rw [← hcs, List.mem_reverse]
  refine ⟨fun d hd => (hmem d).mpr ?_, fun d hd => (hmem d).mpr ?_, fun hopen => ?_⟩
  · simp [List.mem_reverse.mp hd]
  · simp [List.mem_reverse.mp hd]
  · simpa using hback _ (List.mem_reverse.mp hopen)

theorem Endpoint.read_attrs (h : path ∈ (Endpoint.read space text).attrs) :
    path ≠ [] ∧ ∀ name ∈ path, name.toList ⊆ text.toList ∧ '(' ∉ name.toList := by
  unfold Endpoint.read at h
  split at h
  · rename_i entity attrs hbreak
    obtain ⟨rest, hrest, hopen⟩ := Option.bind_eq_some_iff.mp hbreak
    obtain ⟨-, hattrs, hfree⟩ := breakAtLastOpen?_eq_some hopen
    obtain ⟨item, hitem, rfl⟩ := List.mem_map.mp h
    have hitem := listItems_subset hitem
    refine ⟨by simpa using splitUnquotedChars_ne_nil, fun name hname => ?_⟩
    obtain ⟨piece, hpiece, rfl⟩ := List.mem_map.mp hname
    have hsub : (unquote piece).toList ⊆ attrs :=
      List.Subset.trans unquote_subset (List.Subset.trans (splitUnquotedChars_subset hpiece) hitem)
    have hall := List.Subset.trans hattrs (dropTail?_subset hrest)
    exact ⟨List.Subset.trans hsub hall, fun hmem => hfree (hsub hmem)⟩
  · cases h

theorem takenFrom_entityIn (space : Namespace) (cs : List Char) : (entityIn space cs).name.toList ⊆ cs ∧
    ((entityIn space cs).space = space ∨ (entityIn space cs).space.TakenFrom cs) := by
  obtain ⟨hname, hspace⟩ := splitNamed_subset (String.ofList cs)
  rw [String.toList_ofList] at hname hspace
  unfold entityIn
  simp only
  split
  · exact ⟨hname, .inl rfl⟩
  · exact ⟨hname, .inr hspace⟩

theorem Endpoint.read_entity (space : Namespace) (text : String) :
    ∃ cs, cs ⊆ text.toList ∧ (Endpoint.read space text).entity = entityIn space cs := by
  unfold Endpoint.read
  split
  · rename_i entity attrs hbreak
    obtain ⟨rest, hrest, hopen⟩ := Option.bind_eq_some_iff.mp hbreak
    exact ⟨entity, List.Subset.trans (breakAtLastOpen?_eq_some hopen).1 (dropTail?_subset hrest), rfl⟩
  · exact ⟨text.toList, List.Subset.refl _, by dsimp only⟩

end Markup

end SchemaDialects
