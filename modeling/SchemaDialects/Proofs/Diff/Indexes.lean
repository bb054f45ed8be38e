import SchemaDialects.Proofs.AttributeNames
import SchemaDialects.Proofs.Diff.Patch

/-!
# Indexes in a difference

An index is known by its name, or by its attribute list when it has no name. A difference matches indexes by a text
of this identity, and of several indexes with one identity the first counts. Where the texts of an entity tell its
identities apart, an empty difference of the indexes means the same first index of every identity, and the same
indexes if no identity repeats (`indexes_of_isEmpty`).
-/

namespace SchemaDialects

-- ---------------------------------------------------------------------------
-- Looking by another key
-- ---------------------------------------------------------------------------

/-- Two keys that divide the items in the same way find the same first items. -/
theorem firstAt?_of_same_classes [DecidableEq κ] [DecidableEq ι] {key : α → κ} {identity : α → ι}
    (h : ∀ a ∈ items, key a = key b ↔ identity a = identity b) :
    firstAt? key items (key b) = firstAt? identity items (identity b) := by
  induction items with
  | nil => rfl
  | cons a items ih =>
    obtain ⟨ha, hmore⟩ := List.forall_mem_cons.mp h
    simp only [firstAt?_cons, ih hmore, ha]

-- ---------------------------------------------------------------------------
-- What an index is known by
-- ---------------------------------------------------------------------------

/-- What makes an index the same one in two versions of its entity. -/
inductive IndexIdentity
  | named (name : String)
  | unnamed (attrs : List AttributePath)
  deriving DecidableEq

def Index.identity (i : Index) : IndexIdentity :=
  match i.name with
  | some name => .named name
  | none => .unnamed i.attrs

def IndexIdentity.spelled : IndexIdentity → String
  | .named name => name
  | .unnamed attrs => ",".intercalate (attrs.map AttributePath.render)

theorem Index.key_eq_spelled (i : Index) : i.key = i.identity.spelled := by
  cases hname : i.name <;> simp [key, identity, IndexIdentity.spelled, hname]

/-- Identities that are spelled alike are the same. -/
def KeysTell (indexes : List Index) : Prop :=
  ∀ i ∈ indexes, ∀ j ∈ indexes, i.key = j.key → i.identity = j.identity

instance : Decidable (KeysTell indexes) :=
  inferInstanceAs (Decidable (∀ i ∈ indexes, ∀ j ∈ indexes, i.key = j.key → i.identity = j.identity))

theorem KeysTell.firstAt? (h : KeysTell indexes) (hi : i ∈ indexes) :
    firstAt? Index.key indexes i.key = firstAt? Index.identity indexes i.identity := by
  refine firstAt?_of_same_classes fun j hj => ⟨h j hj i hi, fun heq => ?_⟩
  simp only [Index.key_eq_spelled, heq]

-- ---------------------------------------------------------------------------
-- Keys that tell
-- ---------------------------------------------------------------------------

/-- An attribute list whose text can be taken apart again. -/
def Separable (attrs : List AttributePath) : Prop :=
  attrs ≠ [] ∧ ∀ path ∈ attrs, path ≠ [] ∧ ∀ name ∈ path, '.' ∉ name.toList ∧ ',' ∉ name.toList

theorem Separable.read_spelled (h : Separable attrs) :
    (Text.splitAt ',' (IndexIdentity.unnamed attrs).spelled.toList).map
      (fun cs => AttributePath.parse (String.ofList cs)) = attrs := by
  obtain ⟨hne, hpaths⟩ := h
  have hcommas : ∀ text ∈ (attrs.map AttributePath.render).map String.toList, ',' ∉ text := by
    intro text htext hcomma
    obtain ⟨_, hmem, rfl⟩ := List.mem_map.mp htext
    obtain ⟨path, hpath, rfl⟩ := List.mem_map.mp hmem
    have hchars : path.render.toList = ['.'].intercalate (path.map String.toList) := String.toList_intercalate
    rw [hchars] at hcomma
    cases Text.mem_intercalate hcomma with
    | inl hdot => simp at hdot
    | inr hpiece =>
      obtain ⟨_, hpiece, hcomma⟩ := hpiece
      obtain ⟨name, hname, rfl⟩ := List.mem_map.mp hpiece
      exact ((hpaths path hpath).2 name hname).2 hcomma
  have hchars : (IndexIdentity.unnamed attrs).spelled.toList =
      [','].intercalate ((attrs.map AttributePath.render).map String.toList) := String.toList_intercalate
  rw [hchars, Text.splitAt_intercalate (by simpa using hne) hcommas, List.map_map, List.map_map]
  refine (List.map_congr_left fun path hpath => ?_).trans (List.map_id _)
  obtain ⟨hpne, hnames⟩ := hpaths path hpath
  have hread := (AttributePath.parse_render_iff path).mpr ⟨hpne, fun name hname => (hnames name hname).1⟩
  simpa using hread

/-- Keys tell indexes apart if no attribute of an unnamed one holds a dot or a comma and no name is spelled like the
attributes of an unnamed one. -/
theorem keysTell_of_separable
    (hattrs : ∀ i ∈ indexes, i.name = none → Separable i.attrs)
    (hnames : ∀ i ∈ indexes, ∀ j ∈ indexes, i.name.isSome → j.name = none → i.key ≠ j.key) :
    KeysTell indexes := by
  intro i hi j hj hkey
  cases hni : i.name with
  | some a =>
    cases hnj : j.name with
    | some b => simpa [Index.identity, Index.key, hni, hnj] using hkey
    | none => exact absurd hkey (hnames i hi j hj (by simp [hni]) hnj)
  | none =>
    cases hnj : j.name with
    | some b => exact absurd hkey.symm (hnames j hj i hi (by simp [hnj]) hni)
    | none =>
      have hi := (hattrs i hi hni).read_spelled
      have hj := (hattrs j hj hnj).read_spelled
      have hspelled : (IndexIdentity.unnamed i.attrs).spelled = (IndexIdentity.unnamed j.attrs).spelled := by
        simpa [Index.key_eq_spelled, Index.identity, hni, hnj] using hkey
      rw [hspelled, hj] at hi
      simp [Index.identity, hni, hnj, hi]

-- ---------------------------------------------------------------------------
-- An empty difference
-- ---------------------------------------------------------------------------

theorem firstAt?_of_isEmpty {left right : Entity} (h : (EntityDiff.ofEntities left right).indexes.isEmpty = true)
    (k : String) : firstAt? Index.key left.indexes k = firstAt? Index.key right.indexes k := by
  have hsame : SameFirsts Index.key left.indexes right.indexes := diffCollection_exact.isEmpty_iff.mp h
  exact beq_iff_eq.mp (hsame k)

/-- What is first of its identity on one side is so on the other, whichever side that is. -/
theorem firstAt?_identity_of_firsts {left right : List Index} (hleft : KeysTell left) (hright : KeysTell right)
    (hfirsts : ∀ k, firstAt? Index.key left k = firstAt? Index.key right k)
    (hi : firstAt? Index.identity left d = some i) : firstAt? Index.identity right d = some i := by
  obtain rfl := key_of_firstAt? hi
  have hfound : firstAt? Index.key right i.key = some i := by
    rw [← hfirsts, hleft.firstAt? (mem_of_firstAt? hi), hi]
  rw [← hright.firstAt? (mem_of_firstAt? hfound), hfound]

/-- If the difference of two entities lists no index, both have the same first index of every identity. They have the
same indexes if no identity repeats on either side. -/
theorem indexes_of_isEmpty {left right : Entity} (hleft : KeysTell left.indexes) (hright : KeysTell right.indexes)
    (h : (EntityDiff.ofEntities left right).indexes.isEmpty = true) :
    (∀ d, firstAt? Index.identity left.indexes d = firstAt? Index.identity right.indexes d) ∧
      ((left.indexes.map Index.identity).Nodup → (right.indexes.map Index.identity).Nodup →
        ∀ i, i ∈ left.indexes ↔ i ∈ right.indexes) := by
  have hfirsts := firstAt?_of_isEmpty h
  have hsame : ∀ d, firstAt? Index.identity left.indexes d = firstAt? Index.identity right.indexes d := by
    intro d
    refine Option.ext fun i => ⟨fun hi => ?_, fun hi => ?_⟩
    · exact firstAt?_identity_of_firsts hleft hright hfirsts hi
    · exact firstAt?_identity_of_firsts hright hleft (fun k => (hfirsts k).symm) hi
  refine ⟨hsame, fun hl hr i => ⟨fun hi => ?_, fun hi => ?_⟩⟩
  · exact mem_of_firstAt? ((hsame i.identity).symm.trans (firstAt?_of_nodup hl hi))
  · exact mem_of_firstAt? ((hsame i.identity).trans (firstAt?_of_nodup hr hi))

/-- People with an index for their addresses, read as a whole and in a part. -/
def indexedPeople (indexes : List Index) : Entity where
  name := "people"
  attrs := [⟨"email", "text", false, false, none, [], none, []⟩, ⟨"city", "text", false, false, none, [], none, []⟩]
  indexes := indexes

theorem indexes_of_isEmpty_people :
    let left := indexedPeople [{ attrs := [["email"]], unique := true }, { name := some "places", attrs := [["city"]] }]
    let right := indexedPeople [{ name := some "places", attrs := [["city"]] }, { attrs := [["email"]], unique := true }]
    (∀ d, firstAt? Index.identity left.indexes d = firstAt? Index.identity right.indexes d) ∧
      ∀ i, i ∈ left.indexes ↔ i ∈ right.indexes := by
  intro left right
  have h := @indexes_of_isEmpty left right (by decide) (by decide) (by decide +kernel)
  exact ⟨h.1, h.2 (by decide) (by decide)⟩

/-- Of two indexes with one name the second is not seen: it is lost without a difference. -/
theorem index_unseen :
    let left := indexedPeople [{ name := some "people_index", attrs := [["email"]] },
      { name := some "people_index", attrs := [["city"]], unique := true }]
    let right := indexedPeople [{ name := some "people_index", attrs := [["email"]] }]
    left.id = right.id ∧ (EntityDiff.ofEntities left right).indexes.isEmpty = true ∧
      ¬ ∀ i, i ∈ left.indexes ↔ i ∈ right.indexes := by
  refine ⟨by decide, by decide +kernel, fun h => ?_⟩
  have hlost := (h { name := some "people_index", attrs := [["city"]], unique := true }).mp (by decide)
  exact absurd hlost (by decide)

end SchemaDialects
