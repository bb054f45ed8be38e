import SchemaDialects.Proofs.Diff.Table
import SchemaDialects.Proofs.Equality
import SchemaDialects.Proofs.Order

/-!
# A difference is an exact patch

`diff_exact`: each list of a difference holds exactly the items it is meant to hold, in strictly
ascending order of their keys, and applying the difference to the left side gives the right side.
Of several items with one key only the first counts, on both sides.
-/

namespace SchemaDialects

open Std

variable {α δ κ : Type}

-- ---------------------------------------------------------------------------
-- What a difference has to say
-- ---------------------------------------------------------------------------

section
variable [DecidableEq κ] (key : α → κ)

/-- The collection, seen as the first item of each key, without the keys of `gone`. -/
def without (gone : List α) (table : κ → Option α) : κ → Option α := fun k =>
  if (firstAt? key gone k).isSome then none else table k

/-- The second item of each pair in place of the first. -/
def replacing (pairs : List (α × α)) (table : κ → Option α) : κ → Option α := fun k =>
  match pairs.find? fun p => key p.1 = k with
  | some p => some p.2
  | none => table k

def adding (fresh : List α) (table : κ → Option α) : κ → Option α := fun k =>
  (table k).or (firstAt? key fresh k)

/-- The left collection with what is only there removed, what differs replaced and what is only on
the right added. -/
def CollectionDiff.patch (sides : δ → α × α) (d : CollectionDiff α δ) (table : κ → Option α) :
    κ → Option α :=
  adding key d.right (replacing key (d.both.map sides) (without key d.left table))

/-- Both collections have the same keys, with equal items. -/
def SameFirsts [BEq α] (left right : List α) : Prop :=
  ∀ k, (firstAt? key left k == firstAt? key right k) = true

variable [Ord κ] [BEq α]

/-- Which items stand in which list, and in which order. `sides` are the two versions that an item of
the list `both` carries. -/
structure IsDiff (sides : δ → α × α) (left right : List α) (d : CollectionDiff α δ) : Prop where
  mem_left : ∀ a, a ∈ d.left ↔
    firstAt? key left (key a) = some a ∧ firstAt? key right (key a) = none
  mem_right : ∀ b, b ∈ d.right ↔
    firstAt? key right (key b) = some b ∧ firstAt? key left (key b) = none
  mem_both : ∀ a b, (a, b) ∈ d.both.map sides ↔ key a = key b ∧
    firstAt? key left (key a) = some a ∧ firstAt? key right (key b) = some b ∧ (a == b) = false
  left_ascending : d.left.Pairwise fun a b => compare (key a) (key b) = .lt
  right_ascending : d.right.Pairwise fun a b => compare (key a) (key b) = .lt
  both_ascending : (d.both.map sides).Pairwise fun p q => compare (key p.1) (key q.1) = .lt

/-- An exact difference turns the left collection into the right one, and it is empty exactly when
they are the same. -/
structure IsExactPatch (sides : δ → α × α) (left right : List α) (d : CollectionDiff α δ) : Prop
    extends IsDiff key sides left right d where
  patch_left : ∀ k, (d.patch key sides (firstAt? key left) k == firstAt? key right k) = true
  isEmpty_iff : d.isEmpty = true ↔ SameFirsts key left right

end

-- ---------------------------------------------------------------------------
-- The lists of a difference
-- ---------------------------------------------------------------------------

section
variable [Ord κ] [TransOrd κ] [LawfulEqOrd κ] [DecidableEq κ] {key : α → κ} {left right : List α}

theorem hasKey_keyed : hasKey (keyed key items) k = false ↔ firstAt? key items k = none :=
  hasKey_eq_false.trans not_mem_keyed

/-- The items of an ascending table ascend by the key under which they stand. -/
theorem ascending_items {p : κ × α → Bool} :
    (((keyed key items).filter p).map (·.2)).Pairwise fun a b => compare (key a) (key b) = .lt := by
  refine List.pairwise_map.mpr ?_
  refine (keyed_ascending.filter p).imp_of_mem fun {a b} ha hb h => ?_
  rw [← key_of_mem_keyed (List.mem_of_mem_filter ha), ← key_of_mem_keyed (List.mem_of_mem_filter hb)]
  exact h

theorem mem_only_left {a : α} :
    a ∈ ((keyed key left).filter fun e => !hasKey (keyed key right) e.1).map (·.2) ↔
      firstAt? key left (key a) = some a ∧ firstAt? key right (key a) = none := by
  simp only [List.mem_map, List.mem_filter, Bool.not_eq_true', hasKey_keyed]
  constructor
  · rintro ⟨e, ⟨he, hnone⟩, rfl⟩
    rw [← key_of_mem_keyed he]
    exact ⟨mem_keyed.mp he, hnone⟩
  · rintro ⟨ha, hnone⟩
    exact ⟨(key a, a), ⟨mem_keyed.mpr ha, hnone⟩, rfl⟩

variable [BEq α]

theorem mem_changedPairs : (k, a, b) ∈ changedPairs (keyed key left) (keyed key right) ↔
    firstAt? key left k = some a ∧ firstAt? key right k = some b ∧ (a == b) = false := by
  constructor
  · intro h
    obtain ⟨⟨k', a'⟩, hmem, h⟩ := List.mem_filterMap.mp h
    obtain ⟨⟨b', others⟩, htake, h⟩ := Option.bind_eq_some_iff.mp h
    have hb := (takeOut?_eq_some keyed_ascending htake).1
    simp only [Option.ite_none_left_eq_some, Option.some.injEq, Prod.mk.injEq] at h
    obtain ⟨hne, rfl, rfl, rfl⟩ := h
    exact ⟨mem_keyed.mp hmem, mem_keyed.mp hb, by simpa using hne⟩
  · rintro ⟨ha, hb, hne⟩
    refine List.mem_filterMap.mpr ⟨(k, a), mem_keyed.mpr ha, ?_⟩
    cases htake : takeOut? k (keyed key right) with
    | none =>
      have := hasKey_keyed.mp (takeOut?_eq_none.mp htake)
      simp [hb] at this
    | some p =>
      have := mem_keyed.mp (takeOut?_eq_some keyed_ascending htake).1
      obtain rfl : p.1 = b := Option.some.inj (this.symm.trans hb)
      simp [hne]

omit [DecidableEq κ] in
theorem changedPairs_ascending :
    (changedPairs (keyed key left) (keyed key right)).Pairwise
      fun p q => compare p.1 q.1 = .lt := by
  refine List.Pairwise.filterMap _ ?_ keyed_ascending
  intro e e' hlt p hp q hq
  obtain ⟨_, -, hp⟩ := Option.bind_eq_some_iff.mp hp
  obtain ⟨_, -, hq⟩ := Option.bind_eq_some_iff.mp hq
  simp only [Option.ite_none_left_eq_some, Option.some.injEq] at hp hq
  rw [← hp.2, ← hq.2]
  exact hlt

theorem diffBy_isDiff {changed : α → α → δ} {sides : δ → α × α}
    (hsides : ∀ a b, sides (changed a b) = (a, b)) :
    IsDiff key sides left right (diffBy key changed left right) := by
  rw [diffBy, classify_eq keyed_ascending keyed_ascending]
  have hboth : ((changedPairs (keyed key left) (keyed key right)).map
      fun p => changed p.2.1 p.2.2).map sides =
        (changedPairs (keyed key left) (keyed key right)).map (·.2) := by
    simp [Function.comp_def, hsides]
  refine ⟨fun a => mem_only_left, fun b => mem_only_left, ?_, ascending_items, ascending_items, ?_⟩
  · intro a b
    rw [hboth, List.mem_map]
    constructor
    · rintro ⟨⟨k, a', b'⟩, hmem, heq⟩
      cases heq
      obtain ⟨ha, hb, hne⟩ := mem_changedPairs.mp hmem
      obtain rfl := key_of_firstAt? ha
      have hkey := key_of_firstAt? hb
      exact ⟨hkey.symm, ha, hkey ▸ hb, hne⟩
    · rintro ⟨hkey, ha, hb, hne⟩
      exact ⟨(key a, a, b), mem_changedPairs.mpr ⟨ha, hkey ▸ hb, hne⟩, rfl⟩
  · rw [hboth]
    refine List.pairwise_map.mpr ?_
    refine changedPairs_ascending.imp_of_mem fun {p q} hp hq h => ?_
    rw [key_of_firstAt? (mem_changedPairs.mp hp).1, key_of_firstAt? (mem_changedPairs.mp hq).1]
    exact h

end

-- ---------------------------------------------------------------------------
-- Applying a difference
-- ---------------------------------------------------------------------------

section
variable [DecidableEq κ] {key : α → κ} {left right : List α}

/-- A bucket of one-sided items, looked up by key. -/
theorem firstAt?_bucket {bucket : List α} (h : ∀ a, a ∈ bucket ↔
    firstAt? key left (key a) = some a ∧ firstAt? key right (key a) = none) :
    firstAt? key bucket k = if (firstAt? key right k).isNone then firstAt? key left k else none := by
  cases hb : firstAt? key bucket k with
  | some a =>
    obtain ⟨ha, hnone⟩ := (h a).mp (mem_of_firstAt? hb)
    rw [key_of_firstAt? hb] at ha hnone
    simp [ha, hnone]
  | none =>
    cases ha : firstAt? key left k with
    | none => simp
    | some a =>
      obtain rfl := key_of_firstAt? ha
      have hnot : a ∉ bucket := fun hmem => firstAt?_eq_none.mp hb a hmem rfl
      cases hr : firstAt? key right (key a) with
      | none => exact absurd ((h a).mpr ⟨ha, hr⟩) hnot
      | some b => simp

variable [Ord κ] [BEq α] {sides : δ → α × α} {d : CollectionDiff α δ}

theorem IsDiff.of_find?_both (h : IsDiff key sides left right d)
    (hp : ((d.both.map sides).find? fun p => key p.1 = k) = some p) :
    firstAt? key left k = some p.1 ∧ firstAt? key right k = some p.2 := by
  obtain ⟨hkey, ha, hb, -⟩ := (h.mem_both p.1 p.2).mp (List.mem_of_find?_eq_some hp)
  obtain rfl : key p.1 = k := by simpa using List.find?_some hp
  exact ⟨ha, hkey ▸ hb⟩

/-- Items of one key that stand in no pair are the same. -/
theorem IsDiff.beq_of_find?_both (h : IsDiff key sides left right d)
    (hp : ((d.both.map sides).find? fun p => key p.1 = k) = none)
    (ha : firstAt? key left k = some a) (hb : firstAt? key right k = some b) :
    (a == b) = true := by
  by_contra hne
  have hka := key_of_firstAt? ha
  have hkb := key_of_firstAt? hb
  have hmem : (a, b) ∈ d.both.map sides := by
    refine (h.mem_both a b).mpr ⟨hka.trans hkb.symm, ?_, ?_, by simpa using hne⟩
    · rwa [hka]
    · rwa [hkb]
  have := List.find?_eq_none.mp hp (a, b) hmem
  simp [hka] at this

theorem IsDiff.patch_left [EquivBEq α] (h : IsDiff key sides left right d) (k : κ) :
    (d.patch key sides (firstAt? key left) k == firstAt? key right k) = true := by
  have hl := firstAt?_bucket (k := k) h.mem_left
  have hr := firstAt?_bucket (k := k) h.mem_right
  simp only [CollectionDiff.patch, adding, replacing, without, hl, hr]
  cases hp : (d.both.map sides).find? fun p => key p.1 = k with
  | some p => simp [(h.of_find?_both hp).2]
  | none =>
    cases ha : firstAt? key left k with
    | none => cases hb : firstAt? key right k <;> simp
    | some a =>
      cases hb : firstAt? key right k with
      | none => simp
      | some b => simpa using h.beq_of_find?_both hp ha hb

theorem IsDiff.isEmpty_iff (h : IsDiff key sides left right d) :
    d.isEmpty = true ↔ SameFirsts key left right := by
  simp only [CollectionDiff.isEmpty, Bool.and_eq_true, List.isEmpty_iff]
  constructor
  · rintro ⟨⟨hl, hr⟩, hb⟩ k
    cases ha : firstAt? key left k with
    | none =>
      cases hb' : firstAt? key right k with
      | none => rfl
      | some b =>
        obtain rfl := key_of_firstAt? hb'
        have := (h.mem_right b).mpr ⟨hb', ha⟩
        simp [hr] at this
    | some a =>
      cases hb' : firstAt? key right k with
      | none =>
        obtain rfl := key_of_firstAt? ha
        have := (h.mem_left a).mpr ⟨ha, hb'⟩
        simp [hl] at this
      | some b => simpa using h.beq_of_find?_both (by simp [hb]) ha hb'
  · intro hsame
    refine ⟨⟨?_, ?_⟩, ?_⟩
    · refine List.eq_nil_iff_forall_not_mem.mpr fun a ha => ?_
      obtain ⟨hl, hr⟩ := (h.mem_left a).mp ha
      have := hsame (key a)
      simp [hl, hr] at this
    · refine List.eq_nil_iff_forall_not_mem.mpr fun b hb => ?_
      obtain ⟨hr, hl⟩ := (h.mem_right b).mp hb
      have := hsame (key b)
      simp [hl, hr] at this
    · refine List.eq_nil_iff_forall_not_mem.mpr fun c hc => ?_
      obtain ⟨hkey, hl, hr, hne⟩ := (h.mem_both _ _).mp (List.mem_map_of_mem hc)
      have := hsame (key (sides c).1)
      rw [hl, hkey, hr] at this
      simp [hne] at this

theorem IsDiff.exact [EquivBEq α] (h : IsDiff key sides left right d) :
    IsExactPatch key sides left right d :=
  ⟨h, h.patch_left, h.isEmpty_iff⟩

end

-- ---------------------------------------------------------------------------
-- Schemas
-- ---------------------------------------------------------------------------

def Changed.sides (c : Changed α) : α × α := (c.left, c.right)

def EntityDiff.sides (d : EntityDiff) : Entity × Entity := (d.left, d.right)

theorem diffCollection_exact [Ord κ] [TransOrd κ] [LawfulEqOrd κ] [DecidableEq κ] [BEq α]
    [EquivBEq α] {key : α → κ} {left right : List α} :
    IsExactPatch key Changed.sides left right (diffCollection key left right) :=
  (diffBy_isDiff fun _ _ => rfl).exact

/-- What the difference of two versions of an entity says about its parts. -/
structure EntityDiff.IsExact (d : EntityDiff) : Prop where
  id_left : d.id = d.left.id
  id_right : d.id = d.right.id
  attributes : IsExactPatch (·.name) Changed.sides d.left.attrs d.right.attrs d.attributes
  indexes : IsExactPatch Index.key Changed.sides d.left.indexes d.right.indexes d.indexes
  primaryKey_isSome : d.primaryKey.isSome = true ↔ d.left.primaryKey ≠ d.right.primaryKey
  primaryKey_sides : ∀ c ∈ d.primaryKey, c.sides = (d.left.primaryKey, d.right.primaryKey)

theorem EntityDiff.ofEntities_exact {left right : Entity} (h : left.id = right.id) :
    (EntityDiff.ofEntities left right).IsExact where
  id_left := rfl
  id_right := h
  attributes := diffCollection_exact
  indexes := diffCollection_exact
  primaryKey_isSome := by simp [EntityDiff.ofEntities]
  primaryKey_sides := by simp [EntityDiff.ofEntities, Changed.sides]

theorem mem_both_diff {left right : Database} (h : d ∈ (left.diff right).entities.both) :
    d = EntityDiff.ofEntities d.left d.right := by
  simp only [Database.diff, diffBy, classify_eq keyed_ascending keyed_ascending] at h
  obtain ⟨p, -, rfl⟩ := List.mem_map.mp h
  rfl

/-- The difference of two schemas, with or without repeated keys, is exact for entities, relations
and types, and inside every changed entity for attributes, indexes and the primary key. -/
theorem diff_exact (left right : Database) :
    IsExactPatch Entity.id EntityDiff.sides left.entities right.entities
      (left.diff right).entities ∧
    IsExactPatch Relation.key Changed.sides left.relations right.relations
      (left.diff right).relations ∧
    IsExactPatch NamedType.id Changed.sides left.types right.types (left.diff right).types ∧
    (∀ d ∈ (left.diff right).entities.both, d.IsExact) ∧
    ((left.diff right).isEmpty = true ↔
      SameFirsts Entity.id left.entities right.entities ∧
      SameFirsts Relation.key left.relations right.relations ∧
      SameFirsts NamedType.id left.types right.types) := by
  have hentities : IsExactPatch Entity.id EntityDiff.sides left.entities right.entities
      (left.diff right).entities := (diffBy_isDiff fun _ _ => rfl).exact
  have hrelations : IsExactPatch Relation.key Changed.sides left.relations right.relations
      (left.diff right).relations := diffCollection_exact
  have htypes : IsExactPatch NamedType.id Changed.sides left.types right.types
      (left.diff right).types := diffCollection_exact
  refine ⟨hentities, hrelations, htypes, fun d hd => ?_, ?_⟩
  · have hkey := ((hentities.mem_both _ _).mp (List.mem_map_of_mem hd)).1
    exact mem_both_diff hd ▸ EntityDiff.ofEntities_exact hkey
  · rw [DatabaseDiff.isEmpty, Bool.and_eq_true, Bool.and_eq_true, hentities.isEmpty_iff,
      hrelations.isEmpty_iff, htypes.isEmpty_iff, and_assoc]

theorem SameFirsts.of_eq [DecidableEq κ] [BEq α] [EquivBEq α] {key : α → κ}
    (h : ∀ k, firstAt? key left k = firstAt? key right k) : SameFirsts key left right := by
  intro k
  rw [h k]
  exact BEq.rfl

/-- Schemas do not differ if their collections have the same first items. -/
theorem isEmpty_diff {left right : Database}
    (hentities : SameFirsts Entity.id left.entities right.entities)
    (hrelations : SameFirsts Relation.key left.relations right.relations)
    (htypes : SameFirsts NamedType.id left.types right.types) : (left.diff right).isEmpty = true := by
  have hsides : ∀ a b, EntityDiff.sides (EntityDiff.ofEntities a b) = (a, b) := fun _ _ => rfl
  rw [DatabaseDiff.isEmpty, Bool.and_eq_true, Bool.and_eq_true]
  exact ⟨⟨(diffBy_isDiff hsides).isEmpty_iff.mpr hentities, diffCollection_exact.isEmpty_iff.mpr hrelations⟩,
    diffCollection_exact.isEmpty_iff.mpr htypes⟩

end SchemaDialects
