import SchemaDialects.Proofs.Diff.Patch

/-!
# Exchanging the sides of a comparison

`diff_swapped`: comparing two schemas the other way round gives the same difference with its sides
exchanged. The two comparisons walk along different tables; that they meet the changed items in one
order follows from both orders being the strict order of the keys.
-/

namespace SchemaDialects

open Std

variable {α δ κ : Type} [Ord κ] [TransOrd κ] [LawfulEqOrd κ]

/-- Lists in strictly ascending order are told apart by their items. -/
theorem eq_of_ascending {f : α → κ} {as bs : List α}
    (ha : as.Pairwise fun a b => compare (f a) (f b) = .lt)
    (hb : bs.Pairwise fun a b => compare (f a) (f b) = .lt) (h : ∀ a, a ∈ as ↔ a ∈ bs) :
    as = bs := by
  have hne : ∀ a b : α, compare (f a) (f b) = .lt → a ≠ b := by
    rintro a _ hlt rfl
    simp [ReflCmp.compare_self] at hlt
  have hperm := (List.perm_ext_iff_of_nodup (ha.imp (hne _ _)) (hb.imp (hne _ _))).mpr h
  refine hperm.eq_of_pairwise (fun a b _ _ hab hba => ?_) ha hb
  have := TransCmp.lt_trans hab hba
  simp [ReflCmp.compare_self] at this

variable [DecidableEq κ] [BEq α] [PartialEquivBEq α] {key : α → κ} {left right : List α}

theorem changedPairs_comm : changedPairs (keyed key right) (keyed key left) =
    (changedPairs (keyed key left) (keyed key right)).map fun p => (p.1, p.2.2, p.2.1) := by
  refine eq_of_ascending (f := (·.1)) changedPairs_ascending
    (List.pairwise_map.mpr changedPairs_ascending) ?_
  rintro ⟨k, b, a⟩
  have hmem : (k, b, a) ∈ (changedPairs (keyed key left) (keyed key right)).map
      (fun p => (p.1, p.2.2, p.2.1)) ↔ (k, a, b) ∈ changedPairs (keyed key left) (keyed key right) := by
    rw [List.mem_map]
    constructor
    · rintro ⟨p, hp, heq⟩
      cases heq
      exact hp
    · exact fun h => ⟨_, h, rfl⟩
  rw [hmem, mem_changedPairs, mem_changedPairs, BEq.comm (a := a)]
  exact and_left_comm

theorem diffBy_comm {changed : α → α → δ} {swap : δ → δ}
    (hswap : ∀ a b, key a = key b → swap (changed a b) = changed b a) :
    diffBy key changed right left = (diffBy key changed left right).swapped swap := by
  simp only [diffBy, classify_eq keyed_ascending keyed_ascending, CollectionDiff.swapped,
    CollectionDiff.mk.injEq, true_and]
  rw [changedPairs_comm, List.map_map, List.map_map]
  refine List.map_congr_left fun p hp => ?_
  obtain ⟨ha, hb, -⟩ := mem_changedPairs.mp hp
  exact (hswap _ _ ((key_of_firstAt? ha).trans (key_of_firstAt? hb).symm)).symm

theorem diffCollection_comm :
    diffCollection key right left = (diffCollection key left right).swapped Changed.swapped :=
  diffBy_comm fun _ _ _ => rfl

theorem EntityDiff.ofEntities_comm {left right : Entity} (h : left.id = right.id) :
    (EntityDiff.ofEntities left right).swapped = EntityDiff.ofEntities right left := by
  simp only [EntityDiff.ofEntities, EntityDiff.swapped, EntityDiff.mk.injEq, true_and]
  refine ⟨h, diffCollection_comm.symm, diffCollection_comm.symm, ?_⟩
  by_cases hk : left.primaryKey = right.primaryKey
  · simp [hk]
  · simp [hk, Ne.symm hk, Changed.swapped]

/-- Of repeated keys the first counts on both sides, so the exchange holds for them as well. -/
theorem diff_swapped (left right : Database) : right.diff left = (left.diff right).swapped := by
  simp only [Database.diff, DatabaseDiff.swapped, DatabaseDiff.mk.injEq]
  exact ⟨diffBy_comm fun _ _ => EntityDiff.ofEntities_comm, diffCollection_comm,
    diffCollection_comm⟩

end SchemaDialects
