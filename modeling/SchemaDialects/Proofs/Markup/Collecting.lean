import Mathlib.Data.List.Perm.Basic
import SchemaDialects.Proofs.Markup.Groups

/-!
# Constraints as the reader collects them

The reader adds one attribute after the other to keys, indexes and checks. What it has collected after the
attributes `paths` is in the order of its first attributes, and no two items find together
(`Grouping.Collected.addTo`). An attribute that names an item twice is in it twice; without such
repetitions the items can be spelled (`Grouping.Collected.spelled_tidy`).
-/

namespace SchemaDialects.Markup

-- ---------------------------------------------------------------------------
-- The first item of a kind
-- ---------------------------------------------------------------------------

/-- A relation that does not see the change still holds. -/
theorem pairwise_modifyFirst {R : α → α → Prop} {p : α → Bool} {f : α → α} (h : l.Pairwise R)
    (hleft : ∀ a ∈ l, ∀ b, R a b → R (f a) b) (hright : ∀ a, ∀ b ∈ l, R a b → R a (f b)) :
    (modifyFirst p f l).Pairwise R := by
  induction l with
  | nil => exact .nil
  | cons a l ih =>
    obtain ⟨hfirst, hrest⟩ := List.pairwise_cons.mp h
    rw [modifyFirst]
    split
    · exact .cons (fun b hb => hleft a List.mem_cons_self b (hfirst b hb)) hrest
    · have ih := ih hrest (fun b hb => hleft b (List.mem_cons_of_mem _ hb))
        fun b c hc => hright b c (List.mem_cons_of_mem _ hc)
      refine .cons (fun b hb => ?_) ih
      rcases mem_modifyFirst hb with hb | ⟨c, hc, -, rfl⟩
      · exact hfirst b hb
      · exact hright a c (List.mem_cons_of_mem _ hc) (hfirst c hc)

-- ---------------------------------------------------------------------------
-- First attributes
-- ---------------------------------------------------------------------------

theorem firstAt_congr (h : ∀ path ∈ paths, path ∈ as ↔ path ∈ bs) : firstAt paths as = firstAt paths bs := by
  unfold firstAt
  induction paths with
  | nil => rfl
  | cons path paths ih =>
    obtain ⟨hfirst, hrest⟩ := List.forall_mem_cons.mp h
    rw [List.findIdx_cons, List.findIdx_cons, ih hrest, decide_eq_decide.mpr hfirst]

theorem firstAt_lt (hne : attrs ≠ []) (hsub : attrs ⊆ paths) : firstAt paths attrs < paths.length := by
  obtain ⟨path, hpath⟩ := List.exists_mem_of_ne_nil attrs hne
  exact List.findIdx_lt_length_of_exists ⟨path, hsub hpath, by simpa using hpath⟩

/-- Attributes behind them do not matter. -/
theorem firstAt_append (hne : attrs ≠ []) (hsub : attrs ⊆ paths) :
    firstAt (paths ++ more) attrs = firstAt paths attrs := by
  have hlt := firstAt_lt hne hsub
  unfold firstAt at hlt ⊢
  rw [List.findIdx_append, if_pos hlt]

theorem firstAt_last (hfresh : path ∉ paths) : firstAt (paths ++ [path]) [path] = paths.length := by
  refine firstAt_eq List.mem_cons_self (List.filter_eq_nil_iff.mpr fun p hp => ?_)
  obtain rfl := List.mem_singleton.mp hp
  simpa using hfresh

/-- The last of all attributes does not change where the first one stands. -/
theorem firstAt_concat (hfresh : path ∉ paths) (hne : attrs ≠ []) (hsub : attrs ⊆ paths ++ [path]) :
    firstAt (paths ++ [path]) (attrs ++ [path]) = firstAt (paths ++ [path]) attrs := by
  by_cases hpath : path ∈ attrs
  · exact firstAt_congr fun p _ => by simp only [List.mem_append, List.mem_singleton]; grind
  · have hsub : attrs ⊆ paths := fun p hp => by
      have := hsub hp
      grind
    have hbefore : firstAt paths (attrs ++ [path]) = firstAt paths attrs :=
      firstAt_congr fun p hp => by grind
    have hlt : firstAt paths (attrs ++ [path]) < paths.length := hbefore ▸ firstAt_lt hne hsub
    rw [firstAt_append hne hsub, ← hbefore]
    unfold firstAt at hlt ⊢
    rw [List.findIdx_append, if_pos hlt]

-- ---------------------------------------------------------------------------
-- Items
-- ---------------------------------------------------------------------------

namespace Grouping

variable {α : Type}

/-- Whether items find together does not depend on their attributes. -/
structure ByName (G : Grouping α) : Prop where
  same_withAttrs : ∀ a b paths, G.same a (G.withAttrs b paths) = G.same a b
  self : ∀ a b, G.same a b = true → G.same a a = true

/-- What the reader has collected at the attributes `paths`. -/
structure Collected (G : Grouping α) (paths : List AttributePath) (items : List α) : Prop where
  attrs : ∀ item ∈ items, G.attrs item ≠ [] ∧ G.attrs item ⊆ paths
  named : ∀ item ∈ items, 1 < (G.attrs item).length → G.same item item = true
  distinct : items.Pairwise fun a b => G.same a b = false
  ordered : items.Pairwise fun a b => firstAt paths (G.attrs a) ≤ firstAt paths (G.attrs b)

variable {G : Grouping α}

theorem collected_nil : G.Collected paths [] := ⟨by simp, by simp, .nil, .nil⟩

theorem Collected.append (h : G.Collected paths items) : G.Collected (paths ++ more) items where
  attrs item hitem :=
    have ⟨hne, hsub⟩ := h.attrs item hitem
    ⟨hne, List.subset_append_of_subset_left _ hsub⟩
  named := h.named
  distinct := h.distinct
  ordered := h.ordered.imp_of_mem fun {a b} ha hb hle => by
    rwa [firstAt_append (h.attrs a ha).1 (h.attrs a ha).2, firstAt_append (h.attrs b hb).1 (h.attrs b hb).2]

/-- The next attribute extends the item that it finds, or begins one behind all others. -/
theorem Collected.addTo (hG : G.ByName) (hfresh : path ∉ paths)
    (h : G.Collected (paths ++ [path]) items) (item : α) :
    G.Collected (paths ++ [path]) (G.addTo path items item) := by
  have hpath : path ∈ paths ++ [path] := by simp
  unfold Grouping.addTo addToGroup
  split
  · have hfirst : ∀ a ∈ items, firstAt (paths ++ [path]) (G.attrs (G.withAttrs a (G.attrs a ++ [path]))) =
        firstAt (paths ++ [path]) (G.attrs a) := fun a ha => by
      rw [G.attrs_withAttrs, firstAt_concat hfresh (h.attrs a ha).1 (h.attrs a ha).2]
    refine ⟨fun b hb => ?_, fun b hb hlong => ?_, ?_, ?_⟩
    · rcases mem_modifyFirst hb with hb | ⟨a, ha, -, rfl⟩
      · exact h.attrs b hb
      · rw [G.attrs_withAttrs]
        exact ⟨by simp, List.append_subset.mpr ⟨(h.attrs a ha).2, by simp⟩⟩
    · rcases mem_modifyFirst hb with hb | ⟨a, -, hsame, rfl⟩
      · exact h.named b hb hlong
      · rw [G.same_withAttrs, hG.same_withAttrs]
        exact hG.self a item hsame
    · refine pairwise_modifyFirst h.distinct (fun a _ b hab => ?_) fun a b _ hab => ?_
      · rwa [G.same_withAttrs]
      · rwa [hG.same_withAttrs]
    · refine pairwise_modifyFirst h.ordered (fun a ha b hab => ?_) fun a b hb hab => ?_
      · rwa [hfirst a ha]
      · rwa [hfirst b hb]
  · rename_i hnone
    refine ⟨fun b hb => ?_, fun b hb hlong => ?_, ?_, ?_⟩
    · rcases List.mem_append.mp hb with hb | hb
      · exact h.attrs b hb
      · obtain rfl := List.mem_singleton.mp hb
        rw [G.attrs_withAttrs]
        exact ⟨by simp, by simp⟩
    · rcases List.mem_append.mp hb with hb | hb
      · exact h.named b hb hlong
      · obtain rfl := List.mem_singleton.mp hb
        simp [G.attrs_withAttrs] at hlong
    · refine List.pairwise_append.mpr ⟨h.distinct, List.pairwise_singleton _ _, fun a ha b hb => ?_⟩
      obtain rfl := List.mem_singleton.mp hb
      rw [hG.same_withAttrs]
      simpa using fun hsame => hnone (List.any_eq_true.mpr ⟨a, ha, hsame⟩)
    · refine List.pairwise_append.mpr ⟨h.ordered, List.pairwise_singleton _ _, fun a ha b hb => ?_⟩
      obtain rfl := List.mem_singleton.mp hb
      have hlt := firstAt_lt (h.attrs a ha).1 (h.attrs a ha).2
      rw [G.attrs_withAttrs, firstAt_last hfresh]
      simp only [List.length_append, List.length_singleton] at hlt
      omega

-- ---------------------------------------------------------------------------
-- Without repetitions
-- ---------------------------------------------------------------------------

/-- The item with its attributes in the order of `paths`, and each of them once. -/
def tidy (G : Grouping α) (paths : List AttributePath) (item : α) : α :=
  G.withAttrs item (kept (G.attrs item) paths)

theorem mem_tidy (hsub : G.attrs item ⊆ paths) : path ∈ G.attrs (G.tidy paths item) ↔ path ∈ G.attrs item := by
  rw [tidy, G.attrs_withAttrs, kept, List.mem_filter, decide_eq_true_eq]
  exact ⟨And.right, fun h => ⟨hsub h, h⟩⟩

theorem length_tidy (hnodup : paths.Nodup) :
    (G.attrs (G.tidy paths item)).length ≤ (G.attrs item).length := by
  rw [tidy, G.attrs_withAttrs]
  refine (List.subperm_of_subset (hnodup.filter _) fun path hpath => ?_).length_le
  simpa using (List.mem_filter.mp hpath).2

theorem Collected.spelled_tidy (hG : G.ByName) (hnodup : paths.Nodup) (h : G.Collected paths items) :
    G.Spelled paths (items.map (G.tidy paths)) where
  attrs tidied htidied := by
    obtain ⟨item, hitem, rfl⟩ := List.mem_map.mp htidied
    obtain ⟨hne, hsub⟩ := h.attrs item hitem
    obtain ⟨path, hpath⟩ := List.exists_mem_of_ne_nil _ hne
    refine ⟨List.ne_nil_of_mem ((mem_tidy hsub).mpr hpath), ?_⟩
    rw [tidy, G.attrs_withAttrs]
    exact List.filter_sublist
  named tidied htidied hlong := by
    obtain ⟨item, hitem, rfl⟩ := List.mem_map.mp htidied
    rw [tidy, G.same_withAttrs, hG.same_withAttrs]
    exact h.named item hitem (Nat.lt_of_lt_of_le hlong (length_tidy hnodup))
  distinct := List.pairwise_map.mpr <| h.distinct.imp fun {a b} hab => by
    rwa [tidy, tidy, G.same_withAttrs, hG.same_withAttrs]
  ordered := List.pairwise_map.mpr <| h.ordered.imp_of_mem fun {a b} ha hb hle => by
    rwa [firstAt_congr fun path _ => mem_tidy (h.attrs a ha).2,
      firstAt_congr fun path _ => mem_tidy (h.attrs b hb).2]

end Grouping

-- ---------------------------------------------------------------------------
-- Indexes and checks
-- ---------------------------------------------------------------------------

theorem byName_indexGrouping : indexGrouping.ByName where
  same_withAttrs _ _ _ := rfl
  self a b h := by
    simp only [indexGrouping, sameGroup_self, beq_self_eq_true, Bool.true_and]
    simp only [indexGrouping, sameGroup, Bool.and_eq_true] at h
    exact h.2.1

theorem byName_checkGrouping : checkGrouping.ByName where
  same_withAttrs _ _ _ := rfl
  self a b h := by
    simp only [checkGrouping, sameGroup_self]
    simp only [checkGrouping, sameGroup, Bool.and_eq_true] at h
    exact h.1

end SchemaDialects.Markup
