import SchemaDialects.Proofs.Markup.Rows

/-!
# Constraints found together again

A key, an index or a check is written at each of its attributes, and its attributes are read back one
by one. `Grouping` is what indexes and checks have in common; after the attributes `done` an item has
those of its attributes that are among them, if there are any (`Grouping.upTo`). Each attribute leads
from one such state to the next (`Grouping.foldl_addTo`), if the items stand in the order of their first
attributes and those with several attributes have names of their own.
-/

namespace SchemaDialects.Markup

/-- Those of the attributes that have been read. -/
def kept (done attrs : List AttributePath) : List AttributePath := attrs.filter (· ∈ done)

/-- The next attribute is added at the end of those that were kept. -/
theorem kept_append {attrs done rest : List AttributePath} (hnodup : (done ++ path :: rest).Nodup)
    (hsub : attrs.Sublist (done ++ path :: rest)) (hpath : path ∈ attrs) :
    kept (done ++ [path]) attrs = kept done attrs ++ [path] := by
  obtain ⟨hdone, hrest, hdisjoint⟩ := List.nodup_append.mp hnodup
  obtain ⟨hfresh, -⟩ := List.nodup_cons.mp hrest
  have hnew : path ∉ done := fun hmem => hdisjoint path hmem path List.mem_cons_self rfl
  obtain ⟨front, back, rfl, hfront, hback⟩ := List.sublist_append_iff.mp hsub
  have hmem : path ∈ back := (List.mem_append.mp hpath).resolve_left fun h => hnew (hfront.subset h)
  obtain ⟨later, rfl, hlater⟩ : ∃ later, back = path :: later ∧ later.Sublist rest := by
    cases hback with
    | cons _ h => exact absurd (h.subset hmem) hfresh
    | cons_cons _ h => exact ⟨_, rfl, h⟩
  have hbehind : ∀ p ∈ later, p ∉ done ∧ p ≠ path := by
    intro p hp
    have hp := hlater.subset hp
    exact ⟨fun h => hdisjoint p h p (List.mem_cons_of_mem _ hp) rfl, fun h => hfresh (h ▸ hp)⟩
  have hfrontAll : ∀ p ∈ front, p ∈ done := fun p hp => hfront.subset hp
  have hkeep : ∀ q : AttributePath → Bool, (∀ p ∈ front, q p = true) → (∀ p ∈ later, q p = false) →
      (front ++ path :: later).filter q = front ++ if q path then [path] else [] := by
    intro q hyes hno
    rw [List.filter_append, List.filter_eq_self.mpr hyes, List.filter_cons,
      List.filter_eq_nil_iff.mpr fun p hp => by simp [hno p hp]]
  rw [kept, kept, hkeep _ (fun p hp => by simp [hfrontAll p hp])
      (fun p hp => by simpa using hbehind p hp),
    hkeep _ (fun p hp => by simp [hfrontAll p hp]) (fun p hp => by simpa using (hbehind p hp).1)]
  simp [hnew]

theorem kept_append_of_not_mem (h : path ∉ attrs) :
    kept (done ++ [path]) attrs = kept done attrs := by
  refine List.filter_congr fun p hp => ?_
  have : p ≠ path := fun heq => h (heq ▸ hp)
  simp [this]

theorem kept_eq_self (h : ∀ p ∈ attrs, p ∈ done) : kept done attrs = attrs :=
  List.filter_eq_self.mpr fun p hp => by simpa using h p hp

/-- Where the first of the attributes stands. -/
def firstAt (paths attrs : List AttributePath) : Nat := paths.findIdx (· ∈ attrs)

theorem firstAt_eq (hpath : path ∈ attrs) (hkept : kept done attrs = []) :
    firstAt (done ++ path :: rest) attrs = done.length := by
  have hbefore : ∀ p ∈ done, decide (p ∈ attrs) = false := fun p hp => by
    have := List.filter_eq_nil_iff.mp hkept
    simpa using fun hmem => this p hmem (by simpa using hp)
  have hnot : done.findIdx (· ∈ attrs) = done.length :=
    List.findIdx_eq_length.mpr hbefore
  rw [firstAt, List.findIdx_append, if_neg (by simp [hnot]), List.findIdx_cons]
  simp [hpath]

-- ---------------------------------------------------------------------------
-- Groupings
-- ---------------------------------------------------------------------------

/-- Items with attributes, of which two can be the same one written twice. -/
structure Grouping (α : Type) where
  attrs : α → List AttributePath
  withAttrs : α → List AttributePath → α
  /-- Whether the second item, as it is written at an attribute, takes part in the first. -/
  same : α → α → Bool
  attrs_withAttrs : ∀ item paths, attrs (withAttrs item paths) = paths
  withAttrs_withAttrs : ∀ item paths paths', withAttrs (withAttrs item paths) paths' = withAttrs item paths'
  withAttrs_attrs : ∀ item, withAttrs item (attrs item) = item
  same_withAttrs : ∀ item item' paths, same (withAttrs item paths) item' = same item item'

namespace Grouping

variable {α : Type} (G : Grouping α)

def addTo (path : AttributePath) (groups : List α) (item : α) : List α :=
  addToGroup (G.same · item) (fun group => G.withAttrs group (G.attrs group ++ [path]))
    (G.withAttrs item [path]) groups

/-- The item after the attributes `done`. -/
def part (done : List AttributePath) (item : α) : Option α :=
  if kept done (G.attrs item) = [] then none
  else some (G.withAttrs item (kept done (G.attrs item)))

def upTo (done : List AttributePath) (items : List α) : List α := items.filterMap (G.part done)

/-- Items that can be told apart when they are written at their attributes, which stand in `paths`. -/
structure Spelled (paths : List AttributePath) (items : List α) : Prop where
  attrs : ∀ item ∈ items, G.attrs item ≠ [] ∧ (G.attrs item).Sublist paths
  named : ∀ item ∈ items, 1 < (G.attrs item).length → G.same item item = true
  distinct : items.Pairwise fun a b => G.same a b = false
  ordered : items.Pairwise fun a b => firstAt paths (G.attrs a) ≤ firstAt paths (G.attrs b)

variable {G}

theorem mem_upTo (h : group ∈ G.upTo done items) :
    ∃ item ∈ items, group = G.withAttrs item (kept done (G.attrs item)) := by
  obtain ⟨item, hitem, hpart⟩ := List.mem_filterMap.mp h
  rw [part] at hpart
  split at hpart
  · cases hpart
  · exact ⟨item, hitem, (Option.some.inj hpart).symm⟩

theorem upTo_nil (items : List α) : G.upTo [] items = [] := by
  refine List.filterMap_eq_nil_iff.mpr fun item _ => ?_
  simp [part, kept]

theorem upTo_all {items : List α} (h : G.Spelled paths items) : G.upTo paths items = items := by
  have hpart : ∀ item ∈ items, G.part paths item = some item := by
    intro item hitem
    obtain ⟨hne, hsub⟩ := h.attrs item hitem
    rw [part, kept_eq_self fun p hp => hsub.subset hp, if_neg hne, G.withAttrs_attrs]
  rw [upTo, List.filterMap_congr hpart, List.filterMap_some]

/-- The items behind one that begins at `path` have not begun before it. -/
theorem upTo_later (h : ∀ item ∈ items, done.length ≤ firstAt (done ++ rest) (G.attrs item)) :
    G.upTo done items = [] := by
  refine List.filterMap_eq_nil_iff.mpr fun item hitem => ?_
  have hnone : kept done (G.attrs item) = [] := by
    refine List.filter_eq_nil_iff.mpr fun p hp => ?_
    rw [decide_eq_true_eq]
    intro hdone
    obtain ⟨i, hi, rfl⟩ := List.mem_iff_getElem.mp hdone
    have hlt := Nat.lt_of_lt_of_le hi (h item hitem)
    have := List.not_of_lt_findIdx hlt
    rw [List.getElem_append_left hi] at this
    simp [hp] at this
  rw [part, if_pos hnone]

/-- An attribute behind others of the item makes it an item of several. -/
theorem length_of_kept_append {attrs : List AttributePath}
    (hkept : kept (done ++ [path]) attrs = kept done attrs ++ [path])
    (hbegun : kept done attrs ≠ []) : 1 < attrs.length := by
  have hle : (kept (done ++ [path]) attrs).length ≤ attrs.length := List.filter_sublist.length_le
  rw [hkept, List.length_append, List.length_singleton] at hle
  have := List.length_pos_iff.mpr hbegun
  omega

/-- One more item at the attribute `path`; those before it have been taken in. -/
theorem addTo_part {paths : List AttributePath} (hpaths : paths = done ++ path :: rest)
    (hnodup : paths.Nodup) (h : G.Spelled paths (before ++ item :: after))
    (hpath : path ∈ G.attrs item) :
    G.addTo path (G.upTo (done ++ [path]) before ++ G.upTo done (item :: after)) item =
      G.upTo (done ++ [path]) (before ++ [item]) ++ G.upTo done after := by
  obtain ⟨hne, hsub⟩ := h.attrs item (by simp)
  have hkept : kept (done ++ [path]) (G.attrs item) = kept done (G.attrs item) ++ [path] :=
    kept_append (hpaths ▸ hnodup) (hpaths ▸ hsub) hpath
  have hpart : G.part (done ++ [path]) item =
      some (G.withAttrs item (kept done (G.attrs item) ++ [path])) := by
    rw [part, hkept, if_neg (by simp)]
  have hresult : G.upTo (done ++ [path]) (before ++ [item]) = G.upTo (done ++ [path]) before ++
      [G.withAttrs item (kept done (G.attrs item) ++ [path])] := by
    simp [upTo, hpart]
  have hother : ∀ group ∈ G.upTo (done ++ [path]) before, G.same group item = false := by
    intro group hgroup
    obtain ⟨b, hb, rfl⟩ := mem_upTo hgroup
    rw [G.same_withAttrs]
    exact (List.pairwise_append.mp h.distinct).2.2 b hb item List.mem_cons_self
  by_cases hnone : kept done (G.attrs item) = []
  · have hlater : ∀ a ∈ item :: after, done.length ≤ firstAt (done ++ path :: rest) (G.attrs a) := by
      have hfirst : firstAt (done ++ path :: rest) (G.attrs item) = done.length := firstAt_eq hpath hnone
      refine List.forall_mem_cons.mpr ⟨Nat.le_of_eq hfirst.symm, fun a ha => ?_⟩
      have hle := (List.pairwise_cons.mp (List.pairwise_append.mp h.ordered).2.1).1 a ha
      rwa [hpaths, hfirst] at hle
    have hcons : G.upTo done (item :: after) = [] := upTo_later hlater
    have hafter : G.upTo done after = [] := upTo_later (List.forall_mem_cons.mp hlater).2
    have hany : (G.upTo (done ++ [path]) before).any (G.same · item) = false :=
      List.any_eq_false.mpr fun group hgroup => by simp [hother group hgroup]
    rw [hcons, List.append_nil, addTo, addToGroup, if_neg (by simp [hany]), hresult, hafter, hnone]
    simp
  · have hcons : G.upTo done (item :: after) =
        G.withAttrs item (kept done (G.attrs item)) :: G.upTo done after := by
      rw [upTo, List.filterMap_cons_some (by rw [part, if_neg hnone])]
      rfl
    have hlong : 1 < (G.attrs item).length := length_of_kept_append hkept hnone
    have hsame : G.same (G.withAttrs item (kept done (G.attrs item))) item = true := by
      rw [G.same_withAttrs]
      exact h.named item (by simp) hlong
    have hany : (G.upTo (done ++ [path]) before ++
        G.withAttrs item (kept done (G.attrs item)) :: G.upTo done after).any (G.same · item) =
          true := by
      simp [hsame]
    rw [hcons, addTo, addToGroup, if_pos hany, modifyFirst_append hother hsame, hresult,
      G.attrs_withAttrs, G.withAttrs_withAttrs]
    simp

theorem foldl_addTo_behind {paths : List AttributePath} (hpaths : paths = done ++ path :: rest)
    (hnodup : paths.Nodup) (h : G.Spelled paths (before ++ items)) :
    (items.filter fun item => (G.attrs item).contains path).foldl (G.addTo path)
        (G.upTo (done ++ [path]) before ++ G.upTo done items) =
      G.upTo (done ++ [path]) (before ++ items) := by
  induction items generalizing before with
  | nil => simp [upTo]
  | cons item after ih =>
    have ih := @ih (before ++ [item]) (by simpa using h)
    rw [List.append_assoc, List.singleton_append] at ih
    by_cases hpath : path ∈ G.attrs item
    · rw [List.filter_cons_of_pos (by simpa using hpath), List.foldl_cons,
        addTo_part hpaths hnodup h hpath, ih]
    · have hpart : G.part (done ++ [path]) item = G.part done item := by
        rw [part, part, kept_append_of_not_mem hpath]
      have hstate : G.upTo (done ++ [path]) before ++ G.upTo done (item :: after) =
          G.upTo (done ++ [path]) (before ++ [item]) ++ G.upTo done after := by
        simp only [upTo, List.filterMap_append, List.filterMap_cons, List.filterMap_nil, hpart,
          List.append_assoc]
        cases G.part done item <;> rfl
      rw [List.filter_cons_of_neg (by simpa using hpath), hstate, ih]

/-- The items that are written at `path` lead from the state before it to the state behind it. -/
theorem foldl_addTo {paths : List AttributePath} (hpaths : paths = done ++ path :: rest)
    (hnodup : paths.Nodup) (h : G.Spelled paths items) :
    (items.filter fun item => (G.attrs item).contains path).foldl (G.addTo path)
      (G.upTo done items) = G.upTo (done ++ [path]) items :=
  foldl_addTo_behind hpaths hnodup (show G.Spelled paths ([] ++ items) from h)

end Grouping

-- ---------------------------------------------------------------------------
-- Indexes, checks and keys
-- ---------------------------------------------------------------------------

theorem sameGroup_self (name : Option String) : sameGroup name name = name.isSome := by
  simp [sameGroup]

def indexGrouping : Grouping Index where
  attrs := Index.attrs
  withAttrs i paths := { i with attrs := paths }
  same a b := a.unique == b.unique && sameGroup a.name b.name
  attrs_withAttrs _ _ := rfl
  withAttrs_withAttrs _ _ _ := rfl
  withAttrs_attrs _ := rfl
  same_withAttrs _ _ _ := rfl

def checkGrouping : Grouping Check where
  attrs := Check.attrs
  withAttrs c paths := { c with attrs := paths }
  same a b := sameGroup a.name b.name
  attrs_withAttrs _ _ := rfl
  withAttrs_withAttrs _ _ _ := rfl
  withAttrs_attrs _ := rfl
  same_withAttrs _ _ _ := rfl

theorem addToIndex_eq (hcondition : i.condition = none) (hdefinition : i.definition = none)
    (hdoc : i.doc = none) : addToIndex path groups (i.name, i.unique) =
      indexGrouping.addTo path groups i := by
  obtain ⟨name, attrs, unique, condition, definition, doc⟩ := i
  subst hcondition hdefinition hdoc
  rfl

theorem addToCheck_eq (hdoc : c.doc = none) :
    addToCheck path groups (c.name, c.predicate) = checkGrouping.addTo path groups c := by
  obtain ⟨name, attrs, predicate, doc⟩ := c
  subst hdoc
  rfl

/-- The primary key after the attributes `done`. -/
def keyUpTo (done : List AttributePath) (key : Option PrimaryKey) : Option PrimaryKey :=
  key.bind fun key =>
    if kept done key.attrs = [] then none else some { key with attrs := kept done key.attrs }

theorem keyUpTo_nil (key : Option PrimaryKey) : keyUpTo [] key = none := by
  cases key <;> simp [keyUpTo, kept]

theorem keyUpTo_all {key : Option PrimaryKey}
    (h : ∀ k ∈ key, k.attrs ≠ [] ∧ k.attrs.Sublist paths) : keyUpTo paths key = key := by
  cases key with
  | none => rfl
  | some key =>
    obtain ⟨hne, hsub⟩ := h key rfl
    rw [keyUpTo, Option.bind_some, kept_eq_self fun p hp => hsub.subset hp, if_neg hne]

theorem keyUpTo_append {paths : List AttributePath} {key : PrimaryKey}
    (hpaths : paths = done ++ path :: rest) (hnodup : paths.Nodup) (hsub : key.attrs.Sublist paths)
    (hpath : path ∈ key.attrs) :
    keyUpTo (done ++ [path]) (some key) = some (addToKey path key.name (keyUpTo done (some key))) := by
  have hkept : kept (done ++ [path]) key.attrs = kept done key.attrs ++ [path] :=
    kept_append (hpaths ▸ hnodup) (hpaths ▸ hsub) hpath
  simp only [keyUpTo, Option.bind_some, hkept]
  by_cases hnone : kept done key.attrs = []
  · simp [hnone, addToKey]
  · simp [hnone, addToKey]

theorem keyUpTo_append_of_not_mem {key : Option PrimaryKey} (h : ∀ k ∈ key, path ∉ k.attrs) :
    keyUpTo (done ++ [path]) key = keyUpTo done key := by
  cases key with
  | none => rfl
  | some key => simp only [keyUpTo, Option.bind_some, kept_append_of_not_mem (h key rfl)]

end SchemaDialects.Markup
