import Mathlib.Data.List.Find
import Mathlib.Data.List.Nodup
import SchemaDialects.Diff

/-!
# Tables of first items

`mem_keyed`: the table of a collection holds, for every key, the first item that has it. The keys of a
table ascend strictly, so each stands in it once and `takeOut?` removes one entry and no other.
-/

namespace SchemaDialects

open Std

variable {α κ : Type}

/-- The first item that has a key. -/
def firstAt? [DecidableEq κ] (key : α → κ) (items : List α) (k : κ) : Option α :=
  items.find? fun a => key a = k

section
variable [DecidableEq κ] {key : α → κ}

theorem key_of_firstAt? (h : firstAt? key items k = some a) : key a = k := by
  simpa using List.find?_some h

theorem mem_of_firstAt? (h : firstAt? key items k = some a) : a ∈ items :=
  List.mem_of_find?_eq_some h

@[simp] theorem firstAt?_nil : firstAt? key [] k = none := rfl

theorem firstAt?_cons :
    firstAt? key (a :: items) k = if key a = k then some a else firstAt? key items k := by
  by_cases h : key a = k <;> simp [firstAt?, h]

theorem firstAt?_eq_none : firstAt? key items k = none ↔ ∀ a ∈ items, key a ≠ k := by
  simp [firstAt?]

/-- The first item of a key is found among all items that may have this key. -/
theorem firstAt?_filter {p : α → Bool} (h : ∀ a ∈ items, key a = k → p a = true) :
    firstAt? key (items.filter p) k = firstAt? key items k := by
  induction items with
  | nil => rfl
  | cons a items ih =>
    obtain ⟨hfirst, hmore⟩ := List.forall_mem_cons.mp h
    rw [firstAt?_cons, ← ih hmore]
    cases hp : p a with
    | true => rw [List.filter_cons_of_pos hp, firstAt?_cons]
    | false =>
      have hne : key a ≠ k := fun heq => by simp [hfirst heq] at hp
      rw [List.filter_cons_of_neg (by simp [hp]), if_neg hne]

/-- Where no key repeats, every item is the first one of its key. -/
theorem firstAt?_of_nodup (hkeys : (items.map key).Nodup) (ha : a ∈ items) :
    firstAt? key items (key a) = some a := by
  induction items with
  | nil => cases ha
  | cons b items ih =>
    obtain ⟨hfresh, hkeys⟩ := List.nodup_cons.mp hkeys
    cases ha with
    | head => simp [firstAt?_cons]
    | tail _ ha =>
      have hne : key b ≠ key a := fun heq => hfresh (heq ▸ List.mem_map_of_mem ha)
      simp [firstAt?_cons, hne, ih hkeys ha]

/-- Of items with distinct keys, the same ones are found in every order. -/
theorem firstAt?_perm {left right : List α} (h : left.Perm right) (hkeys : (left.map key).Nodup) (k : κ) :
    firstAt? key left k = firstAt? key right k := by
  refine List.find?_eq_find?_of_perm h fun a ha b hb => ?_
  have hka : key a = k := of_decide_eq_true ha.2
  have hkb : key b = k := of_decide_eq_true hb.2
  exact List.inj_on_of_nodup_map hkeys ha.1 hb.1 (hka.trans hkb.symm)

end

-- ---------------------------------------------------------------------------
-- Building a table
-- ---------------------------------------------------------------------------

/-- What a table is ordered by: its keys ascend strictly. -/
def Ascending [Ord κ] (table : List (κ × α)) : Prop :=
  table.Pairwise fun a b => compare a.1 b.1 = .lt

section
variable [Ord κ] [TransOrd κ] [LawfulEqOrd κ] {t : List (κ × α)}

theorem mem_insertNew (ht : Ascending t) :
    (k, a) ∈ insertNew key item t ↔
      (k, a) ∈ t ∨ (k = key ∧ a = item ∧ ∀ e ∈ t, e.1 ≠ key) := by
  induction t with
  | nil => simp [insertNew]
  | cons e t ih =>
    obtain ⟨hlt, ht⟩ := List.pairwise_cons.mp ht
    simp only [insertNew]
    split
    · rename_i hkey
      -- A key before the first entry is before all of them.
      have hnew : ∀ e' ∈ e :: t, e'.1 ≠ key := by
        intro e' he' heq
        rcases List.mem_cons.mp he' with rfl | he'
        · simp [heq, ReflCmp.compare_self] at hkey
        · have := TransCmp.lt_trans hkey (hlt e' he')
          simp [heq, ReflCmp.compare_self] at this
      rw [List.mem_cons, Prod.mk.injEq]
      constructor
      · rintro (⟨rfl, rfl⟩ | h)
        · exact .inr ⟨rfl, rfl, hnew⟩
        · exact .inl h
      · rintro (h | ⟨rfl, rfl, -⟩)
        · exact .inr h
        · exact .inl ⟨rfl, rfl⟩
    · rename_i hkey
      have heq := LawfulEqCmp.eq_of_compare hkey
      simp only [List.mem_cons]
      constructor
      · exact .inl
      · rintro (h | ⟨-, -, hne⟩)
        · exact h
        · exact absurd heq.symm (hne e (.inl rfl))
    · rename_i hkey
      have hne : e.1 ≠ key := by
        rintro rfl
        simp [ReflCmp.compare_self] at hkey
      simp only [List.mem_cons, ih ht]
      constructor
      · rintro (h | h | ⟨rfl, rfl, h⟩)
        · exact .inl (.inl h)
        · exact .inl (.inr h)
        · refine .inr ⟨rfl, rfl, ?_⟩
          rintro e' (rfl | he')
          · exact hne
          · exact h e' he'
      · rintro ((h | h) | ⟨rfl, rfl, h⟩)
        · exact .inl h
        · exact .inr (.inl h)
        · exact .inr (.inr ⟨rfl, rfl, fun e' he' => h e' (.inr he')⟩)

theorem insertNew_ascending (ht : Ascending t) : Ascending (insertNew key item t) := by
  induction t with
  | nil => simp [insertNew, Ascending]
  | cons e t ih =>
    obtain ⟨hlt, htail⟩ := List.pairwise_cons.mp ht
    simp only [insertNew]
    split
    · rename_i hkey
      refine List.pairwise_cons.mpr ⟨fun e' he' => ?_, ht⟩
      rcases List.mem_cons.mp he' with rfl | he'
      · exact hkey
      · exact TransCmp.lt_trans hkey (hlt e' he')
    · exact ht
    · rename_i hkey
      refine List.pairwise_cons.mpr ⟨?_, ih htail⟩
      rintro ⟨k, a⟩ he'
      rcases (mem_insertNew htail).mp he' with he' | ⟨rfl, rfl, -⟩
      · exact hlt _ he'
      · exact OrientedCmp.gt_iff_lt.mp hkey

theorem foldl_insertNew_ascending {key : α → κ} {items : List α} (ht : Ascending t) :
    Ascending (items.foldl (fun t item => insertNew (key item) item t) t) := by
  induction items generalizing t with
  | nil => exact ht
  | cons item items ih => exact ih (insertNew_ascending ht)

theorem keyed_ascending {key : α → κ} {items : List α} : Ascending (keyed key items) :=
  foldl_insertNew_ascending .nil

variable [DecidableEq κ] {key : α → κ} {items : List α}

/-- What remains to be inserted does not move what is there: the induction is on the items, over
every table that was reached before them. -/
theorem mem_foldl_insertNew (ht : Ascending t) :
    (k, a) ∈ items.foldl (fun t item => insertNew (key item) item t) t ↔
      (k, a) ∈ t ∨ (firstAt? key items k = some a ∧ ∀ e ∈ t, e.1 ≠ k) := by
  induction items generalizing t with
  | nil => simp
  | cons item items ih =>
    refine (ih (insertNew_ascending ht)).trans ?_
    have hkeys : (∀ e ∈ insertNew (key item) item t, e.1 ≠ k) ↔
        (∀ e ∈ t, e.1 ≠ k) ∧ key item ≠ k := by
      constructor
      · intro h
        have hold : ∀ e ∈ t, e.1 ≠ k := fun e he => h e ((mem_insertNew ht).mpr (.inl he))
        refine ⟨hold, ?_⟩
        rintro rfl
        exact h _ ((mem_insertNew ht).mpr (.inr ⟨rfl, rfl, hold⟩)) rfl
      · rintro ⟨hold, hne⟩ e he
        rcases (mem_insertNew ht).mp he with he | ⟨he, -⟩
        · exact hold e he
        · exact he ▸ hne
    rw [mem_insertNew ht, hkeys, firstAt?_cons]
    by_cases hk : key item = k
    · simp only [hk, ne_eq, not_true_eq_false, and_false, or_false, ↓reduceIte, Option.some.injEq,
        true_and, eq_comm]
    · simp only [Ne.symm hk, false_and, or_false, hk, ne_eq, not_false_eq_true, and_true, ↓reduceIte]

theorem mem_keyed : (k, a) ∈ keyed key items ↔ firstAt? key items k = some a := by
  rw [keyed, mem_foldl_insertNew .nil]
  simp

theorem key_of_mem_keyed (h : e ∈ keyed key items) : e.1 = key e.2 :=
  (key_of_firstAt? (mem_keyed.mp h)).symm

theorem not_mem_keyed : (∀ e ∈ keyed key items, e.1 ≠ k) ↔ firstAt? key items k = none := by
  constructor
  · intro h
    refine Option.eq_none_iff_forall_ne_some.mpr fun a ha => ?_
    exact h (k, a) (mem_keyed.mpr ha) rfl
  · rintro h ⟨k', a⟩ he rfl
    simp [mem_keyed.mp he] at h

end

-- ---------------------------------------------------------------------------
-- Taking entries out
-- ---------------------------------------------------------------------------

section
variable [Ord κ] [LawfulEqOrd κ] [DecidableEq κ] {t : List (κ × α)}

/-- Whether a key stands in the table. -/
def hasKey (t : List (κ × α)) (k : κ) : Bool :=
  t.any fun e => e.1 = k

omit [Ord κ] [LawfulEqOrd κ] in
theorem hasKey_eq_false : hasKey t k = false ↔ ∀ e ∈ t, e.1 ≠ k := by
  simp [hasKey]

theorem takeOut?_cons : takeOut? k (e :: t) =
    if e.1 = k then some (e.2, t)
    else (takeOut? k t).map fun (b, others) => (b, e :: others) := by
  by_cases h : e.1 = k
  · simp [takeOut?, h, ReflCmp.compare_self]
  · simp [takeOut?, h, Ne.symm h]

theorem takeOut?_eq_none : takeOut? k t = none ↔ hasKey t k = false := by
  induction t with
  | nil => simp [takeOut?, hasKey]
  | cons e t ih =>
    by_cases h : e.1 = k
    · simp [takeOut?_cons, hasKey, h]
    · simpa [takeOut?_cons, hasKey, h] using ih

omit [DecidableEq κ] in
theorem Ascending.tail_ne (h : Ascending (e :: t)) : ∀ e' ∈ t, e'.1 ≠ e.1 := by
  intro e' he' heq
  have := (List.pairwise_cons.mp h).1 e' he'
  simp [heq, ReflCmp.compare_self] at this

theorem takeOut?_eq_some (ht : Ascending t) (h : takeOut? k t = some (a, others)) :
    (k, a) ∈ t ∧ others = t.filter (·.1 ≠ k) := by
  induction t generalizing others with
  | nil => simp [takeOut?] at h
  | cons e t ih =>
    rw [takeOut?_cons] at h
    split at h
    · rename_i hk
      cases h
      subst hk
      refine ⟨List.mem_cons_self, ?_⟩
      simpa using (List.filter_eq_self.mpr fun e' he' => by simpa using ht.tail_ne e' he').symm
    · rename_i hk
      obtain ⟨⟨b, rest⟩, hrest, heq⟩ := Option.map_eq_some_iff.mp h
      cases heq
      obtain ⟨hmem, rfl⟩ := ih ht.of_cons hrest
      exact ⟨List.mem_cons_of_mem _ hmem, by simp [hk]⟩

end

-- ---------------------------------------------------------------------------
-- Classifying the keys of two tables
-- ---------------------------------------------------------------------------

section
variable [Ord κ] [LawfulEqOrd κ] [DecidableEq κ] [BEq α] {l r : List (κ × α)}

/-- The two items of every key that stands in both tables with different content. -/
def changedPairs (l r : List (κ × α)) : List (κ × α × α) :=
  l.filterMap fun e => (takeOut? e.1 r).bind fun (b, _) =>
    if e.2 == b then none else some (e.1, e.2, b)

omit [BEq α] in
/-- Taking an entry out of the right table hides no entry from the keys that follow on the left. -/
theorem takeOut?_filter (hr : Ascending r) (hk : k ≠ k₀) :
    (takeOut? k (r.filter (·.1 ≠ k₀))).map Prod.fst = (takeOut? k r).map Prod.fst := by
  induction r with
  | nil => rfl
  | cons e r ih =>
    have ih := ih hr.of_cons
    by_cases he₀ : e.1 = k₀
    · have hne : e.1 ≠ k := fun h => hk (h.symm.trans he₀)
      rw [List.filter_cons_of_neg (by simp [he₀]), takeOut?_cons, if_neg hne, ih]
      cases takeOut? k r <;> rfl
    · rw [List.filter_cons_of_pos (by simp [he₀]), takeOut?_cons, takeOut?_cons]
      split
      · rfl
      · simpa [Option.map_map, Function.comp_def] using ih

theorem changedPairs_filter (hr : Ascending r) (hl : ∀ e ∈ l, e.1 ≠ k₀) :
    changedPairs l (r.filter (·.1 ≠ k₀)) = changedPairs l r := by
  refine List.filterMap_congr fun e he => ?_
  have h := takeOut?_filter hr (hl e he)
  cases h₁ : takeOut? e.1 (r.filter (·.1 ≠ k₀)) with
  | none =>
    rw [h₁, Option.map_none, eq_comm, Option.map_eq_none_iff] at h
    simp [h]
  | some p =>
    rw [h₁, Option.map_some, eq_comm] at h
    obtain ⟨q, hq, hqp⟩ := Option.map_eq_some_iff.mp h
    simp [hq, hqp]

/-- The three lists of `classify`, each read off the two tables alone. -/
theorem classify_eq (hl : Ascending l) (hr : Ascending r) : classify changed l r = {
    left := (l.filter fun e => !hasKey r e.1).map (·.2)
    right := (r.filter fun e => !hasKey l e.1).map (·.2)
    both := (changedPairs l r).map fun p => changed p.2.1 p.2.2 } := by
  induction l generalizing r with
  | nil => simp [classify, changedPairs, hasKey]
  | cons e l ih =>
    have hne := hl.tail_ne
    cases h : takeOut? e.1 r with
    | none =>
      have hnone := takeOut?_eq_none.mp h
      have hright : (r.filter fun e' => !hasKey (e :: l) e'.1) =
          r.filter fun e' => !hasKey l e'.1 := by
        refine List.filter_congr fun e' he' => ?_
        simp [hasKey, (hasKey_eq_false.mp hnone e' he').symm]
      rw [classify, h, ih hl.of_cons hr, hright, List.filter_cons_of_pos (by simp [hnone])]
      simp [changedPairs, h]
    | some p =>
      obtain ⟨b, others⟩ := p
      obtain ⟨hmem, rfl⟩ := takeOut?_eq_some hr h
      have hkey : hasKey r e.1 = true := by simpa [hasKey] using ⟨b, hmem⟩
      have hleft : (l.filter fun e' => !hasKey (r.filter (·.1 ≠ e.1)) e'.1) =
          l.filter fun e' => !hasKey r e'.1 := by
        refine List.filter_congr fun e' he' => congrArg _ ?_
        simp only [hasKey, List.any_filter]
        congr 1
        funext e''
        by_cases heq : e''.1 = e'.1 <;> simp [heq, hne e' he']
      have hright : ((r.filter (·.1 ≠ e.1)).filter fun e' => !hasKey l e'.1) =
          r.filter fun e' => !hasKey (e :: l) e'.1 := by
        rw [List.filter_filter]
        refine List.filter_congr fun e' he' => ?_
        by_cases heq : e'.1 = e.1 <;> simp [hasKey, heq, eq_comm]
      have ih := ih hl.of_cons (hr.filter (·.1 ≠ e.1))
      rw [hleft, hright, changedPairs_filter hr hne] at ih
      rw [classify, h, List.filter_cons_of_neg (by simp [hkey])]
      dsimp only
      rw [ih]
      cases hab : e.2 == b <;> simp [changedPairs, h, hab]

end

end SchemaDialects
