import SchemaDialects.Model

/-!
# Attributes that are found

A path leads to the first attribute of its name on every level. It still leads somewhere when an
attribute on the way is changed without losing its name or what is nested in it
(`KeepsFound.modifyAttribute`), and when attributes are added behind the others.
-/

namespace SchemaDialects

-- ---------------------------------------------------------------------------
-- Trees of attributes
-- ---------------------------------------------------------------------------

theorem attributes_induction {motive : List Attribute → Prop} (nil : motive [])
    (cons : ∀ attr rest, motive attr.nested → motive rest → motive (attr :: rest)) :
    ∀ attrs, motive attrs
  | [] => nil
  | ⟨_, _, _, _, _, nested, _, _⟩ :: rest =>
    cons _ rest (attributes_induction nil cons nested) (attributes_induction nil cons rest)

-- ---------------------------------------------------------------------------
-- Changing one item
-- ---------------------------------------------------------------------------

theorem mem_modifyFirst {p : α → Bool} {f : α → α} (h : b ∈ modifyFirst p f l) :
    b ∈ l ∨ ∃ a ∈ l, p a = true ∧ b = f a := by
  induction l with
  | nil => cases h
  | cons a l ih =>
    rw [modifyFirst] at h
    split at h
    · rename_i ha
      rcases List.mem_cons.mp h with rfl | h
      · exact .inr ⟨a, List.mem_cons_self, ha, rfl⟩
      · exact .inl (List.mem_cons_of_mem _ h)
    · rcases List.mem_cons.mp h with rfl | h
      · exact .inl List.mem_cons_self
      · exact (ih h).imp (List.mem_cons_of_mem _) fun ⟨c, hc, h⟩ => ⟨c, List.mem_cons_of_mem _ hc, h⟩

theorem map_modifyFirst {p : α → Bool} {change : α → α} {key : α → β} (h : ∀ a, p a = true → key (change a) = key a)
    (items : List α) : (modifyFirst p change items).map key = items.map key := by
  induction items with
  | nil => rfl
  | cons a items ih =>
    rw [modifyFirst]
    split
    · rename_i ha
      rw [List.map_cons, List.map_cons, h a ha]
    · rw [List.map_cons, List.map_cons, ih]

theorem modifyFirst_append_left {p : α → Bool} (h : ∀ a ∈ front, p a = false) (back : List α) :
    modifyFirst p change (front ++ back) = front ++ modifyFirst p change back := by
  induction front with
  | nil => rfl
  | cons a front ih =>
    obtain ⟨ha, hfront⟩ := List.forall_mem_cons.mp h
    simp [modifyFirst, ha, ih hfront]

theorem modifyFirst_append {p : α → Bool} (h : ∀ a ∈ before, p a = false) (ha : p a = true) :
    modifyFirst p f (before ++ a :: rest) = before ++ f a :: rest := by
  rw [modifyFirst_append_left h, modifyFirst, if_pos ha]

/-- Only the first item that is meant is changed, in its place. -/
theorem getElem?_modifyFirst (p : α → Bool) (f : α → α) (l : List α) (i : Nat) :
    (modifyFirst p f l)[i]? = l[i]?.map fun a => if p a && !(l.take i).any p then f a else a := by
  induction l generalizing i with
  | nil => rfl
  | cons first rest ih =>
    rw [modifyFirst]
    cases i with
    | zero => cases hp : p first <;> simp [hp]
    | succ i => cases hp : p first <;> simp [hp, ih]

/-- A change behind a map that keeps what is meant. -/
theorem modifyFirst_map {p : α → Bool} {q : β → Bool} {f : α → α} {g : β → β} {k : α → β} {l : List α}
    (hp : ∀ a ∈ l, q (k a) = p a) (hf : ∀ a ∈ l, g (k a) = k (f a)) :
    modifyFirst q g (l.map k) = (modifyFirst p f l).map k := by
  induction l with
  | nil => rfl
  | cons a l ih =>
    obtain ⟨hpa, hpl⟩ := List.forall_mem_cons.mp hp
    obtain ⟨hfa, hfl⟩ := List.forall_mem_cons.mp hf
    rw [List.map_cons, modifyFirst, modifyFirst, hpa, hfa, ih hpl hfl]
    split <;> rfl

-- ---------------------------------------------------------------------------
-- Paths
-- ---------------------------------------------------------------------------

theorem findAttribute?_cons : findAttribute? (attr :: rest) (name :: more) =
    if attr.name = name then
      if more = [] then some attr else findAttribute? attr.nested more
    else findAttribute? rest (name :: more) := by
  by_cases h : attr.name = name <;> cases more <;> simp [findAttribute?, h]

/-- Whether the path leads to an attribute. -/
def Found (attrs : List Attribute) (path : AttributePath) : Prop :=
  (findAttribute? attrs path).isSome = true

theorem found_cons_self {attr : Attribute} : Found (attr :: rest) (attr.name :: more) ↔
    more = [] ∨ Found attr.nested more := by
  unfold Found
  rw [findAttribute?_cons, if_pos rfl]
  by_cases hmore : more = [] <;> simp [hmore]

theorem found_cons_other (h : attr.name ≠ name) :
    Found (attr :: rest) (name :: more) ↔ Found rest (name :: more) := by
  rw [Found, Found, findAttribute?_cons, if_neg h]

theorem not_found_nil : ¬Found [] path := by
  rcases path with _ | ⟨name, _ | _⟩ <;> simp [Found, findAttribute?]

theorem not_found_empty : ¬Found attrs [] := by simp [Found, findAttribute?]

/-- Attributes behind others hide none of them. -/
theorem Found.append (h : Found attrs path) (more : List Attribute) : Found (attrs ++ more) path := by
  cases path with
  | nil => exact absurd h not_found_empty
  | cons name rest =>
    induction attrs with
    | nil => exact absurd h not_found_nil
    | cons attr attrs ih =>
      rw [List.cons_append]
      by_cases hname : attr.name = name
      · subst hname
        exact found_cons_self.mpr (found_cons_self.mp h)
      · exact (found_cons_other hname).mpr (ih ((found_cons_other hname).mp h))

theorem found_singleton {attr : Attribute} (h : attr ∈ attrs) : Found attrs [attr.name] := by
  induction attrs with
  | nil => cases h
  | cons first attrs ih =>
    by_cases hname : first.name = attr.name
    · exact hname ▸ found_cons_self.mpr (.inl rfl)
    · rcases List.mem_cons.mp h with rfl | h
      · exact absurd rfl hname
      · exact (found_cons_other hname).mpr (ih h)

/-- The change of an attribute keeps its name, and what is found inside it is still found. -/
structure KeepsFound (f : Attribute → Attribute) : Prop where
  name : ∀ attr, (f attr).name = attr.name
  nested : ∀ attr path, Found attr.nested path → Found (f attr).nested path

theorem KeepsFound.modifyFirst (hf : KeepsFound f) (p : Attribute → Bool) (h : Found attrs path) :
    Found (modifyFirst p f attrs) path := by
  cases path with
  | nil => exact absurd h not_found_empty
  | cons name more =>
    induction attrs with
    | nil => exact absurd h not_found_nil
    | cons attr attrs ih =>
      rw [SchemaDialects.modifyFirst]
      by_cases hname : attr.name = name
      · subst hname
        have hin := found_cons_self.mp h
        split
        · exact hf.name attr ▸ found_cons_self.mpr (hin.imp_right (hf.nested attr more))
        · exact found_cons_self.mpr hin
      · have hbehind := (found_cons_other hname).mp h
        split
        · exact (found_cons_other (hf.name attr ▸ hname)).mpr hbehind
        · exact (found_cons_other hname).mpr (ih hbehind)

theorem KeepsFound.modifyAttribute (hf : KeepsFound f) (place : AttributePath) (h : Found attrs path) :
    Found (modifyAttribute f attrs place) path := by
  induction place generalizing attrs path with
  | nil => exact h
  | cons name place ih =>
    cases place with
    | nil => exact hf.modifyFirst _ h
    | cons next place =>
      have hinside : KeepsFound fun attr =>
          { attr with nested := SchemaDialects.modifyAttribute f attr.nested (next :: place) } :=
        ⟨fun _ => rfl, fun attr path hfound => ih hfound⟩
      exact hinside.modifyFirst _ h

theorem modifyFirst_of_not_found (h : Entity.hasAttribute table [name] = false) (f : Attribute → Attribute) :
    modifyFirst (·.name == name) f table.attrs = table.attrs := by
  have hnone : ∀ attr ∈ table.attrs, (attr.name == name) = false := by
    intro attr hattr
    refine beq_eq_false_iff_ne.mpr fun hname => ?_
    have hfound : table.hasAttribute [name] = true := hname ▸ found_singleton hattr
    exact absurd (hfound.symm.trans h) (by decide)
  have hkept : modifyFirst (·.name == name) f (table.attrs ++ []) = table.attrs ++ [] :=
    modifyFirst_append_left hnone []
  rwa [List.append_nil] at hkept

end SchemaDialects
