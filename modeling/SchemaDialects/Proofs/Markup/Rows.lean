import Mathlib.Data.List.Nodup
import SchemaDialects.Markup.Reader
import SchemaDialects.Markup.Writer
import SchemaDialects.Proofs.Lookup

/-!
# Attributes in the order of their lines

The lines of an entity hold its attributes one by one, each behind the one it is nested in. Attaching
them one after the other in this order gives the tree back (`attachAll_rows`), if siblings have
different names, that is, if no two attributes have the same path.
-/

namespace SchemaDialects.Markup

/-- An attribute without those nested in it, and the path of what it is nested in. -/
structure Row where
  parent : AttributePath
  attr : Attribute

def Row.path (r : Row) : AttributePath := r.parent ++ [r.attr.name]

/-- The attributes inside `parent` and those nested in them, in the order of their lines. -/
def rowsIn (parent : AttributePath) : List Attribute → List Row
  | [] => []
  | ⟨name, type, nullable, generated, defaultValue, nested, doc, extra⟩ :: rest =>
    let attr : Attribute := { name, type, nullable, generated, defaultValue, doc, extra }
    ⟨parent, attr⟩ :: (rowsIn (parent ++ [name]) nested ++ rowsIn parent rest)

/-- The attribute without those nested in it. -/
def alone (attr : Attribute) : Attribute := { attr with nested := [] }

@[simp] theorem rowsIn_nil : rowsIn parent [] = [] := by rw [rowsIn]

theorem rowsIn_cons (parent : AttributePath) (attr : Attribute) (rest : List Attribute) :
    rowsIn parent (attr :: rest) = ⟨parent, alone attr⟩ ::
      (rowsIn (parent ++ [attr.name]) attr.nested ++ rowsIn parent rest) := by
  cases attr
  rw [rowsIn]
  rfl

/-- The paths of all attributes. -/
def pathsOf (attrs : List Attribute) : List AttributePath := (rowsIn [] attrs).map Row.path

theorem attributesLines_cons : attributesLines e relations parent (attr :: rest) =
    (indentation (parent ++ [attr.name]).length ++
        attributeText e relations (parent ++ [attr.name]) (alone attr)) ::
      (attributesLines e relations (parent ++ [attr.name]) attr.nested ++
        attributesLines e relations parent rest) := by
  cases attr
  rw [attributesLines, attributeLines]
  rfl

theorem attributesLines_eq (e : Entity) (relations : List Relation) (parent : AttributePath)
    (attrs : List Attribute) : attributesLines e relations parent attrs = (rowsIn parent attrs).map
      fun r => indentation r.path.length ++ attributeText e relations r.path r.attr := by
  induction attrs using attributes_induction generalizing parent with
  | nil => simp [attributesLines]
  | cons attr rest ihn ihr =>
    rw [attributesLines_cons, rowsIn_cons, ihn, ihr, List.map_cons, List.map_append]
    rfl

/-- The same row inside `outer`. -/
def Row.inside (outer : AttributePath) (r : Row) : Row := { r with parent := outer ++ r.parent }

theorem Row.path_inside (r : Row) : (r.inside outer).path = outer ++ r.path := by
  simp [path, inside]

theorem rowsIn_append (outer inner : AttributePath) (attrs : List Attribute) :
    rowsIn (outer ++ inner) attrs = (rowsIn inner attrs).map (Row.inside outer) := by
  induction attrs using attributes_induction generalizing inner with
  | nil => simp
  | cons attr rest ihn ihr =>
    rw [rowsIn_cons, rowsIn_cons, List.append_assoc, ihn, ihr, List.map_cons, List.map_append]
    rfl

@[simp] theorem pathsOf_nil : pathsOf [] = [] := by simp [pathsOf]

theorem pathsOf_cons (attr : Attribute) (rest : List Attribute) : pathsOf (attr :: rest) =
    [attr.name] :: ((pathsOf attr.nested).map (attr.name :: ·) ++ pathsOf rest) := by
  have hnested : rowsIn [attr.name] attr.nested =
      (rowsIn [] attr.nested).map (Row.inside [attr.name]) := rowsIn_append [attr.name] [] _
  have hpath : Row.path ∘ Row.inside [attr.name] = (attr.name :: ·) ∘ Row.path :=
    funext fun r => r.path_inside
  simp only [pathsOf, rowsIn_cons, List.map_cons, List.map_append, List.nil_append, hnested,
    List.map_map, hpath]
  rfl

theorem mem_pathsOf_of_mem (h : attr ∈ attrs) : [attr.name] ∈ pathsOf attrs := by
  induction attrs with
  | nil => cases h
  | cons a rest ih =>
    rw [pathsOf_cons]
    rcases List.mem_cons.mp h with rfl | h
    · exact List.mem_cons_self
    · exact List.mem_cons_of_mem _ (List.mem_append_right _ (ih h))

theorem head_mem_pathsOf (h : name :: more ∈ pathsOf attrs) : [name] ∈ pathsOf attrs := by
  induction attrs with
  | nil => simp at h
  | cons a rest ih =>
    rw [pathsOf_cons] at h ⊢
    rcases List.mem_cons.mp h with heq | h
    · obtain ⟨rfl, -⟩ := List.cons.inj heq
      exact List.mem_cons_self
    · rcases List.mem_append.mp h with h | h
      · obtain ⟨inner, -, heq⟩ := List.mem_map.mp h
        obtain ⟨rfl, -⟩ := List.cons.inj heq
        exact List.mem_cons_self
      · exact List.mem_cons_of_mem _ (List.mem_append_right _ (ih h))

theorem ne_nil_of_mem_pathsOf (h : path ∈ pathsOf attrs) : path ≠ [] := by
  obtain ⟨r, -, rfl⟩ := List.mem_map.mp h
  simp [Row.path]

-- ---------------------------------------------------------------------------
-- Finding
-- ---------------------------------------------------------------------------

/-- What distinct paths say of the first attribute, those nested in it and those behind it. -/
theorem nodup_pathsOf_cons (h : (pathsOf (attr :: rest)).Nodup) :
    (pathsOf attr.nested).Nodup ∧ (pathsOf rest).Nodup ∧ [attr.name] ∉ pathsOf rest := by
  rw [pathsOf_cons, List.nodup_cons, List.nodup_append] at h
  obtain ⟨hhead, hnested, hrest, -⟩ := h
  exact ⟨List.Nodup.of_map _ hnested, hrest, fun hmem => hhead (List.mem_append_right _ hmem)⟩

theorem isSome_findAttribute? (h : (pathsOf attrs).Nodup) :
    (findAttribute? attrs path).isSome ↔ path ∈ pathsOf attrs := by
  cases path with
  | nil =>
    have : [] ∉ pathsOf attrs := fun hmem => ne_nil_of_mem_pathsOf hmem rfl
    simp [findAttribute?, this]
  | cons name more =>
    induction attrs using attributes_induction generalizing name more with
    | nil => cases more <;> simp [findAttribute?]
    | cons attr rest ihn ihr =>
      obtain ⟨hnested, hrest, hhead⟩ := nodup_pathsOf_cons h
      rw [findAttribute?_cons, pathsOf_cons]
      by_cases hname : attr.name = name
      · subst hname
        have hbehind : attr.name :: more ∉ pathsOf rest := fun hmem => hhead (head_mem_pathsOf hmem)
        cases more with
        | nil => simp
        | cons next more => simp [ihn hnested next more, hbehind]
      · simp [hname, Ne.symm hname, ihr hrest name more]

-- ---------------------------------------------------------------------------
-- Attaching
-- ---------------------------------------------------------------------------

theorem modifyFirst_id {p : α → Bool} (h : ∀ a, f a = a) (as : List α) : modifyFirst p f as = as := by
  induction as with
  | nil => rfl
  | cons a as ih => by_cases ha : p a <;> simp [modifyFirst, ha, h, ih]

theorem modifyFirst_modifyFirst {p : α → Bool} (h : ∀ a, p (g a) = p a) (as : List α) :
    modifyFirst p f (modifyFirst p g as) = modifyFirst p (fun a => f (g a)) as := by
  induction as with
  | nil => rfl
  | cons a as ih => by_cases ha : p a <;> simp [modifyFirst, ha, h, ih]

/-- Changes the list of the attributes inside `path`. -/
def changeInside (f : List Attribute → List Attribute) (attrs : List Attribute) :
    AttributePath → List Attribute
  | [] => f attrs
  | name :: rest => modifyFirst (·.name == name)
      (fun attr => { attr with nested := changeInside f attr.nested rest }) attrs

theorem attach_eq (attr : Attribute) (attrs : List Attribute) (parent : AttributePath) :
    attach attr attrs parent = changeInside (· ++ [attr]) attrs parent := by
  have hmodify : ∀ name rest, modifyAttribute (fun p => { p with nested := p.nested ++ [attr] })
      attrs (name :: rest) = changeInside (· ++ [attr]) attrs (name :: rest) := by
    intro name rest
    induction rest generalizing name attrs with
    | nil => rfl
    | cons next rest ih =>
      rw [modifyAttribute, changeInside]
      · congr 1
        funext a
        rw [ih a.nested next]
      · simp
  cases parent with
  | nil => rfl
  | cons name rest => exact hmodify name rest

theorem changeInside_id (attrs : List Attribute) (path : AttributePath) :
    changeInside (fun attrs => attrs) attrs path = attrs := by
  induction path generalizing attrs with
  | nil => rfl
  | cons name rest ih =>
    simp only [changeInside, ih]
    exact modifyFirst_id (fun attr => by cases attr; rfl) attrs

theorem changeInside_append (attrs : List Attribute) (outer inner : AttributePath) :
    changeInside f attrs (outer ++ inner) =
      changeInside (fun attrs => changeInside f attrs inner) attrs outer := by
  induction outer generalizing attrs with
  | nil => rfl
  | cons name rest ih =>
    simp only [List.cons_append, changeInside, ih]

theorem changeInside_changeInside (attrs : List Attribute) (path : AttributePath) :
    changeInside f (changeInside g attrs path) path =
      changeInside (fun attrs => f (g attrs)) attrs path := by
  induction path generalizing attrs with
  | nil => rfl
  | cons name rest ih =>
    simp only [changeInside]
    refine (modifyFirst_modifyFirst (fun attr => by rfl) attrs).trans ?_
    simp only [ih]

/-- The tree after the rows have been read one by one. -/
def attachAll (rows : List Row) (attrs : List Attribute) : List Attribute :=
  rows.foldl (fun attrs r => attach r.attr attrs r.parent) attrs

theorem attachAll_inside (rows : List Row) (attrs : List Attribute) (path : AttributePath) :
    attachAll (rows.map (Row.inside path)) attrs = changeInside (attachAll rows) attrs path := by
  induction rows generalizing attrs with
  | nil => exact (changeInside_id attrs path).symm
  | cons r rows ih =>
    have hfirst : attach r.attr attrs (path ++ r.parent) =
        changeInside (fun attrs => attach r.attr attrs r.parent) attrs path := by
      simp only [attach_eq, changeInside_append]
    calc attachAll ((r :: rows).map (Row.inside path)) attrs
        = attachAll (rows.map (Row.inside path)) (attach r.attr attrs (path ++ r.parent)) := rfl
      _ = changeInside (attachAll rows)
            (changeInside (fun attrs => attach r.attr attrs r.parent) attrs path) path := by
          rw [ih, hfirst]
      _ = changeInside (attachAll (r :: rows)) attrs path := changeInside_changeInside attrs path

/-- The rows of a tree put it together again, behind whatever has other names. -/
theorem attachAll_rows (h : (pathsOf attrs).Nodup)
    (hbefore : ∀ a ∈ before, ∀ b ∈ attrs, a.name ≠ b.name) :
    attachAll (rowsIn [] attrs) before = before ++ attrs := by
  induction attrs using attributes_induction generalizing before with
  | nil => simp [attachAll]
  | cons attr rest ihn ihr =>
    obtain ⟨hnested, hrest, hhead⟩ := nodup_pathsOf_cons h
    have hrows : rowsIn [attr.name] attr.nested =
        (rowsIn [] attr.nested).map (Row.inside [attr.name]) := rowsIn_append [attr.name] [] _
    have hother : ∀ a ∈ before, (a.name == attr.name) = false := fun a ha => by
      simpa using hbefore a ha attr List.mem_cons_self
    have htree : attachAll (rowsIn [attr.name] attr.nested) (before ++ [alone attr]) =
        before ++ [attr] := by
      rw [hrows, attachAll_inside, changeInside, modifyFirst_append hother (by simp [alone])]
      simp only [changeInside]
      rw [show (alone attr).nested = [] from rfl, ihn hnested (by simp), List.nil_append]
      cases attr
      rfl
    have hbehind : ∀ a ∈ before ++ [attr], ∀ b ∈ rest, a.name ≠ b.name := by
      intro a ha b hb
      rcases List.mem_append.mp ha with ha | ha
      · exact hbefore a ha b (List.mem_cons_of_mem _ hb)
      · obtain rfl := List.mem_singleton.mp ha
        exact fun heq => hhead (heq ▸ mem_pathsOf_of_mem hb)
    calc attachAll (rowsIn [] (attr :: rest)) before
        = attachAll (rowsIn [] rest)
            (attachAll (rowsIn [attr.name] attr.nested) (before ++ [alone attr])) := by
          rw [rowsIn_cons, attachAll, List.foldl_cons, List.foldl_append]
          rfl
      _ = (before ++ [attr]) ++ rest := by rw [htree, ihr hrest hbehind]
      _ = before ++ attr :: rest := by simp

end SchemaDialects.Markup
