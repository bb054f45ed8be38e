import SchemaDialects.Proofs.Markup.Rows

/-!
# Attributes attached at the edge

The reader attaches an attribute inside one of those that are still open, and these are the last ones of
their levels. There the new attribute becomes the last row (`rowsIn_attach`) and its path the new edge
(`onEdge_attach`). Wherever an attribute is attached, no path is lost (`pathsOf_sublist_attach`).
-/

namespace SchemaDialects.Markup

-- ---------------------------------------------------------------------------
-- Rows of joined lists
-- ---------------------------------------------------------------------------

theorem rowsIn_concat (outer : AttributePath) (before after : List Attribute) :
    rowsIn outer (before ++ after) = rowsIn outer before ++ rowsIn outer after := by
  induction before with
  | nil => simp
  | cons attr before ih => rw [List.cons_append, rowsIn_cons, rowsIn_cons, ih]; simp

theorem pathsOf_concat (before after : List Attribute) :
    pathsOf (before ++ after) = pathsOf before ++ pathsOf after := by
  simp [pathsOf, rowsIn_concat]

/-- Every name in a path is that of an attribute. -/
theorem exists_row_of_mem_path (hpath : path ∈ pathsOf attrs) (hname : name ∈ path) :
    ∃ r ∈ rowsIn [] attrs, r.attr.name = name := by
  induction attrs using attributes_induction generalizing path with
  | nil => simp at hpath
  | cons attr rest ihn ihr =>
    have hnested : ∀ r ∈ rowsIn [] attr.nested, ∃ r' ∈ rowsIn [] (attr :: rest), r'.attr = r.attr := by
      intro r hr
      have heq := rowsIn_append [attr.name] [] attr.nested
      refine ⟨r.inside [attr.name], ?_, rfl⟩
      rw [rowsIn_cons]
      refine List.mem_cons_of_mem _ (List.mem_append_left _ ?_)
      exact heq ▸ List.mem_map_of_mem hr
    rw [pathsOf_cons] at hpath
    have hfirst : ⟨[], alone attr⟩ ∈ rowsIn [] (attr :: rest) := by simp [rowsIn_cons]
    rcases List.mem_cons.mp hpath with rfl | hpath
    · obtain rfl := List.mem_singleton.mp hname
      exact ⟨_, hfirst, rfl⟩
    · rcases List.mem_append.mp hpath with hpath | hpath
      · obtain ⟨more, hmore, rfl⟩ := List.mem_map.mp hpath
        rcases List.mem_cons.mp hname with rfl | hname
        · exact ⟨_, hfirst, rfl⟩
        · obtain ⟨r, hr, rfl⟩ := ihn hmore hname
          obtain ⟨r', hr', heq⟩ := hnested r hr
          exact ⟨r', hr', by rw [heq]⟩
      · obtain ⟨r, hr, rfl⟩ := ihr hpath hname
        exact ⟨r, by simp [rowsIn_cons, hr], rfl⟩

-- ---------------------------------------------------------------------------
-- Anywhere
-- ---------------------------------------------------------------------------

theorem pathsOf_sublist_modifyFirst {f : Attribute → Attribute} (hname : ∀ a, (f a).name = a.name)
    (hnested : ∀ a, (pathsOf a.nested).Sublist (pathsOf (f a).nested)) (p : Attribute → Bool)
    (attrs : List Attribute) : (pathsOf attrs).Sublist (pathsOf (modifyFirst p f attrs)) := by
  induction attrs with
  | nil => exact List.Sublist.refl _
  | cons attr rest ih =>
    rw [modifyFirst]
    split
    · rw [pathsOf_cons, pathsOf_cons, hname]
      exact ((hnested attr).map _).append_right _ |>.cons_cons _
    · rw [pathsOf_cons, pathsOf_cons]
      exact (ih.append_left _).cons_cons _

/-- No path is lost when an attribute is attached. -/
theorem pathsOf_sublist_attach (attr : Attribute) (attrs : List Attribute) (parent : AttributePath) :
    (pathsOf attrs).Sublist (pathsOf (attach attr attrs parent)) := by
  rw [attach_eq]
  induction parent generalizing attrs with
  | nil =>
    rw [changeInside, pathsOf_concat]
    exact List.sublist_append_left _ _
  | cons name more ih =>
    rw [changeInside]
    refine pathsOf_sublist_modifyFirst ?_ (fun a => ?_) _ attrs
    · exact fun a => rfl
    · exact ih a.nested

-- ---------------------------------------------------------------------------
-- At the edge
-- ---------------------------------------------------------------------------

/-- The path leads along the last attributes of the levels. -/
def OnEdge (attrs : List Attribute) : AttributePath → Prop
  | [] => True
  | name :: more => ∃ before last, attrs = before ++ [last] ∧ last.name = name ∧ OnEdge last.nested more

theorem OnEdge.of_prefix (h : OnEdge attrs path) (hfront : front <+: path) : OnEdge attrs front := by
  induction front generalizing attrs path with
  | nil => trivial
  | cons name front ih =>
    obtain ⟨more, rfl, hmore⟩ := List.cons_prefix_iff.mp hfront
    obtain ⟨before, last, heq, hname, hlast⟩ := h
    exact ⟨before, last, heq, hname, ih hlast hmore⟩

/-- The siblings before the last one have other names, so that it is found by its name. -/
theorem changeInside_last (h : (pathsOf (before ++ [last])).Nodup) :
    changeInside f (before ++ [last]) (last.name :: more) =
      before ++ [{ last with nested := changeInside f last.nested more }] := by
  rw [pathsOf_concat, List.nodup_append] at h
  refine modifyFirst_append (fun a ha => ?_) (by simp)
  have hne := h.2.2 [a.name] (mem_pathsOf_of_mem ha) [last.name] (mem_pathsOf_of_mem (by simp))
  simpa using hne

theorem nodup_nested (h : (pathsOf (before ++ [last])).Nodup) : (pathsOf last.nested).Nodup := by
  rw [pathsOf_concat] at h
  exact (nodup_pathsOf_cons h.of_append_right).1

/-- A new attribute at the edge is the last row. -/
theorem rowsIn_attach (h : OnEdge attrs parent) (hnodup : (pathsOf attrs).Nodup)
    (hnested : attr.nested = []) :
    rowsIn outer (attach attr attrs parent) = rowsIn outer attrs ++ [⟨outer ++ parent, attr⟩] := by
  have hattr : alone attr = attr := by cases attr; cases hnested; rfl
  rw [attach_eq]
  induction parent generalizing attrs outer with
  | nil => rw [changeInside, rowsIn_concat, rowsIn_cons, hnested, hattr]; simp
  | cons name more ih =>
    obtain ⟨before, last, rfl, rfl, hlast⟩ := h
    rw [changeInside_last hnodup, rowsIn_concat, rowsIn_concat, rowsIn_cons, rowsIn_cons,
      ih hlast (nodup_nested hnodup)]
    simp [alone]

theorem pathsOf_attach (h : OnEdge attrs parent) (hnodup : (pathsOf attrs).Nodup)
    (hnested : attr.nested = []) :
    pathsOf (attach attr attrs parent) = pathsOf attrs ++ [parent ++ [attr.name]] := by
  rw [pathsOf, rowsIn_attach h hnodup hnested, List.map_append]
  rfl

theorem onEdge_attach (h : OnEdge attrs parent) (hnodup : (pathsOf attrs).Nodup) :
    OnEdge (attach attr attrs parent) (parent ++ [attr.name]) := by
  rw [attach_eq]
  induction parent generalizing attrs with
  | nil => exact ⟨attrs, attr, rfl, rfl, trivial⟩
  | cons name more ih =>
    obtain ⟨before, last, rfl, rfl, hlast⟩ := h
    rw [changeInside_last hnodup]
    exact ⟨before, _, rfl, rfl, ih hlast (nodup_nested hnodup)⟩

end SchemaDialects.Markup
