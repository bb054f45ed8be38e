import SchemaDialects.Proofs.NameLaws
import SchemaDialects.Proofs.TextLaws

/-!
# Attribute names read back from their text

`AttributeName.parse?_render`: an attribute name that was written is always read, and as an attribute of the same
entity, whatever the names hold. Looking for the parenthesis agrees with splitting at parentheses
(`splitUnquotedChars_eq`), so that a written entity is passed for the same reason for which it is not split. The
path has no quotes, and its names come back unless a dot in one of them makes two of it.
-/

namespace SchemaDialects

open Text

-- ---------------------------------------------------------------------------
-- Looking for a character outside quotes
-- ---------------------------------------------------------------------------

/-- Nothing but the character itself is lost. -/
theorem eq_of_breakUnquoted (h : breakUnquoted target inQuotes cs = some (front, back)) :
    cs = front ++ target :: back := by
  induction cs generalizing inQuotes front with
  | nil => cases h
  | cons c cs ih =>
    -- Both ways of passing a character put it in front of what is found behind it.
    have hpassed : ∀ quoted, (breakUnquoted target quoted cs).map (Prod.map (c :: ·) id) = some (front, back) →
        c :: cs = front ++ target :: back := by
      intro quoted hbehind
      obtain ⟨⟨a, b⟩, hfound, heq⟩ := Option.map_eq_some_iff.mp hbehind
      obtain ⟨rfl, rfl⟩ := Prod.mk.inj heq
      rw [ih hfound, List.cons_append]
    rw [breakUnquoted] at h
    split at h
    · exact hpassed _ h
    · split at h
      · rename_i htarget
        obtain ⟨rfl, rfl⟩ := Prod.mk.inj (Option.some.inj h)
        rw [htarget.1, List.nil_append]
      · exact hpassed _ h

/-- The first piece is what stands before the first separator. -/
theorem splitUnquotedChars_eq (sep : Char) (inQuotes : Bool) (cs : List Char) :
    splitUnquotedChars sep inQuotes cs =
      match breakUnquoted sep inQuotes cs with
      | none => [cs]
      | some (front, back) => front :: splitUnquotedChars sep false back := by
  induction cs generalizing inQuotes with
  | nil => rfl
  | cons c cs ih =>
    by_cases hquote : c = '"'
    · rw [splitUnquotedChars_cons (.inl hquote), breakUnquoted, if_pos hquote, if_pos hquote, ih]
      cases breakUnquoted sep (!inQuotes) cs <;> rfl
    · by_cases hcut : c = sep ∧ (!inQuotes) = true
      · have hopen : inQuotes = false := by simpa using hcut.2
        rw [splitUnquotedChars, if_pos ⟨hquote, hcut⟩, breakUnquoted, if_neg hquote, if_pos hcut, hopen]
      · have hkept : c ≠ sep ∨ inQuotes = true := by
          by_cases hc : c = sep
          · exact .inr (by simpa [hc] using hcut)
          · exact .inl hc
        rw [splitUnquotedChars_cons (.inr hkept), breakUnquoted, if_neg hquote, if_neg hcut, if_neg hquote, ih]
        cases breakUnquoted sep inQuotes cs <;> rfl

/-- A text without the character outside its quotes is passed. -/
theorem Unsplit.breakUnquoted (h : Unsplit sep front) (hsep : sep ≠ '"') (back : List Char) :
    breakUnquoted sep false (front ++ sep :: back) = some (front, back) := by
  have hpieces : splitUnquotedChars sep false (front ++ sep :: back) =
      front :: splitUnquotedChars sep false back := by
    rw [h, splitUnquotedChars, if_pos ⟨hsep, rfl, rfl⟩, inFront, List.append_nil]
  rw [splitUnquotedChars_eq] at hpieces
  cases hfound : SchemaDialects.breakUnquoted sep false (front ++ sep :: back) with
  | none =>
    rw [hfound] at hpieces
    exact absurd (List.cons.inj hpieces).2.symm splitUnquotedChars_ne_nil
  | some found =>
    obtain ⟨a, b⟩ := found
    rw [hfound] at hpieces
    obtain rfl : a = front := (List.cons.inj hpieces).1
    have htext := eq_of_breakUnquoted hfound
    rw [List.append_cancel_left_eq] at htext
    rw [(List.cons.inj htext).2]

/-- The dots between segments and the quotes around them hide every other character. -/
theorem unsplit_renderSegments (hsep : isPlainChar sep = false) (hdot : sep ≠ '.')
    (segments : List (Option String)) : Unsplit sep (renderSegments segments).toList := by
  rw [renderSegments, String.toList_intercalate]
  refine Unsplit.intercalate (fun piece hpiece => ?_) (unsplit_of_forall ?_)
  · obtain ⟨text, htext, rfl⟩ := List.mem_map.mp hpiece
    obtain ⟨segment, -, rfl⟩ := List.mem_map.mp htext
    cases segment with
    | none => exact unsplit_of_forall (by simp [renderSegment])
    | some name => exact unsplit_quote hsep name
  · exact List.forall_mem_singleton.mpr ⟨by decide, hdot.symm⟩

-- ---------------------------------------------------------------------------
-- Paths
-- ---------------------------------------------------------------------------

/-- A path comes back if it has names and none of them holds a dot, and only then. -/
theorem AttributePath.parse_render_iff (path : AttributePath) :
    parse path.render = path ↔ path ≠ [] ∧ ∀ name ∈ path, '.' ∉ name.toList := by
  have htext : path.render.toList = ['.'].intercalate (path.map String.toList) := String.toList_intercalate
  rw [parse, htext]
  constructor
  · intro h
    refine ⟨fun hnil => ?_, fun name hname => ?_⟩
    · rw [hnil] at h
      exact pieces_ne_nil (List.map_eq_nil_iff.mp h)
    · rw [← h] at hname
      obtain ⟨piece, hpiece, rfl⟩ := List.mem_map.mp hname
      rw [String.toList_ofList]
      exact not_mem_of_mem_pieces hpiece (decide_eq_true rfl)
  · rintro ⟨hne, hdots⟩
    rw [splitAt_intercalate (by simpa using hne) (List.forall_mem_map.mpr hdots), List.map_map]
    exact (List.map_congr_left fun _ _ => String.ofList_toList).trans (List.map_id _)

-- ---------------------------------------------------------------------------
-- Attribute names
-- ---------------------------------------------------------------------------

/-- A written attribute name is read as an attribute of the same entity, with the path that stands between the
parentheses. It comes back as it was exactly if the path has names and none of them holds a dot. -/
theorem AttributeName.parse?_render (a : AttributeName) :
    parse? a.render = some { entity := a.entity, path := .parse a.path.render } ∧
      (parse? a.render = some a ↔ a.path ≠ [] ∧ ∀ name ∈ a.path, '.' ∉ name.toList) := by
  have hentity : Unsplit '(' a.entity.render.toList := unsplit_renderSegments (by decide) (by decide) _
  have htext : a.render.toList = a.entity.render.toList ++ '(' :: (a.path.render.toList ++ [')']) := by
    simp [render]
  have hread : parse? a.render = some { entity := a.entity, path := .parse a.path.render } := by
    rw [parse?, htext, hentity.breakUnquoted (by decide)]
    simp [dropTail?_append, EntityName.parse_render]
  refine ⟨hread, ?_⟩
  rw [hread, ← AttributePath.parse_render_iff]
  constructor
  · intro h
    exact congrArg AttributeName.path (Option.some.inj h)
  · intro h
    rw [h]

end SchemaDialects
