import SchemaDialects.Proofs.Sql.Productions
import SchemaDialects.Sql.Writer

/-!
# Names in written text

Names with their namespace and lists of names in parentheses, from the text of the writer to tokens and
from tokens to what is read.
-/

namespace SchemaDialects.Sql

open Production

-- ---------------------------------------------------------------------------
-- Writing
-- ---------------------------------------------------------------------------

/-- The parts of a qualified name, from the outermost one inwards. -/
def nameParts (space : Namespace) (name : String) : List String :=
  [space.database, space.catalog, space.schema].filterMap (fun part => part) ++ [name]

def dottedTokens (parts : List String) : List Token :=
  [dotToken].intercalate (parts.map fun part => [nameToken part])

def entityTokens (e : EntityName) : List Token := dottedTokens (nameParts e.space e.name)

def columnTokens (names : List String) : List Token :=
  openToken :: ([commaToken].intercalate (names.map fun name => [nameToken name]) ++ [closeToken])

/-- No name begins with a digit. -/
theorem quoteName_head (name : String) :
    ∀ c ∈ ((Flavor.postgres.quoteName name).toList ++ rest).head?, c.isDigit = false := by
  rw [Flavor.quoteName]
  split
  · rename_i h
    obtain ⟨c, tail, hchars, hc, -⟩ := isPlainName_chars (Bool.and_eq_true_iff.mp h).1
    rw [hchars]
    rintro _ ⟨⟩
    exact isDigit_of_startsWord hc
  · rw [String.toList_ofList]
    rintro _ ⟨⟩
    decide

theorem lexes_qualified (space : Namespace) (name : String) (hrest : Stops rest) :
    Lexes (Flavor.postgres.qualified space name).toList rest (dottedTokens (nameParts space name)) := by
  refine lexes_intercalate (fun x _ more => lexes_dot (quoteName_head x)) fun x _ us hus => ?_
  refine lexes_name x ?_
  rcases hus with rfl | ⟨more, rfl⟩
  · exact hrest
  · simp [Stops]

theorem lexes_columnList (names : List String) (hrest : Stops rest) :
    Lexes (Flavor.postgres.columnList (names.map fun name => [name])).toList rest
      ([commaToken].intercalate (names.map fun name => [nameToken name])) := by
  rw [Flavor.columnList, List.map_map]
  refine lexes_intercalate (fun _ _ _ => lexes_comma.append lexes_blank) fun x _ us hus => ?_
  refine lexes_name x ?_
  rcases hus with rfl | ⟨more, rfl⟩
  · exact hrest
  · simp [Stops]

-- ---------------------------------------------------------------------------
-- Reading
-- ---------------------------------------------------------------------------

theorem values_of_forall₂ {names : List String} {ids : List Identifier}
    (h : List.Forall₂ (fun name id => id.value = name) names ids) : ids.map (·.value) = names := by
  induction h with
  | nil => rfl
  | cons hvalue _ ih => rw [List.map_cons, hvalue, ih]

theorem nameToken_lexeme (name : String) :
    (nameToken name).lexeme = .word name ∨ (nameToken name).lexeme = .quoted name := by
  rw [nameToken]
  split
  · exact .inl rfl
  · exact .inr rfl

theorem nameToken_ne_keyword : (nameToken name).lexeme ≠ .keyword k := by
  rcases nameToken_lexeme name with h | h <;> simp [h]

theorem nameParts_ne_nil : nameParts space name ≠ [] := by simp [nameParts]

/-- A qualified name begins with a name. -/
theorem entityTokens_head (e : EntityName) (us : List Token) :
    ∃ name more, entityTokens e ++ us = nameToken name :: more := by
  obtain ⟨part, parts, hparts⟩ := List.exists_cons_of_ne_nil
    (nameParts_ne_nil : nameParts e.space e.name ≠ [])
  obtain ⟨more, hmore⟩ := intercalate_cons_append [dotToken] [nameToken part]
    (parts.map fun part => [nameToken part]) us
  exact ⟨part, more, by rw [entityTokens, dottedTokens, hparts, List.map_cons, hmore]; rfl⟩

theorem skipKeyword_entity (e : EntityName) :
    Yields (skipKeyword k) (entityTokens e ++ ws) (fun _ => True) (entityTokens e ++ ws) := by
  obtain ⟨name, more, hmore⟩ := entityTokens_head e ws
  rw [hmore]
  exact skipKeyword_other nameToken_ne_keyword

theorem ident_yields_of {t : Token} (h : (identifier? t).map (·.value) = some name) (ws : List Token) :
    Yields (ident what) (t :: ws) (fun id => id.value = name) ws := by
  obtain ⟨id, hid, rfl⟩ := Option.map_eq_some_iff.mp h
  refine current_yields.bind fun u hu => ?_
  have hread : ∃ id', identifier? u = some id' ∧ id'.value = id.value := by
    obtain rfl := hu
    rw [identifier?] at hid ⊢
    have hlexeme : u.bare.lexeme = u.lexeme := rfl
    rw [hlexeme] at hid
    cases hl : u.lexeme with
    | word s =>
      rw [hl] at hid
      obtain rfl := Option.some.inj hid
      exact ⟨_, rfl, rfl⟩
    | quoted s =>
      rw [hl] at hid
      obtain rfl := Option.some.inj hid
      exact ⟨_, rfl, rfl⟩
    | keyword k =>
      simp only [hl] at hid ⊢
      split at hid
      · contradiction
      · rename_i hk
        obtain rfl := Option.some.inj hid
        rw [if_neg hk]
        exact ⟨_, rfl, rfl⟩
    | _ => simp [hl] at hid
  obtain ⟨id', hid', hvalue⟩ := hread
  simp only [hid']
  exact advance_yields.bind fun _ _ => .pure hvalue

theorem ident_yields (name : String) :
    Yields (ident what) (nameToken name :: ws) (fun id => id.value = name) ws := by
  refine ident_yields_of ?_ ws
  rcases nameToken_lexeme name with h | h <;> rw [identifier?, h] <;> rfl

theorem qualifiedName_yields (hne : parts ≠ []) (hw : w.lexeme ≠ .dot) :
    Yields (qualifiedName what) (dottedTokens parts ++ w :: ws) (fun q => q.values = parts)
      (w :: ws) := by
  have hparts : Yields (separated (ident what) (eat .dot)) (dottedTokens parts ++ w :: ws)
      (List.Forall₂ (fun name id => id.value = name) parts) (w :: ws) :=
    separated_yields (F := fun _ => True) hne
      (fun part _ us _ => ident_yields part) (fun us => ⟨trivial, eat_yields rfl⟩)
      ⟨trivial, eat_other hw⟩
  exact hparts.bind fun ids hids => .pure (values_of_forall₂ hids)

theorem ifNotExists_other (h : w.lexeme ≠ .keyword .IF) :
    Yields ifNotExists (w :: ws) (· = false) (w :: ws) := by
  refine (eatKeyword_other h).bind ?_
  rintro _ rfl
  exact .pure rfl

/-- A column of a list ends at a comma or at the end of the list. -/
def EndsColumn (us : List Token) : Prop :=
  ∃ w ws, us = w :: ws ∧ (w = commaToken ∨ w = closeToken)

theorem column_yields (name : String) (h : EndsColumn us) :
    Yields identList.column (nameToken name :: us) (fun id => id.value = name) us := by
  obtain ⟨w, ws, rfl, hw⟩ := h
  have hother : w.lexeme ≠ .openParen ∧ w.lexeme ≠ .keyword .ASC ∧ w.lexeme ≠ .keyword .DESC := by
    rcases hw with rfl | rfl <;> simp [commaToken, closeToken]
  refine (ident_yields name).bind fun id hid => ?_
  refine lexeme_yields.bind ?_
  rintro _ rfl
  rw [if_neg hother.1]
  refine (eatKeyword_other hother.2.1).bind ?_
  rintro _ rfl
  exact (skipKeyword_other hother.2.2).bind fun _ _ => .pure hid

theorem identList_yields (hne : names ≠ []) :
    Yields identList (columnTokens names ++ ws) (fun ids => ids.map (·.value) = names) ws := by
  rw [columnTokens, List.cons_append, List.append_assoc]
  refine (expect_yields rfl).bind fun _ _ => ?_
  refine Yields.mono ?_ fun ids hids => values_of_forall₂ hids
  refine separated_yields (F := EndsColumn) hne (fun name _ us hus => column_yields name hus)
    (fun us => ⟨⟨_, us, rfl, .inl rfl⟩, ?_⟩) ⟨⟨_, ws, rfl, .inr rfl⟩, ?_⟩
  · refine lexeme_yields.bind ?_
    rintro _ rfl
    exact advance_yields.bind fun _ _ => .pure rfl
  · refine lexeme_yields.bind ?_
    rintro _ rfl
    exact advance_yields.bind fun _ _ => .pure rfl

end SchemaDialects.Sql
