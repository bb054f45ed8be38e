import SchemaDialects.Proofs.Sql.Scripts

/-!
# Foreign keys without columns

A foreign key whose columns are left out is written like any other, but an empty list of columns cannot be
read. The statement is reported and passed over up to its semicolon (`gives_key`), so that it takes nothing
away from the statements beside it.
-/

namespace SchemaDialects.Sql

open Production

/-- The production meets with a problem, and the statement ends at the semicolon in front of `after`. -/
def Stumbles (p : Production α) (before after : List Token) : Prop :=
  ∀ ts, Spells ts before → ∃ problem rest, p ts = .error problem rest ∧
    Spells (statementEnd rest) (semicolonToken :: after)

namespace Stumbles

theorem bind {p : Production α} (h : Stumbles p ws after) (k : α → Production β) : Stumbles (p >>= k) ws after := by
  intro ts hts
  obtain ⟨problem, rest, hp, hrest⟩ := h ts hts
  refine ⟨problem, rest, ?_, hrest⟩
  show EStateM.bind p k ts = _
  rw [EStateM.bind, hp]

/-- A problem behind what can be read. -/
theorem behind {p : Production α} {k : α → Production β} (h : Yields p ws Q us)
    (hk : ∀ a, Q a → Stumbles (k a) us after) : Stumbles (p >>= k) ws after := by
  intro ts hts
  obtain ⟨a, more, hp, hmore, ha⟩ := h ts hts
  obtain ⟨problem, rest, hstumbles, hrest⟩ := hk a ha more hmore
  refine ⟨problem, rest, ?_, hrest⟩
  show EStateM.bind p k ts = _
  rw [EStateM.bind, hp]
  exact hstumbles

theorem map {p : Production α} (h : Stumbles p ws after) (k : α → β) : Stumbles (k <$> p) ws after := by
  rw [← bind_pure_comp]
  exact h.bind _

/-- A list does not get over its first item. -/
theorem separated {item : Production α} (h : Stumbles item ws after) (more : Production Bool) :
    Stumbles (separated item more) ws after := by
  intro ts hts
  obtain ⟨problem, rest, hitem, hrest⟩ := h.map some ts hts
  exact ⟨problem, rest, by rw [Production.separated, listed, hitem], hrest⟩

end Stumbles

/-- Tokens inside a statement. -/
def Inside (ts : List Token) : Prop := ∀ t ∈ ts, t.lexeme.endsStatement = false

theorem statementEnd_spells (h : Inside us)
    (hts : Spells ts (us ++ semicolonToken :: after)) : Spells (statementEnd ts) (semicolonToken :: after) := by
  induction us generalizing ts with
  | nil =>
    obtain ⟨t, u, rest, rfl, ht, -⟩ := hts.cons
    have hends : t.lexeme.endsStatement = true := by
      rw [lexeme_of_bare ht]
      rfl
    rwa [statementEnd, if_pos hends]
  | cons w us ih =>
    obtain ⟨hw, hus⟩ := List.forall_mem_cons.mp h
    obtain ⟨t, u, rest, rfl, ht, hrest⟩ := hts.cons
    rw [statementEnd, lexeme_of_bare ht, hw]
    exact ih hus hrest

-- ---------------------------------------------------------------------------
-- Lists of columns
-- ---------------------------------------------------------------------------

theorem failExpecting_stumbles (h : Inside us) :
    Stumbles (failExpecting what : Production α) (us ++ semicolonToken :: after) after :=
  fun _ hts => ⟨_, _, rfl, statementEnd_spells h hts⟩

theorem identList_stumbles (h : Inside us) :
    Stumbles identList (columnTokens [] ++ (us ++ semicolonToken :: after)) after := by
  have hclose : Inside (closeToken :: us) := List.forall_mem_cons.mpr ⟨rfl, h⟩
  refine .behind (expect_yields rfl) fun _ _ => .separated (.bind (.behind current_yields fun t ht => ?_) _) _
  have hnone : identifier? t = none := by
    rw [identifier?, lexeme_of_bare ht]
    rfl
  simp only [hnone]
  exact failExpecting_stumbles hclose

theorem inside_intercalate {items : List (List Token)} (hsep : sep.lexeme.endsStatement = false)
    (h : ∀ item ∈ items, Inside item) : Inside ([sep].intercalate items) := by
  intro t ht
  rcases Text.mem_intercalate ht with hmem | ⟨item, hitem, ht⟩
  · obtain rfl := List.mem_singleton.mp hmem
    exact hsep
  · exact h item hitem t ht

theorem inside_nameTokens (names : List String) : ∀ item ∈ names.map fun name => [nameToken name], Inside item := by
  refine List.forall_mem_map.mpr fun name _ => List.forall_mem_singleton.mpr ?_
  rcases nameToken_lexeme name with h | h <;> rw [h] <;> rfl

theorem inside_actionTokens (event : Keyword) (action : Option ReferentialAction) :
    Inside (actionTokens event action) := by
  cases action with
  | none => exact fun _ ht => absurd ht List.not_mem_nil
  | some action =>
    exact List.forall_mem_cons.mpr ⟨rfl, List.forall_mem_cons.mpr ⟨rfl, List.forall_mem_map.mpr fun _ _ => rfl⟩⟩

theorem inside_actions (r : Reference) :
    Inside (actionTokens .DELETE r.onDelete ++ actionTokens .UPDATE r.onUpdate) :=
  List.forall_mem_append.mpr ⟨inside_actionTokens _ _, inside_actionTokens _ _⟩

theorem inside_reference (r : Reference) : Inside r.tokens := by
  have hname : Inside (entityTokens r.entity) := inside_intercalate rfl (inside_nameTokens _)
  have hcolumns : Inside (columnTokens r.columns) := List.forall_mem_cons.mpr ⟨rfl,
    List.forall_mem_append.mpr ⟨inside_intercalate rfl (inside_nameTokens _), List.forall_mem_singleton.mpr rfl⟩⟩
  exact List.forall_mem_cons.mpr ⟨rfl, List.forall_mem_append.mpr ⟨hname,
    List.forall_mem_append.mpr ⟨hcolumns, inside_actions r⟩⟩⟩

theorem references_stumbles {r : Reference} (h : r.columns = []) :
    Stumbles references (r.tokens ++ semicolonToken :: after) after := by
  rw [Reference.tokens, List.cons_append, List.append_assoc, List.append_assoc, h]
  refine .behind expectKeyword_yields fun _ _ => ?_
  refine .behind (qualifiedName_yields nameParts_ne_nil (by simp [openToken])) fun table _ => ?_
  refine .behind lexeme_yields ?_
  rintro _ rfl
  exact .bind (identList_stumbles (inside_actions r)) _

-- ---------------------------------------------------------------------------
-- Foreign keys
-- ---------------------------------------------------------------------------

/-- A foreign key that leaves out columns on either side. -/
def LeavesOut (columns : List String) (r : Reference) : Prop := columns = [] ∨ r.columns = []

theorem tableRule_stumbles (h : LeavesOut columns r) :
    Stumbles (tableRule named) ((Clause.foreignKey columns r).tokens ++ semicolonToken :: after) after := by
  rw [Clause.tokens, List.cons_append, List.cons_append, List.append_assoc]
  refine .behind lexeme_yields ?_
  rintro _ rfl
  refine .behind advance_yields fun _ _ => .behind expectKeyword_yields fun _ _ => ?_
  refine .behind optionalIndexName_yields ?_
  rintro _ rfl
  by_cases hcolumns : columns = []
  · subst hcolumns
    exact .bind (identList_stumbles (inside_reference r)) _
  · refine .behind (identList_yields hcolumns) fun ids _ => ?_
    exact .bind (references_stumbles (h.resolve_left hcolumns)) _

theorem tableConstraint_stumbles {c : Constraint} (hc : c.clause = .foreignKey columns r) (h : LeavesOut columns r) :
    Stumbles tableConstraint (c.tokens ++ semicolonToken :: after) after := by
  rw [Constraint.tokens, List.append_assoc, hc]
  refine .behind tokens_yields fun start _ => ?_
  refine .behind (constraintName_yields c.name (by simp [keyToken])) fun id _ => ?_
  exact .bind (tableRule_stumbles h) _

theorem alterTable_stumbles {id : EntityName} {c : Constraint} (hc : c.clause = .foreignKey columns r) (h : LeavesOut columns r) :
    Stumbles alterTable ((Command.key id c).tokens ++ semicolonToken :: after) after := by
  have haction : Stumbles alterAction (keyToken .ADD :: (c.tokens ++ semicolonToken :: after)) after := by
    refine .behind tokens_yields fun start _ => .behind eatKeyword_yields ?_
    rintro _ rfl
    exact .bind (tableConstraint_stumbles hc h) _
  obtain ⟨name, more, hmore⟩ := entityTokens_head id (keyToken .ADD :: (c.tokens ++ semicolonToken :: after))
  rw [Command.tokens, List.cons_append, List.cons_append, List.append_assoc, List.cons_append]
  refine .behind tokens_yields fun start _ => .behind expectKeyword_yields fun _ _ => ?_
  refine .behind expectKeyword_yields fun _ _ => ?_
  rw [hmore]
  refine .behind (eatKeyword_other nameToken_ne_keyword) ?_
  rintro _ rfl
  rw [← hmore]
  refine .behind (skipKeyword_entity id) fun _ _ => ?_
  refine .behind (qualifiedName_yields nameParts_ne_nil (by simp [keyToken])) fun q _ => ?_
  exact .bind (.separated haction _) _

/-- Nothing is read of it, and the problem is reported. -/
theorem gives_key (script : List Char) {id : EntityName} {c : Constraint} (hc : c.clause = .foreignKey columns r)
    (h : LeavesOut columns r) : (Command.key id c).Gives script fun outcome => outcome.1 = [] := by
  intro ts ws hts
  have hstatement : Stumbles (statement script) ((Command.key id c).tokens ++ semicolonToken :: ws) ws := by
    refine .behind tokens_yields fun start _ => .behind lexeme_yields ?_
    rintro _ rfl
    refine .behind (peek_yields 1) ?_
    rintro _ rfl
    exact alterTable_stumbles hc h
  obtain ⟨problem, rest, hread, hrest⟩ := hstatement ts hts
  exact ⟨[], [problem.diagnostic], statementEnd rest, by rw [readStatement, hread], hrest, rfl⟩

end SchemaDialects.Sql
