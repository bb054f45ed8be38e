import SchemaDialects.Proofs.Sql.Locations
import SchemaDialects.Proofs.Sql.Outcomes

/-!
# Rendered tokens denote themselves

Whatever the script is, a stretch of its tokens is rendered to a text that is cut into the same tokens again
(`Separate.denotes`), unless two neighbours fuse. The texts that definitions keep are rendered stretches:
defaults, checks, generated values, the columns and conditions of indexes, and types (`Statement.kept`). So
they denote what stands in the script (`denotes_rendered`).
-/

namespace SchemaDialects.Sql

open Production Text

-- ---------------------------------------------------------------------------
-- Stretches of tokens
-- ---------------------------------------------------------------------------

/-- The text is read without a diagnostic, as these tokens with the end of the text behind them. -/
structure Denotes (text : String) (run : List Token) : Prop where
  clean : (tokenize text).2 = []
  tokens : (tokenize text).1.map Token.bare = run.map Token.bare ++ [endToken]

/-- Some of the tokens, one behind the other, without the end of the script. -/
structure Stretch (all run : List Token) : Prop where
  part : run <:+: all
  inside : ∀ t ∈ run, t.lexeme ≠ .finish

/-- No number stands directly behind a point, unless it starts with a point itself, and no single colon in front of a
double one. -/
def Apart (run : List Token) : Prop := run.IsChain fun t u => fuses t u = false

theorem Stretch.separate (h : Stretch (tokenize script).1 run) (hapart : Apart run) : Separate run where
  whole t ht := by
    have hmem := h.part.subset ht
    rw [tokenize_placed] at hmem
    rcases List.mem_append.mp hmem with hplaced | hend
    · exact whole_of_mem_placed hplaced
    · exact absurd (by rw [List.mem_singleton.mp hend]; rfl) (h.inside t ht)
  apart := hapart

theorem Separate.denotes (h : Separate run) : Denotes (renderTokens false run) run := by
  have hcloses : Closes [] := by simp [Closes]
  obtain ⟨ts, hread, htokens⟩ := tokenize_of_lexes (lexes_evenText h.evenText hcloses)
  rw [h.tokensOf] at htokens
  exact ⟨by rw [hread], by rw [hread]; exact htokens⟩

/-- What a rendered text is cut into is rendered to this text. -/
theorem Denotes.render (h : Denotes text run) :
    renderTokens false (tokenize text).1.dropLast = renderTokens false run := by
  have htokens : (tokenize text).1.dropLast.map Token.bare = run.map Token.bare := by
    rw [List.map_dropLast, h.tokens, List.dropLast_concat]
  rw [renderTokens, ← renderFrom_bare, htokens, renderFrom_bare]
  rfl

-- ---------------------------------------------------------------------------
-- What definitions keep
-- ---------------------------------------------------------------------------

/-- The text that is kept of an expression, and where it stands. -/
def Expression.kept (e : Expression) : List (String × Position) := [(e.text, e.position)]

def DataType.kept (d : DataType) : List (String × Position) := [(d.text, d.position)]

def ColumnRule.kept : ColumnRule → List (String × Position)
  | .default e | .check e | .generated e => e.kept
  | _ => []

def ColumnDef.kept (c : ColumnDef) : List (String × Position) := c.type.kept ++ c.constraints.flatMap (·.rule.kept)

def TableRule.kept : TableRule → List (String × Position)
  | .check e => e.kept
  | _ => []

def AlterAction.kept : AlterAction → List (String × Position)
  | .addColumn column => column.kept
  | .addConstraint c => c.rule.kept
  | .other .. => []

def TypeDefinition.kept : TypeDefinition → List (String × Position)
  | .composite columns => columns.flatMap ColumnDef.kept
  | _ => []

/-- The types, defaults, checks, generated values and index expressions that a definition keeps as text. -/
def Statement.kept : Statement → List (String × Position)
  | .createTable c => c.columns.flatMap ColumnDef.kept ++ c.constraints.flatMap (·.rule.kept)
  | .alterTable a => a.actions.flatMap AlterAction.kept
  | .createIndex c => c.columns.flatMap Expression.kept ++ c.condition.toList.flatMap Expression.kept
  | .createType c => c.definition.kept
  | .select _ | .update _ | .commentOn _ | .unmodelled _ => []

/-- Each of these is the text of a stretch of the tokens, and stands where the stretch does. -/
def Copies (all : List Token) (kept : List (String × Position)) : Prop :=
  ∀ p ∈ kept, ∃ run, Stretch all run ∧ p = (renderTokens false run, tokensPosition run)

namespace Copies

variable {all : List Token}

theorem nil : Copies all [] := List.forall_mem_nil _

theorem stretch (h : Stretch all run) : Copies all [(renderTokens false run, tokensPosition run)] :=
  List.forall_mem_singleton.mpr ⟨run, h, rfl⟩

theorem append (h : Copies all kept) (hmore : Copies all more) : Copies all (kept ++ more) :=
  List.forall_mem_append.mpr ⟨h, hmore⟩

theorem flatMap {as : List α} {kept : α → List (String × Position)} (h : ∀ a ∈ as, Copies all (kept a)) :
    Copies all (as.flatMap kept) := by
  intro p hp
  obtain ⟨a, ha, hkept⟩ := List.mem_flatMap.mp hp
  exact h a ha p hkept

end Copies

variable {all : List Token}

-- ---------------------------------------------------------------------------
-- Productions
-- ---------------------------------------------------------------------------

namespace Ensures

theorem pure {Q : α → List Token → Prop} (h : ∀ s, Q a s) : Ensures all (Pure.pure a) Q := by
  rintro ts - - _ _ ⟨⟩
  exact h ts

theorem none {P : α → Prop} : Ensures all (Pure.pure Option.none) fun a _ => ∀ x ∈ a, P x :=
  pure fun _ => by rintro _ ⟨⟩

theorem some {P : α → Prop} (h : P a) : Ensures all (Pure.pure (Option.some a)) fun a _ => ∀ x ∈ a, P x :=
  pure fun _ => by rintro _ ⟨⟩; exact h

/-- What follows a production, with what is known of its value. -/
theorem andThen {p : Production β} {k : β → Production α} {P : β → Prop} {Q : α → List Token → Prop}
    (hp : RunsFrom all p) (h : Ensures all p fun b _ => P b) (hk : ∀ b, P b → Ensures all (k b) Q) :
    Ensures all (p >>= k) Q :=
  bind hp h fun b ts hts hpart hb => hk b hb ts hts hpart

/-- What follows the position of what has been read. -/
theorem position {k : Position → Production α} {Q : α → List Token → Prop}
    (hk : ∀ position, Ensures all (k position) Q) : Ensures all (positionSince start >>= k) Q := by
  intro ts hts hpart a s hrun
  obtain ⟨position, u, hsince, hrest⟩ := ok_of_bind hrun
  change (if (between start ts).isEmpty then _ else _ : Production Position) ts = .ok position u at hsince
  split at hsince
  · cases hsince
    exact hk _ ts hts hpart a s hrest
  · cases hsince
    exact hk _ ts hts hpart a s hrest

/-- What holds of each item of a list. -/
theorem listed {item : Production (Option α)} {more : Production Bool} {P : α → Prop} (hitem : RunsFrom all item)
    (hmore : RunsFrom all more) (h : Ensures all item fun a _ => ∀ x ∈ a, P x) :
    Ensures all (Production.listed item more) fun as _ => ∀ a ∈ as, P a := by
  intro ts hts hpart as s hrun
  have hrounds := lists_of_listed hrun
  clear hrun
  induction hrounds with
  | none => exact List.forall_mem_nil _
  | last hfirst | stuck hfirst => exact List.forall_mem_singleton.mpr (h _ hts hpart _ _ hfirst _ rfl)
  | next hfirst hsep _ _ ih =>
    obtain ⟨hu, hleft⟩ := hitem.left hts hpart hfirst
    obtain ⟨hv, hfurther⟩ := hmore.left hu (hleft.trans hpart) hsep
    exact List.forall_mem_cons.mpr ⟨h _ hts hpart _ _ hfirst _ rfl, ih hv (hfurther.trans (hleft.trans hpart))⟩

theorem separated {item : Production α} {more : Production Bool} {P : α → Prop} (hitem : RunsFrom all item)
    (hmore : RunsFrom all more) (h : Ensures all item fun a _ => P a) :
    Ensures all (Production.separated item more) fun as _ => ∀ a ∈ as, P a :=
  listed (hitem.map _) hmore (.map (h.mono fun _ _ ha => by rintro _ ⟨⟩; exact ha))

theorem introduced {item : Production α} {P : α → Prop} (k : Keyword) (h : Ensures all item fun a _ => P a) :
    Ensures all (Production.introduced k item) fun a _ => ∀ x ∈ a, P x := by
  refine .behind (eatKeyword_runs k) fun b => .ite ?_ .none
  exact .map (h.mono fun _ _ ha => by rintro _ ⟨⟩; exact ha)

end Ensures

theorem endsStatement_splitExpression (stop : List Token → Bool) (depth : Nat) (ts : List Token) :
    ∀ t ∈ (splitExpression stop depth ts).1, t.lexeme.endsStatement = false := by
  induction ts generalizing depth with
  | nil => exact List.forall_mem_nil _
  | cons t ts ih =>
    have htake (ht : t.lexeme.endsStatement = false) (depth : Nat) :
        ∀ u ∈ t :: (splitExpression stop depth ts).1, u.lexeme.endsStatement = false :=
      List.forall_mem_cons.mpr ⟨ht, ih depth⟩
    rw [splitExpression]
    dsimp only
    split
    · exact List.forall_mem_nil _
    · exact List.forall_mem_nil _
    · next ht => exact htake (by rw [ht]; rfl) _
    · next ht =>
      split
      · exact List.forall_mem_nil _
      · exact htake (by rw [ht]; rfl) _
    · next hfinish hsemicolon _ _ =>
      split
      · exact List.forall_mem_nil _
      · refine htake ?_ _
        cases hl : t.lexeme with
        | finish => exact absurd hl hfinish
        | semicolon => exact absurd hl hsemicolon
        | _ => rfl

theorem splitOff_stretch (stop : List Token → Bool) : Ensures all (Frame.splitOff stop) fun run _ => Stretch all run := by
  rintro ts - hpart _ _ ⟨⟩
  have hfront : (splitExpression stop 0 ts).1 <+: ts := ⟨_, splitExpression_append stop 0 ts⟩
  refine ⟨hfront.isInfix.trans hpart.isInfix, fun t ht hfinish => ?_⟩
  have hends := endsStatement_splitExpression stop 0 ts t ht
  rw [hfinish] at hends
  cases hends

theorem expressionUntil_copies (stop : Lexeme → Bool) (what : String) :
    Ensures all (expressionUntil stop what) fun e _ => Copies all e.kept := by
  refine .andThen (expressionTokens_runs stop) (splitOff_stretch _) fun run hrun => ?_
  exact .ite (.fail what) (.pure fun _ => .stretch hrun)

theorem parenthesized_copies : Ensures all parenthesized fun e _ => Copies all e.kept := by
  refine .behind (expect_runs _ _) fun _ => ?_
  refine .andThen (expressionUntil_runs _ _) (expressionUntil_copies _ _) fun e he => ?_
  exact .behind (expect_runs _ _) fun _ => .pure fun _ => he

-- ---------------------------------------------------------------------------
-- Columns
-- ---------------------------------------------------------------------------

theorem dataType_copies : Ensures all dataType fun d _ => Copies all d.kept := by
  rw [Frame.dataType_eq]
  refine .behind tokens_runs fun start => ?_
  refine .andThen (splitOff_runs _) (splitOff_stretch _) fun run hrun => ?_
  exact .step (failExpecting_runs _) (.pure fun _ => .stretch hrun)

theorem defaultValue_copies : Ensures all defaultValue fun e _ => Copies all e.kept := by
  intro ts hts hpart e s hrun
  obtain ⟨t, rest, rfl⟩ := List.exists_cons_of_ne_nil hts.ne_nil
  obtain ⟨l, _, ⟨⟩, hrest⟩ := ok_of_bind hrun
  split at hrest
  · next hnull =>
    cases hrest
    have hkeyword : t.lexeme = .keyword .NULL := of_decide_eq_true hnull
    have hfirst : [t] <+: t :: rest := List.prefix_append [t] rest
    refine .stretch ⟨hfirst.isInfix.trans hpart.isInfix, List.forall_mem_singleton.mpr ?_⟩
    exact fun hfinish => absurd (hkeyword.symm.trans hfinish) nofun
  · exact expressionUntil_copies _ _ _ hts hpart _ _ hrest

theorem computed_copies : Ensures all computed fun rule _ => Copies all rule.kept := by
  refine .andThen parenthesized_runs parenthesized_copies fun e he => ?_
  exact .behind (eatKeyword_runs _) fun _ => .step (skipWord_runs _) (.pure fun _ => he)

theorem columnRule_copies (named : Bool) : Ensures all (columnRule named) fun r _ => ∀ rule ∈ r, Copies all rule.kept := by
  have hplain {rule : ColumnRule} (h : Copies all rule.kept) :
      Ensures all (pure (some rule)) fun r _ => ∀ rule ∈ r, Copies all rule.kept := .some h
  have hkept {β : Type} {p : Production β} {k : β → ColumnRule} (hp : RunsFrom all p)
      (h : Ensures all p fun b _ => Copies all (k b).kept) :
      Ensures all (do return some (k (← p))) fun r _ => ∀ rule ∈ r, Copies all rule.kept :=
    .andThen hp h fun _ => hplain
  have hcomputed : Ensures all (do return some (← computed)) fun r _ => ∀ rule ∈ r, Copies all rule.kept :=
    hkept computed_runs computed_copies
  have hgenerated : Ensures all Frame.generatedEnd fun r _ => ∀ rule ∈ r, Copies all rule.kept := by
    refine .behind (expectKeyword_runs _) fun _ => .behind (eatWord_runs _) fun _ => .ite ?_ hcomputed
    exact .behind lexeme_runs fun _ => .step skipGroup_runs (hplain .nil)
  refine .behind lexeme_runs fun l => ?_
  split
  · exact .behind advance_runs fun _ => .behind (expectKeyword_runs _) fun _ => hplain .nil
  · exact .behind advance_runs fun _ => hplain .nil
  · refine .behind advance_runs fun _ => .behind (expectKeyword_runs _) fun _ => ?_
    exact .behind (eatKeyword_runs _) fun _ => .step (skipKeyword_runs _) (hplain .nil)
  · exact .behind advance_runs fun _ => .behind (skipKeyword_runs _) fun _ => hplain .nil
  · exact .behind advance_runs fun _ => hplain .nil
  · exact .behind advance_runs fun _ => hkept defaultValue_runs defaultValue_copies
  · exact .behind advance_runs fun _ => hkept parenthesized_runs parenthesized_copies
  · exact .behind references_runs fun _ => hplain .nil
  · refine .behind advance_runs fun _ => .behind (eatKeyword_runs _) fun _ => .ite ?_ ?_
    · exact .behind (expectKeyword_runs _) fun _ => hgenerated
    · exact .behind (expectKeyword_runs _) fun _ => hgenerated
  · exact .behind advance_runs fun _ => hcomputed
  · refine .behind advance_runs fun _ => .behind lexeme_runs fun _ => ?_
    split
    · exact .behind advance_runs fun _ => hplain .nil
    · exact .fail _
  · refine .behind advance_runs fun _ => .behind advance_runs fun _ => ?_
    exact .behind (expressionTokens_runs _) fun _ => .none
  · split
    · exact .behind advance_runs fun _ => hplain .nil
    split
    · exact .fail _
    · exact .behind advance_runs fun _ => .none

theorem columnConstraint_copies : Ensures all columnConstraint fun c _ =>
    ∀ found ∈ c, ∀ constraint ∈ found, Copies all constraint.rule.kept := by
  refine .behind lexeme_runs fun l => .ite .none (.behind tokens_runs fun start => ?_)
  refine .behind constraintName_runs fun name => ?_
  refine .andThen (columnRule_consumes _).runs (columnRule_copies _) fun r hr => ?_
  cases r with
  | none => exact .pure fun _ => by rintro _ ⟨⟩ _ ⟨⟩
  | some rule =>
    refine .position fun position => .pure fun _ => ?_
    rintro _ ⟨⟩ _ ⟨⟩
    exact hr rule rfl

theorem columnDef_copies : Ensures all columnDef fun c _ => Copies all c.kept := by
  refine .behind tokens_runs fun start => .behind (ident_runs _) fun name => ?_
  refine .andThen dataType_runs dataType_copies fun type htype => ?_
  refine .andThen (repeated_runs columnConstraint_consumes)
    (.listed columnConstraint_consumes.runs (.pure _) columnConstraint_copies) fun constraints hconstraints => ?_
  refine .position fun position => .pure fun _ => htype.append (.flatMap fun c hc => ?_)
  obtain ⟨found, hfound, hc⟩ := List.mem_filterMap.mp hc
  exact hconstraints found hfound c hc

-- ---------------------------------------------------------------------------
-- Tables
-- ---------------------------------------------------------------------------

theorem tableRule_copies (named : Bool) : Ensures all (tableRule named) fun r _ => ∀ p ∈ r, Copies all p.1.kept := by
  have hrule {rule : TableRule} {name : Option Identifier} (h : Copies all rule.kept) :
      Ensures all (pure (some (rule, name))) fun r _ => ∀ p ∈ r, Copies all p.1.kept :=
    .some h
  have hindex : Ensures all Frame.indexRule fun r _ => ∀ p ∈ r, Copies all p.1.kept :=
    .behind optionalIndexName_runs fun _ => .behind identList_runs fun _ => hrule .nil
  refine .behind lexeme_runs fun l => ?_
  split
  · refine .behind advance_runs fun _ => .behind (expectKeyword_runs _) fun _ => ?_
    exact .behind identList_runs fun _ => hrule .nil
  · refine .behind advance_runs fun _ => .behind (eatKeyword_runs _) fun _ => .step (skipKeyword_runs _) ?_
    exact .behind optionalIndexName_runs fun _ => .behind identList_runs fun _ => hrule .nil
  · refine .behind advance_runs fun _ => .behind (expectKeyword_runs _) fun _ => ?_
    refine .behind optionalIndexName_runs fun _ => .behind identList_runs fun _ => ?_
    exact .behind references_runs fun _ => hrule .nil
  · exact .behind advance_runs fun _ => .andThen parenthesized_runs parenthesized_copies fun _ he => .some he
  · refine .behind (peek_runs 1) fun next => .behind looksLikeIndex_runs fun b => .ite ?_ (.ite ?_ ?_)
    · exact .behind advance_runs fun _ => hindex
    · exact .behind advance_runs fun _ => .behind advance_runs fun _ => hindex
    · exact .ite (.fail _) .none

theorem tableConstraint_copies : Ensures all tableConstraint fun c _ =>
    ∀ constraint ∈ c, Copies all constraint.rule.kept := by
  refine .behind tokens_runs fun start => .behind constraintName_runs fun name => ?_
  refine .andThen (tableRule_runs _) (tableRule_copies _) fun found hfound => ?_
  cases found with
  | none => exact .none
  | some p =>
    refine .position fun position => .pure fun _ => ?_
    rintro _ ⟨⟩
    exact hfound p rfl

/-- What a constraint or a column keeps. -/
def partKept : TableConstraint ⊕ ColumnDef → List (String × Position)
  | .inl constraint => constraint.rule.kept
  | .inr column => column.kept

theorem tablePart_copies : Ensures all tablePart fun part _ => Copies all (partKept part) := by
  refine .andThen tableConstraint_runs tableConstraint_copies fun found hfound => ?_
  cases found with
  | none => exact .andThen columnDef_runs columnDef_copies fun column hcolumn => .pure fun _ => hcolumn
  | some constraint => exact .pure fun _ => hfound constraint rfl

theorem unmodelled_copies (script : List Char) (start : List Token) :
    Ensures all (unmodelled script start) fun st _ => Copies all st.kept :=
  .behind skipStatement_runs fun _ => .behind tokens_runs fun _ => .pure fun _ => .nil

theorem unmodelled_returned_copies (script : List Char) (start : List Token) :
    Ensures all (unmodelled script start >>= pure) fun st _ => Copies all st.kept := by
  rw [bind_pure]
  exact unmodelled_copies script start

theorem createTable_copies (script : List Char) (start : List Token) :
    Ensures all (createTable script start) fun st _ => Copies all st.kept := by
  have hreturned : Ensures all (unmodelled script start >>= pure) _ := unmodelled_returned_copies script start
  refine .behind (expectKeyword_runs _) fun _ => .behind ifNotExists_runs fun lenient => ?_
  refine .behind (qualifiedName_runs _) fun name => .behind (eat_runs _) fun _ => .ite ?_ ?_
  · exact hreturned
  have hend (parts : List (TableConstraint ⊕ ColumnDef)) (hparts : ∀ part ∈ parts, Copies all (partKept part)) :
      Ensures all (Frame.tableEnd start lenient name parts) fun st _ => Copies all st.kept := by
    refine .position fun _ => .behind skipStatement_runs fun _ => .pure fun _ => ?_
    refine .append (.flatMap ?_) (.flatMap ?_)
    · intro column hcolumn
      obtain ⟨part, hpart, hsome⟩ := List.mem_filterMap.mp hcolumn
      cases part with
      | inl constraint => cases hsome
      | inr column =>
        cases hsome
        exact hparts _ hpart
    · intro constraint hconstraint
      obtain ⟨part, hpart, hsome⟩ := List.mem_filterMap.mp hconstraint
      cases part with
      | inl constraint =>
        cases hsome
        exact hparts _ hpart
      | inr column => cases hsome
  refine .behind (eat_runs _) fun _ => .ite ?_ ?_
  · exact .andThen (RunsFrom.pure _) (.pure fun _ => List.forall_mem_nil _) hend
  · exact .andThen (separates_anotherPart.items tablePart_runs).runs
      (.separated tablePart_runs anotherPart_runs tablePart_copies) hend

-- ---------------------------------------------------------------------------
-- Indexes and types
-- ---------------------------------------------------------------------------

theorem indexColumn_copies : Ensures all indexColumn fun e _ => Copies all e.kept := by
  refine .andThen (expressionUntil_runs _ _) (expressionUntil_copies _ _) fun e he => ?_
  refine .behind (eatKeyword_runs _) fun _ => .step (skipKeyword_runs _) (.behind (eatWord_runs _) fun _ => ?_)
  exact .step advance_runs (.pure fun _ => he)

theorem createIndex_copies (start : List Token) : Ensures all (createIndex start) fun st _ => Copies all st.kept := by
  have hend (unique : Bool) (name : Option Identifier) :
      Ensures all (Frame.indexEnd start unique name) fun st _ => Copies all st.kept := by
    refine .behind (expectKeyword_runs _) fun _ => .behind (skipKeyword_runs _) fun _ => ?_
    refine .behind (qualifiedName_runs _) fun table => .behind (eatKeyword_runs _) fun _ => .step advance_runs ?_
    refine .behind (expect_runs _ _) fun _ => .andThen (commaSeparated_runs indexColumn_runs)
      (.separated indexColumn_runs (eat_runs _) indexColumn_copies) fun columns hcolumns => ?_
    have hcondition : Ensures all (Frame.conditionEnd start unique name table columns) fun st _ => Copies all st.kept := by
      refine .andThen (introduced_runs _ (expressionUntil_runs _ _))
        (.introduced .WHERE (expressionUntil_copies _ _)) fun condition hcondition => ?_
      refine .position fun _ => .pure fun _ => .append (.flatMap hcolumns) (.flatMap ?_)
      exact fun e he => hcondition e (Option.mem_toList.mp he)
    refine .behind (expect_runs _ _) fun _ => .behind (eatWord_runs _) fun _ => .ite ?_ hcondition
    exact .behind lexeme_runs fun _ => .step skipGroup_runs hcondition
  refine .behind (eatKeyword_runs _) fun unique => .behind (expectKeyword_runs _) fun _ => ?_
  refine .behind (skipWord_runs _) fun _ => .behind ifNotExists_runs fun _ => .behind lexeme_runs fun _ => ?_
  exact .ite (.behind (RunsFrom.pure _) (hend unique)) (.behind ((ident_runs _).map _) (hend unique))

theorem compositeField_copies : Ensures all compositeField fun c _ => ∀ column ∈ c, Copies all column.kept := by
  refine .behind lexeme_runs fun _ => .ite .none ?_
  exact .andThen columnDef_runs columnDef_copies fun column hcolumn => .some hcolumn

theorem createType_copies (script : List Char) (start : List Token) :
    Ensures all (createType script start) fun st _ => Copies all st.kept := by
  have hreturned : Ensures all (unmodelled script start >>= pure) _ := unmodelled_returned_copies script start
  refine .behind (expectKeyword_runs _) fun _ => .behind (qualifiedName_runs _) fun name => ?_
  have hdone (definition : TypeDefinition) (h : Copies all definition.kept) : Ensures all
      (do return Statement.createType { name, definition, position := ← positionSince start })
      fun st _ => Copies all st.kept :=
    .position fun _ => .pure fun _ => h
  refine .behind lexeme_runs fun _ => .ite (hdone _ .nil) (.behind (eatKeyword_runs _) fun _ => .ite ?_ ?_)
  · exact hreturned
  refine .behind (eatKeyword_runs _) fun _ => .ite ?_ ?_
  · refine .behind (expect_runs _ _) fun _ => .behind (separates_comma.rounds enumValue_runs).runs fun _ => ?_
    exact .behind (expect_runs _ _) fun _ => hdone _ .nil
  · refine .behind (eat_runs _) fun _ => .ite ?_ (unmodelled_copies script start)
    refine .andThen (separates_comma.rounds compositeField_runs).runs
      (.listed compositeField_runs (eat_runs _) compositeField_copies) fun columns hcolumns => ?_
    exact .behind (expect_runs _ _) fun _ => hdone _ (.flatMap hcolumns)

-- ---------------------------------------------------------------------------
-- All statements
-- ---------------------------------------------------------------------------

theorem create_copies (script : List Char) (start : List Token) :
    Ensures all (create script start) fun st _ => Copies all st.kept := by
  refine .behind (expectKeyword_runs _) fun _ => .behind (eatKeyword_runs _) fun _ => ?_
  refine .step (skipWord_runs _) (.behind lexeme_runs fun l => ?_)
  split
  · exact createTable_copies script start
  · exact createIndex_copies start
  · exact createIndex_copies start
  · exact createType_copies script start
  · exact unmodelled_copies script start

theorem alterAction_copies : Ensures all alterAction fun a _ => Copies all a.kept := by
  refine .behind tokens_runs fun start => .behind (eatKeyword_runs _) fun _ => .ite ?_ ?_
  · refine .andThen tableConstraint_runs tableConstraint_copies fun found hfound => ?_
    cases found with
    | none =>
      refine .behind (skipKeyword_runs _) fun _ => .behind ifNotExists_runs fun _ => ?_
      exact .andThen columnDef_runs columnDef_copies fun column hcolumn => .pure fun _ => hcolumn
    | some constraint => exact .pure fun _ => hfound constraint rfl
  · refine .behind (expressionTokens_runs _) fun taken => .step (failExpecting_runs _) ?_
    exact .position fun _ => .pure fun _ => .nil

theorem alterTable_copies : Ensures all alterTable fun st _ => Copies all st.kept := by
  refine .behind tokens_runs fun start => .behind (expectKeyword_runs _) fun _ => ?_
  refine .behind (expectKeyword_runs _) fun _ => .behind (eatKeyword_runs _) fun _ => ?_
  refine .step (expectKeyword_runs _) (.behind (skipKeyword_runs _) fun _ => ?_)
  refine .behind (qualifiedName_runs _) fun table => ?_
  refine .andThen (commaSeparated_runs alterAction_runs)
    (.separated alterAction_runs (eat_runs _) alterAction_copies) fun actions hactions => ?_
  exact .position fun _ => .pure fun _ => .flatMap hactions

theorem commentOn_copies (script : List Char) (start : List Token) :
    Ensures all (commentOn script start) fun st _ => Copies all st.kept := by
  have hend (target : Option CommentTarget) :
      Ensures all (Frame.commentEnd script start target) fun st _ => Copies all st.kept := by
    cases target with
    | none => exact unmodelled_copies script start
    | some target =>
      refine .behind (expectKeyword_runs _) fun _ => .behind lexeme_runs fun l => ?_
      have hdone (text : Option String) : Ensures all (do
            advance
            return Statement.commentOn { target, text, position := ← positionSince start })
          fun st _ => Copies all st.kept :=
        .behind advance_runs fun _ => .position fun _ => .pure fun _ => .nil
      split
      · exact .behind (RunsFrom.pure _) hdone
      · exact .behind (RunsFrom.pure _) hdone
      · exact .behind (failExpecting_runs _) hdone
  have hname (what : String) (kind : QualifiedName → CommentTarget) :
      RunsFrom all (some <$> kind <$> qualifiedName what) := ((qualifiedName_runs what).map _).map _
  refine .behind (expectKeyword_runs _) fun _ => .behind (expectKeyword_runs _) fun _ => ?_
  refine .behind (eatKeyword_runs _) fun _ => .ite (.behind (hname _ _) hend) ?_
  exact .behind (eatKeyword_runs _) fun _ => .ite (.behind (hname _ _) hend) (.behind (RunsFrom.pure _) hend)

theorem update_copies : Ensures all update fun st _ => Copies all st.kept := by
  refine .behind tokens_runs fun start => .behind (expectKeyword_runs _) fun _ => ?_
  refine .behind (skipKeyword_runs _) fun _ => .behind tableRef_runs fun table => ?_
  refine .behind (expectKeyword_runs _) fun _ => ?_
  refine .behind (commaSeparated_runs assignment_runs) fun assignments => ?_
  have hend : Ensures all (Frame.updateEnd start table assignments) fun st _ => Copies all st.kept := by
    refine .behind (introduced_runs _ (expressionUntil_runs _ _)) fun _ => ?_
    exact .position fun _ => .behind skipStatement_runs fun _ => .pure fun _ => .nil
  exact .behind (eatKeyword_runs _) fun _ => .ite (.behind (expressionTokens_runs _) fun _ => hend) hend

theorem statement_copies (script : List Char) : Ensures all (statement script) fun st _ => Copies all st.kept := by
  refine .behind tokens_runs fun start => .behind lexeme_runs fun l => .behind (peek_runs 1) fun next => ?_
  split
  · exact .map fun _ _ _ _ _ _ => .nil
  · exact create_copies script start
  · exact alterTable_copies
  · exact commentOn_copies script start
  · exact update_copies
  · exact unmodelled_copies script start

/-- What the statements of a script keep as text is copied from its tokens. -/
theorem copies_of_read (hst : st ∈ (readStatements script).value.getD []) : Copies (tokenize script).1 st.kept := by
  obtain ⟨hended, hsound, hascending⟩ := tokenize_ascends script
  have hlaid : LaidOut script.toList (tokenize script).1 _ _ := Ascending.laidOut hended ⟨hsound, hascending⟩
  rw [getD_readStatements] at hst
  obtain ⟨begun, -, hbegins, left, _, _, _, _, hextent⟩ := hlaid.extent st hst
  obtain ⟨front, hall, -⟩ := hbegins.behind
  exact statement_copies _ begun hbegins.ended ⟨front, hall.symm⟩ st left hextent.read

/-- A stretch of tokens is rendered to a text that denotes the stretch, and this text is rendered to itself. So what
definitions keep as text denotes the stretch of the script that stands at the position of this text. -/
theorem denotes_rendered (script : String) :
    (∀ run, Stretch (tokenize script).1 run → Apart run → Denotes (renderTokens false run) run ∧
      renderTokens false (tokenize (renderTokens false run)).1.dropLast = renderTokens false run) ∧
    ∀ st ∈ (readStatements script).value.getD [], ∀ p ∈ st.kept, ∃ run, Stretch (tokenize script).1 run ∧
      p = (renderTokens false run, tokensPosition run) ∧ (Apart run → Denotes p.1 run) := by
  have hdenotes (run : List Token) (h : Stretch (tokenize script).1 run) (hapart : Apart run) :
      Denotes (renderTokens false run) run := (h.separate hapart).denotes
  refine ⟨fun run h hapart => ?_, fun st hst p hp => ?_⟩
  · have hrun := hdenotes run h hapart
    exact ⟨hrun, hrun.render⟩
  · obtain ⟨run, hrun, rfl⟩ := copies_of_read hst p hp
    exact ⟨run, hrun, rfl, hdenotes run hrun⟩

def unevenCondition : String := "n>b AND\tc!=.5 :: numeric ( 9 ,2) -- odd"

theorem denotes_rendered_uneven :
    Stretch (tokenize unevenCondition).1 (tokenize unevenCondition).1.dropLast ∧
      Apart (tokenize unevenCondition).1.dropLast ∧
      renderTokens false (tokenize unevenCondition).1.dropLast = "n > b AND c != .5::numeric(9, 2)" ∧
      Denotes "n > b AND c != .5::numeric(9, 2)" (tokenize unevenCondition).1.dropLast := by
  have hstretch : Stretch (tokenize unevenCondition).1 (tokenize unevenCondition).1.dropLast :=
    ⟨(List.dropLast_prefix _).isInfix, by decide +kernel⟩
  have hapart : Apart (tokenize unevenCondition).1.dropLast := by
    unfold Apart
    decide +kernel
  have hrender : renderTokens false (tokenize unevenCondition).1.dropLast = "n > b AND c != .5::numeric(9, 2)" := by
    decide +kernel
  obtain ⟨hdenotes, -⟩ := (denotes_rendered unevenCondition).1 _ hstretch hapart
  exact ⟨hstretch, hapart, hrender, hrender ▸ hdenotes⟩

example : (((readStatements
      "CREATE TABLE t (a numeric (9 ,2)DEFAULT - 1::int, CHECK(a>b))").value.getD []).flatMap Statement.kept).map Prod.fst =
    ["numeric(9, 2)", "- 1::int", "a > b"] := by
  decide +kernel

end SchemaDialects.Sql
