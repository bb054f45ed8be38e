import SchemaDialects.Proofs.Sql.Progress

/-!
# What a statement covers

A statement covers the tokens from its first one up to where its production has left off. Only the options of a
table and what stands behind an update are passed over without being covered (`Statement.Leaves`).
-/

namespace SchemaDialects.Sql

open Production

-- ---------------------------------------------------------------------------
-- Post-conditions
-- ---------------------------------------------------------------------------

/-- Wherever among the tokens `all` a production gives a value, this and what is left then satisfy `Q`. -/
def Ensures (all : List Token) (p : Production α) (Q : α → List Token → Prop) : Prop :=
  ∀ ts, Ended ts → ts <:+ all → ∀ a s, p ts = .ok a s → Q a s

namespace Ensures

variable {all : List Token} {Q : α → List Token → Prop}

theorem bind {p : Production β} {k : β → Production α} (hp : RunsFrom all p) (h : Ensures all p P)
    (hk : ∀ b ts, Ended ts → ts <:+ all → P b ts → ∀ a s, k b ts = .ok a s → Q a s) : Ensures all (p >>= k) Q := by
  intro ts hts hpart a u hrun
  obtain ⟨b, s, hfirst, hrest⟩ := ok_of_bind hrun
  obtain ⟨hs, hleft⟩ := hp.left hts hpart hfirst
  exact hk b s hs (hleft.trans hpart) (h ts hts hpart b s hfirst) a u hrest

/-- What follows a production. -/
theorem behind {p : Production β} {k : β → Production α} (hp : RunsFrom all p) (hk : ∀ b, Ensures all (k b) Q) :
    Ensures all (p >>= k) Q :=
  bind hp (P := fun _ _ => True) (fun _ _ _ _ _ _ => trivial) fun b ts hts hpart _ => hk b ts hts hpart

theorem mono {p : Production α} (h : Ensures all p P) (hQ : ∀ a s, P a s → Q a s) : Ensures all p Q :=
  fun ts hts hpart a s hrun => hQ a s (h ts hts hpart a s hrun)

theorem ite {p q : Production α} {c : Prop} [Decidable c] (hp : Ensures all p Q) (hq : Ensures all q Q) :
    Ensures all (if c then p else q) Q := by
  split
  · exact hp
  · exact hq

theorem step {x : Production Unit} {k : Unit → Production α} {c : Prop} [Decidable c] (hx : RunsFrom all x)
    (hk : Ensures all (k ()) Q) : Ensures all (if c then x >>= k else k ()) Q :=
  ite (.behind hx fun _ => hk) hk

theorem fail (what : String) : Ensures all (failExpecting what) Q := fun _ _ _ _ _ h => nomatch h

theorem map {p : Production β} {k : β → α} (h : Ensures all p fun b s => Q (k b) s) : Ensures all (k <$> p) Q := by
  intro ts hts hpart a s hrun
  obtain ⟨b, hb, rfl⟩ := ok_of_map hrun
  exact h ts hts hpart b s hb

end Ensures

-- ---------------------------------------------------------------------------
-- Where productions stop
-- ---------------------------------------------------------------------------

/-- Where an expression may stop, if not at the tokens that it is to end before. -/
def stopsExpression (stop : Lexeme → Bool) (l : Lexeme) : Bool := stop l || l = .closeParen || l.endsStatement

theorem headIs_splitExpression (stop : Lexeme → Bool) (depth : Nat) (ts : List Token) :
    headIs (stopsExpression stop) (splitExpression (headIs stop) depth ts).2 = true := by
  induction ts generalizing depth with
  | nil => simp [splitExpression, headIs, stopsExpression, endToken, Lexeme.endsStatement]
  | cons t ts ih =>
    rw [splitExpression]
    dsimp only
    split
    · next ht => simp [headIs, stopsExpression, ht, Lexeme.endsStatement]
    · next ht => simp [headIs, stopsExpression, ht, Lexeme.endsStatement]
    · exact ih _
    · next ht =>
      split
      · simp [headIs, stopsExpression, ht]
      · exact ih _
    · split
      · next hstop =>
        have hstop : stop t.lexeme = true := hstop.2
        simp [headIs, stopsExpression, hstop]
      · exact ih _

theorem expressionTokens_ends (stop : Lexeme → Bool) :
    Ensures all (expressionTokens stop) fun _ s => headIs (stopsExpression stop) s = true := by
  rintro ts - - _ _ ⟨⟩
  exact headIs_splitExpression stop 0 ts

theorem expressionUntil_ends (stop : Lexeme → Bool) (what : String) :
    Ensures all (expressionUntil stop what) fun _ s => headIs (stopsExpression stop) s = true := by
  refine .bind (expressionTokens_runs stop) (expressionTokens_ends stop) fun inside ts _ _ hstop a s hrun => ?_
  split at hrun
  · cases hrun
  · cases hrun
    exact hstop

/-- An optional clause stops where its item does, or where there is none. -/
theorem introduced_ends {item : Production α} {R P : List Token → Prop} (hitem : Ensures all item fun _ s => P s)
    (k : Keyword) (hnone : ∀ s, R s → headIs (·.isKeyword k) s = false → P s) (hts : Ended ts) (hpart : ts <:+ all)
    (hstart : R ts) (h : introduced k item ts = .ok a s) : P s := by
  obtain ⟨b, u, heat, hrest⟩ := ok_of_bind h
  obtain ⟨hu, hleft⟩ := (eatKeyword_runs k).left hts List.suffix_rfl heat
  obtain ⟨hb, hstays⟩ := Frame.eatIf_of_ok heat
  cases b with
  | true =>
    obtain ⟨value, v, hrun, hdone⟩ := ok_of_bind hrest
    cases hdone
    exact hitem u hu (hleft.trans hpart) _ _ hrun
  | false =>
    cases hrest
    obtain rfl := hstays rfl
    exact hnone _ hstart hb.symm

/-- A list stops where `more` finds no separator behind its last item. -/
theorem separated_ends {item : Production α} {more : Production Bool} {P Q : List Token → Prop}
    (hitem : RunsFrom all item) (hnext : Separates more) (hstops : Ensures all item fun _ s => P s)
    (hlast : ∀ s, Ended s → s <:+ all → P s → ∀ u, more s = .ok false u → Q u) :
    Ensures all (separated item more) fun _ s => Q s := by
  intro ts hts hpart as s hrun
  have hrounds := lists_of_listed hrun
  clear hrun
  induction hrounds with
  | none hfirst =>
    obtain ⟨_, -, hnone⟩ := ok_of_map hfirst
    cases hnone
  | last hfirst hsep =>
    obtain ⟨value, hvalue, -⟩ := ok_of_map hfirst
    obtain ⟨hu, hleft⟩ := hitem.left hts hpart hvalue
    exact hlast _ hu (hleft.trans hpart) (hstops _ hts hpart _ _ hvalue) _ hsep
  | stuck hfirst hsep hlong =>
    obtain ⟨value, hvalue, -⟩ := ok_of_map hfirst
    obtain ⟨hu, hleft⟩ := hitem.left hts hpart hvalue
    exact absurd (Nat.lt_of_lt_of_le (hnext.shorter hu hsep) hleft.length_le) hlong
  | next hfirst hsep _ _ ih =>
    obtain ⟨value, hvalue, -⟩ := ok_of_map hfirst
    obtain ⟨hu, hleft⟩ := hitem.left hts hpart hvalue
    obtain ⟨hv, hfurther⟩ := hnext.runs.left hu (hleft.trans hpart) hsep
    exact ih hv (hfurther.trans (hleft.trans hpart))

-- ---------------------------------------------------------------------------
-- How statements lie
-- ---------------------------------------------------------------------------

/-- What may stand behind an update. -/
def endsUpdate : Lexeme → Bool := stopsExpression (·.isWord "returning")

/-- What is known of the tokens that a statement covers and of those `behind` them, where `rest` is left in the end.
A table ends with the list of its parts, an update with its condition; what follows them is passed over. A statement
kept as text goes on to its end. -/
def Statement.Leaves (script : List Char) (covered behind rest : List Token) : Statement → Prop
  | .createTable _ => (∃ t ∈ covered.getLast?, t.lexeme = .closeParen) ∧ rest = statementEnd behind
  | .update _ => headIs endsUpdate behind = true ∧ rest = statementEnd behind
  | .unmodelled u => u.text = sourceText script covered ∧ headIs Lexeme.endsStatement behind = true ∧ rest = behind
  | _ => rest = behind

/-- A statement that begins at some tokens covers the first of them, and stands where they do. -/
def Statement.Lies (script : List Char) (begun : List Token) (st : Statement) (rest : List Token) : Prop :=
  ∃ covered behind, begun = covered ++ behind ∧ covered ≠ [] ∧ Ended behind ∧ st.position = tokensPosition covered ∧
    st.Leaves script covered behind rest

/-- A statement with the position of everything up to `stop`. -/
theorem Statement.lies_of_stop {st : Statement} (hstop : Ended stop) (hpart : stop <:+ tail)
    (hposition : st.position = tokensPosition (between (t :: tail) stop))
    (hleaves : st.Leaves script (between (t :: tail) stop) stop rest) : st.Lies script (t :: tail) rest :=
  ⟨_, stop, (between_append (hpart.trans (List.suffix_cons _ _))).symm, between_ne_nil hpart, hstop, hposition, hleaves⟩

theorem positionSince_of_part (h : stop <:+ tail) :
    positionSince (t :: tail) stop = .ok (tokensPosition (between (t :: tail) stop)) stop := by
  show (if (between (t :: tail) stop).isEmpty then _ else _ : Production Position) stop = _
  rw [if_neg (by simpa using between_ne_nil h)]
  rfl

/-- A value with the position of all tokens that have been taken. -/
theorem Ensures.since {k : Position → α} {Q : α → List Token → Prop}
    (h : ∀ s, Ended s → s <:+ tail → Q (k (tokensPosition (between (t :: tail) s))) s) :
    Ensures tail (do return k (← positionSince (t :: tail))) Q := by
  intro ts hts hpart a s hrun
  obtain ⟨position, s, hsince, hdone⟩ := ok_of_bind hrun
  cases hdone
  cases (positionSince_of_part hpart).symm.trans hsince
  exact h ts hts hpart

theorem unmodelled_lies (script : List Char) :
    Ensures tail (unmodelled script (t :: tail)) (Statement.Lies script (t :: tail)) := by
  rintro ts hts hpart _ _ ⟨⟩
  exact Statement.lies_of_stop hts.statementEnd ((statementEnd_suffix ts).trans hpart) rfl
    ⟨rfl, Frame.headIs_statementEnd ts, rfl⟩

theorem unmodelled_returned (script : List Char) :
    Ensures tail (unmodelled script (t :: tail) >>= pure) (Statement.Lies script (t :: tail)) := by
  rw [bind_pure]
  exact unmodelled_lies script

section
variable {script : List Char} {t : Token} {tail : List Token}

theorem select_lies (hts : Ended ts) (h : (Statement.select <$> select) ts = .ok st rest) : st.Lies script ts rest := by
  rw [← bind_pure_comp] at h
  obtain ⟨s, u, hselect, hdone⟩ := ok_of_bind h
  cases hdone
  obtain ⟨t, tail, rfl, htail, hrest⟩ := ok_of_expectKeyword hts hselect
  refine (?_ : Ensures tail _ fun s => (Statement.select s).Lies script (t :: tail)) _ htail List.suffix_rfl _ _ hrest
  refine .behind (eatKeyword_runs _) fun _ => .step (skipKeyword_runs _) ?_
  refine .behind (commaSeparated_runs selectField_runs) fun _ => .behind (expectKeyword_runs _) fun _ => ?_
  refine .behind (commaSeparated_runs tableRef_runs) fun _ => .behind (repeated_runs join_consumes) fun _ => ?_
  refine .behind (introduced_runs _ (expressionUntil_runs _ _)) fun _ => ?_
  refine .behind (listClause_runs _ (expressionUntil_runs _ _)) fun _ => ?_
  refine .behind (introduced_runs _ (expressionUntil_runs _ _)) fun _ => ?_
  refine .behind (listClause_runs _ orderItem_runs) fun _ => .behind limitClause_runs fun _ => ?_
  refine .behind offsetClause_runs fun _ => .behind lexeme_runs fun _ => .ite (fun _ _ _ _ _ h => nomatch h) ?_
  exact .since fun s hs hpart => Statement.lies_of_stop hs hpart rfl rfl

theorem createIndex_lies : Ensures tail (createIndex (t :: tail)) (Statement.Lies script (t :: tail)) := by
  have hend (unique : Bool) (name : Option Identifier) : Ensures tail (Frame.indexEnd (t :: tail) unique name)
      (Statement.Lies script (t :: tail)) := by
    refine .behind (expectKeyword_runs _) fun _ => .behind (skipKeyword_runs _) fun _ => ?_
    refine .behind (qualifiedName_runs _) fun table => .behind (eatKeyword_runs _) fun _ => .step advance_runs ?_
    refine .behind (expect_runs _ _) fun _ => .behind (commaSeparated_runs indexColumn_runs) fun columns => ?_
    have hcondition : Ensures tail (Frame.conditionEnd (t :: tail) unique name table columns)
        (Statement.Lies script (t :: tail)) := by
      refine .behind (introduced_runs _ (expressionUntil_runs _ _)) fun _ => ?_
      exact .since fun s hs hpart => Statement.lies_of_stop hs hpart rfl rfl
    refine .behind (expect_runs _ _) fun _ => .behind (eatWord_runs _) fun _ => .ite ?_ hcondition
    exact .behind lexeme_runs fun _ => .step skipGroup_runs hcondition
  refine .behind (eatKeyword_runs _) fun unique => .behind (expectKeyword_runs _) fun _ => ?_
  refine .behind (skipWord_runs _) fun _ => .behind ifNotExists_runs fun _ => .behind lexeme_runs fun _ => ?_
  exact .ite (.behind (RunsFrom.pure _) (hend unique)) (.behind ((ident_runs _).map _) (hend unique))

theorem createType_lies : Ensures tail (createType script (t :: tail)) (Statement.Lies script (t :: tail)) := by
  have hkept : Ensures tail (unmodelled script (t :: tail) >>= pure) _ := unmodelled_returned script
  refine .behind (expectKeyword_runs _) fun _ => .behind (qualifiedName_runs _) fun name => ?_
  have hdone (definition : TypeDefinition) : Ensures tail
      (do return Statement.createType { name, definition, position := ← positionSince (t :: tail) })
      (Statement.Lies script (t :: tail)) :=
    .since fun s hs hpart => Statement.lies_of_stop hs hpart rfl rfl
  refine .behind lexeme_runs fun _ => .ite (hdone _) (.behind (eatKeyword_runs _) fun _ => .ite ?_ ?_)
  · exact hkept
  refine .behind (eatKeyword_runs _) fun _ => .ite ?_ ?_
  · refine .behind (expect_runs _ _) fun _ => .behind (separates_comma.rounds enumValue_runs).runs fun _ => ?_
    exact .behind (expect_runs _ _) fun _ => hdone _
  · refine .behind (eat_runs _) fun _ => .ite ?_ (unmodelled_lies script)
    refine .behind (separates_comma.rounds compositeField_runs).runs fun _ => ?_
    exact .behind (expect_runs _ _) fun _ => hdone _

theorem commentOn_lies (hts : Ended ts) (h : commentOn script ts ts = .ok st rest) : st.Lies script ts rest := by
  obtain ⟨t, tail, rfl, htail, hrest⟩ := ok_of_expectKeyword hts h
  refine (?_ : Ensures tail _ (Statement.Lies script (t :: tail))) _ htail List.suffix_rfl _ _ hrest
  have hend (target : Option CommentTarget) : Ensures tail (Frame.commentEnd script (t :: tail) target)
      (Statement.Lies script (t :: tail)) := by
    cases target with
    | none => exact unmodelled_lies script
    | some target =>
      refine .behind (expectKeyword_runs _) fun _ => .behind lexeme_runs fun l => ?_
      have hdone (text : Option String) : Ensures tail (do
            advance
            return Statement.commentOn { target, text, position := ← positionSince (t :: tail) })
          (Statement.Lies script (t :: tail)) :=
        .behind advance_runs fun _ => .since fun s hs hpart => Statement.lies_of_stop hs hpart rfl rfl
      split
      · exact .behind (RunsFrom.pure _) hdone
      · exact .behind (RunsFrom.pure _) hdone
      · exact .behind (failExpecting_runs _) hdone
  have hname (what : String) (kind : QualifiedName → CommentTarget) :
      RunsFrom tail (some <$> kind <$> qualifiedName what) := ((qualifiedName_runs what).map _).map _
  refine .behind (expectKeyword_runs _) fun _ => .behind (eatKeyword_runs _) fun _ => .ite ?_ ?_
  · exact .behind (hname _ _) hend
  · exact .behind (eatKeyword_runs _) fun _ => .ite (.behind (hname _ _) hend) (.behind (RunsFrom.pure _) hend)

theorem alterTable_lies (hts : Ended ts) (h : alterTable ts = .ok st rest) : st.Lies script ts rest := by
  obtain ⟨t, tail, rfl, htail, hrest⟩ := ok_of_expectKeyword hts h
  refine (?_ : Ensures tail _ (Statement.Lies script (t :: tail))) _ htail List.suffix_rfl _ _ hrest
  refine .behind (expectKeyword_runs _) fun _ => .behind (eatKeyword_runs _) fun _ => ?_
  refine .step (expectKeyword_runs _) (.behind (skipKeyword_runs _) fun _ => ?_)
  refine .behind (qualifiedName_runs _) fun _ => .behind (commaSeparated_runs alterAction_runs) fun _ => ?_
  exact .since fun s hs hpart => Statement.lies_of_stop hs hpart rfl rfl

-- ---------------------------------------------------------------------------
-- Updates and tables
-- ---------------------------------------------------------------------------

/-- Where something else than `p` does not stand. -/
theorem headIs_stops_of_not {p q : Lexeme → Bool} (h : headIs (stopsExpression fun l => p l || q l) s = true)
    (hno : headIs p s = false) : headIs (stopsExpression q) s = true := by
  unfold headIs at h hno ⊢
  simpa only [stopsExpression, hno, Bool.false_or] using h

theorem headIs_stops_mono {p q : Lexeme → Bool} (h : headIs (stopsExpression p) s = true)
    (hq : ∀ l, p l = true → q l = true) : headIs (stopsExpression q) s = true := by
  unfold headIs stopsExpression at h ⊢
  simp only [Bool.or_eq_true] at h ⊢
  exact h.imp_left (Or.imp_left (hq _))

theorem assignment_ends : Ensures all assignment fun _ s => headIs (stopsExpression fun l =>
    (l = .comma || l.isKeyword .WHERE || l.isKeyword .FROM || l.isWord "returning")) s = true := by
  refine .behind (qualifiedName_runs _) fun target => ?_
  split
  · exact .fail _
  · refine .behind (expect_runs _ _) fun _ => .bind (expressionUntil_runs _ _) (expressionUntil_ends _ _) ?_
    rintro _ _ - - hstop _ _ ⟨⟩
    exact hstop

theorem assignments_ends : Ensures all (commaSeparated assignment) fun _ s => headIs (stopsExpression fun l =>
    (l.isKeyword .FROM || (l.isKeyword .WHERE || l.isWord "returning"))) s = true := by
  refine separated_ends assignment_runs separates_comma assignment_ends fun s hs _ hstop u hno => ?_
  obtain ⟨hcomma, hstays⟩ := Frame.eatIf_of_ok hno
  rw [hstays rfl]
  refine headIs_stops_of_not (p := (· = .comma)) (headIs_stops_mono hstop fun l hl => ?_) hcomma.symm
  simp only [Bool.or_eq_true] at hl ⊢
  tauto

theorem updateEnd_lies (table : TableRef) (assignments : List Assignment) (hts : Ended ts) (hpart : ts <:+ tail)
    (hstop : headIs (stopsExpression fun l => l.isKeyword .WHERE || l.isWord "returning") ts = true)
    (h : Frame.updateEnd (t :: tail) table assignments ts = .ok st rest) : st.Lies script (t :: tail) rest := by
  obtain ⟨condition, s, hcondition, hrest⟩ := ok_of_bind h
  obtain ⟨hs, hleft⟩ := (introduced_runs _ (expressionUntil_runs _ _)).left hts List.suffix_rfl hcondition
  have hends : headIs endsUpdate s = true :=
    introduced_ends (expressionUntil_ends _ _) .WHERE (fun _ => headIs_stops_of_not) hts hpart hstop hcondition
  obtain ⟨position, u, hsince, hdone⟩ := ok_of_bind hrest
  cases (positionSince_of_part (hleft.trans hpart)).symm.trans hsince
  cases hdone
  exact Statement.lies_of_stop hs (hleft.trans hpart) rfl ⟨hends, rfl⟩

theorem update_lies (hts : Ended ts) (h : update ts = .ok st rest) : st.Lies script ts rest := by
  obtain ⟨t, tail, rfl, htail, hrest⟩ := ok_of_expectKeyword hts h
  refine (?_ : Ensures tail _ (Statement.Lies script (t :: tail))) _ htail List.suffix_rfl _ _ hrest
  refine .behind (skipKeyword_runs _) fun _ => .behind tableRef_runs fun table => ?_
  refine .behind (expectKeyword_runs _) fun _ => ?_
  refine .bind (commaSeparated_runs assignment_runs) assignments_ends ?_
  intro assignments ts hts hpart hstop st rest hrun
  obtain ⟨b, s, hfrom, hrest⟩ := ok_of_bind hrun
  obtain ⟨hs, hleft⟩ := (eatKeyword_runs _).left hts List.suffix_rfl hfrom
  cases b with
  | true =>
    obtain ⟨inside, u, hinside, hend⟩ := ok_of_bind hrest
    obtain ⟨hu, hfurther⟩ := (expressionTokens_runs _).left hs List.suffix_rfl hinside
    have hwhere := expressionTokens_ends _ s hs List.suffix_rfl _ _ hinside
    refine updateEnd_lies table assignments hu (hfurther.trans (hleft.trans hpart)) ?_ hend
    exact headIs_stops_mono hwhere fun l hl => by rw [hl, Bool.true_or]
  | false =>
    obtain ⟨hno, hstays⟩ := Frame.eatIf_of_ok hfrom
    obtain rfl := hstays rfl
    exact updateEnd_lies table assignments hs hpart (headIs_stops_of_not hstop hno.symm) hrest

/-- A closing parenthesis stands in front of what is left. -/
def Closed (all s : List Token) : Prop := ∃ t, t :: s <:+ all ∧ t.lexeme = .closeParen

theorem tableParts_closed : Ensures all (separated tablePart anotherPart) fun _ s => Closed all s := by
  refine separated_ends tablePart_runs separates_anotherPart (P := fun _ => True) (fun _ _ _ _ _ _ => trivial) ?_
  intro s hs hpart _ u hno
  obtain ⟨t, rfl, ht⟩ := anotherPart_ok hs hno
  exact ⟨t, hpart, ht⟩

theorem between_closed (h : Closed tail s) : ∃ u ∈ (between (t :: tail) s).getLast?, u.lexeme = .closeParen := by
  obtain ⟨u, ⟨front, rfl⟩, hu⟩ := h
  have hbetween : between (t :: (front ++ u :: s)) s = t :: front ++ [u] := by
    have hpart : s <:+ t :: (front ++ u :: s) := ⟨t :: front ++ [u], by simp⟩
    exact List.append_cancel_right ((between_append hpart).trans (by simp))
  rw [hbetween]
  exact ⟨u, List.getLast?_concat, hu⟩

theorem createTable_lies : Ensures tail (createTable script (t :: tail)) (Statement.Lies script (t :: tail)) := by
  have hkept : Ensures tail (unmodelled script (t :: tail) >>= pure) _ := unmodelled_returned script
  refine .behind (expectKeyword_runs _) fun _ => .behind ifNotExists_runs fun lenient => ?_
  refine .behind (qualifiedName_runs _) fun name => .behind (eat_runs _) fun _ => .ite ?_ ?_
  · exact hkept
  have hend (parts : List (TableConstraint ⊕ ColumnDef)) (ts : List Token) (hts : Ended ts) (hpart : ts <:+ tail)
      (hclosed : Closed tail ts) (st : Statement) (rest : List Token)
      (hrun : Frame.tableEnd (t :: tail) lenient name parts ts = .ok st rest) : st.Lies script (t :: tail) rest := by
    obtain ⟨position, u, hsince, hdone⟩ := ok_of_bind hrun
    cases (positionSince_of_part hpart).symm.trans hsince
    cases hdone
    exact Statement.lies_of_stop hts hpart rfl ⟨between_closed hclosed, rfl⟩
  intro ts hts hpart st rest hrun
  obtain ⟨b, s, hclose, hrest⟩ := ok_of_bind hrun
  obtain ⟨hs, hleft⟩ := (eat_runs _).left hts List.suffix_rfl hclose
  cases b with
  | true =>
    obtain ⟨u, rfl, hu⟩ := ok_of_eatIf rfl hts hclose
    exact hend [] s hs (hleft.trans hpart) ⟨u, hpart, of_decide_eq_true hu⟩ st rest hrest
  | false =>
    refine Ensures.bind (separates_anotherPart.items tablePart_runs).runs tableParts_closed hend s hs ?_ st rest hrest
    exact hleft.trans hpart

-- ---------------------------------------------------------------------------
-- All statements
-- ---------------------------------------------------------------------------

theorem create_lies (hts : Ended ts) (h : create script ts ts = .ok st rest) : st.Lies script ts rest := by
  obtain ⟨t, tail, rfl, htail, hrest⟩ := ok_of_expectKeyword hts h
  refine (?_ : Ensures tail _ (Statement.Lies script (t :: tail))) _ htail List.suffix_rfl _ _ hrest
  refine .behind (eatKeyword_runs _) fun _ => .step (skipWord_runs _) (.behind lexeme_runs fun l => ?_)
  split
  · exact createTable_lies
  · exact createIndex_lies
  · exact createIndex_lies
  · exact createType_lies
  · exact unmodelled_lies script

/-- A statement that is read lies in the tokens that begin with it. -/
theorem statement_lies (hts : Ended ts) (hbegins : headIs Lexeme.endsStatement ts = false)
    (h : statement script ts = .ok st rest) : st.Lies script ts rest := by
  have hother (hrun : unmodelled script ts ts = .ok st rest) : st.Lies script ts rest := by
    obtain ⟨t, tail, rfl⟩ := List.exists_cons_of_ne_nil hts.ne_nil
    have ht : t.lexeme.endsStatement = false := hbegins
    have htail := hts.behind (t := t) fun hfinish => by
      rw [hfinish] at ht
      cases ht
    have hskip : unmodelled script (t :: tail) (t :: tail) = unmodelled script (t :: tail) tail := by
      show EStateM.Result.ok _ (statementEnd (t :: tail)) = EStateM.Result.ok _ (statementEnd tail)
      rw [statementEnd, if_neg (Bool.eq_false_iff.mp ht)]
    rw [hskip] at hrun
    exact unmodelled_lies script tail htail List.suffix_rfl st rest hrun
  obtain ⟨_, _, ⟨⟩, h⟩ := ok_of_bind h
  obtain ⟨first, _, hfirst, h⟩ := ok_of_bind h
  obtain ⟨second, _, hsecond, h⟩ := ok_of_bind h
  cases hfirst
  cases hsecond
  generalize (ts.headD endToken).lexeme = first at h
  generalize (ts[1]?.map (·.lexeme)).getD .finish = second at h
  split at h
  · exact select_lies hts h
  · exact create_lies hts h
  · exact alterTable_lies hts h
  · exact commentOn_lies hts h
  · exact update_lies hts h
  · exact hother h

end

end SchemaDialects.Sql
