import SchemaDialects.Proofs.Sql.Frames

/-!
# Columns inside another script

Every production of a column, with its type and its constraints, does the same in both scripts of a
frame.
-/

namespace SchemaDialects.Sql

open Production Text

namespace Frame

variable {F : Frame}

-- ---------------------------------------------------------------------------
-- Statements kept as text
-- ---------------------------------------------------------------------------

theorem take_alike (h : F.Related ts ts') (hn : n < ts.length) :
    List.Forall₂ F.Alike (ts.take n) (ts'.take n) := by
  induction h generalizing n with
  | ended =>
    obtain rfl : n = 0 := by simpa using hn
    exact .nil
  | token ht _ _ _ ih =>
    cases n with
    | zero => exact .nil
    | succ n => exact .cons ht (ih (Nat.lt_of_succ_lt_succ hn))

theorem between_alike (h : F.Related start start') (hs : F.Related s s') :
    List.Forall₂ F.Alike (between start s) (between start' s') := by
  have hsame : start'.length - s'.length = start.length - s.length := by
    rw [h.length, hs.length, Nat.add_sub_add_right]
  have hpos : 0 < s.length := List.length_pos_iff.mpr hs.ne_nil.1
  have hstart : 0 < start.length := List.length_pos_iff.mpr h.ne_nil.1
  rw [between, between, hsame]
  exact take_alike h (by omega)

theorem getLast?_alike (h : List.Forall₂ F.Alike (t :: ts) (t' :: ts')) :
    ∃ u u', (t :: ts).getLast? = some u ∧ (t' :: ts').getLast? = some u' ∧ F.Alike u u' := by
  induction ts generalizing t t' ts' with
  | nil =>
    cases h with
    | cons ht hts =>
      cases hts
      exact ⟨t, t', rfl, rfl, ht⟩
  | cons v ts ih =>
    cases h with
    | cons ht hts =>
      cases hts with
      | cons hv hts =>
        obtain ⟨u, u', hu, hu', halike⟩ := ih (.cons hv hts)
        exact ⟨u, u', by rw [List.getLast?_cons_cons, hu], by rw [List.getLast?_cons_cons, hu'], halike⟩

/-- The text of some tokens is the same in both scripts. -/
theorem sourceText_alike (h : List.Forall₂ F.Alike taken taken') :
    sourceText F.script taken = sourceText F.whole taken' := by
  cases h with
  | nil =>
    have hnone : ∀ cs : List Char, slice 0 0 cs = [] := fun cs => by
      cases cs <;> rfl
    simp only [sourceText, List.head?_nil, List.getLast?_nil, Option.map_none, Option.getD_none, hnone]
  | cons ht hts =>
    obtain ⟨u, u', hu, hu', halike⟩ := getLast?_alike (.cons ht hts)
    obtain ⟨before, behind, hscript, hbegin⟩ := ht.begins
    have hle := halike.ends
    rw [hscript] at hle
    simp only [sourceText, hu, hu', List.head?_cons, Option.map_some, Option.getD_some, ht.start, halike.stop,
      hbegin, whole, hscript, slice_inside F.front F.back hle]

theorem unmodelled_sim (h : F.Related start start') :
    F.Sim Statement.bare (unmodelled F.script start) (unmodelled F.whole start') := by
  refine skipStatement_sim.bindSame fun _ => .tokens fun s s' hs => .pure ?_
  simp only [Statement.bare, sourceText_alike (between_alike h hs)]

-- ---------------------------------------------------------------------------
-- Foreign keys
-- ---------------------------------------------------------------------------

/-- The action that two lexemes announce. -/
def action? : Lexeme → Lexeme → Option ReferentialAction
  | .keyword .CASCADE, _ => some .cascade
  | .keyword .RESTRICT, _ => some .restrict
  | .keyword .SET, .keyword .NULL => some .setNull
  | .keyword .SET, .keyword .DEFAULT => some .setDefault
  | .keyword .NO, _ => some .noAction
  | _, _ => none

theorem referentialAction_eq : referentialAction = (do
    let first ← lexeme
    let second ← peek 1
    match action? first second with
    | none => failExpecting "referential action"
    | some action =>
      advance
      match action with
      | .cascade | .restrict => return action
      | _ =>
        advance
        return action) := by
  refine bind_congr fun first => bind_congr fun second => ?_
  split
  case h_6 =>
    have hnone : action? first second = none := by simp_all [action?]
    rw [hnone]
    rfl
  all_goals rfl

theorem takesNext_of_noAction (h : action? l second = some .noAction) : l.takesNext = true := by
  unfold action? at h
  split at h
  case h_5 => rfl
  all_goals exact nomatch h

theorem action?_finish (l : Lexeme) :
    action? l .finish ≠ some .setNull ∧ action? l .finish ≠ some .setDefault := by
  unfold action?
  split <;> simp_all

theorem referentialAction_sim : F.Sim id referentialAction referentialAction := by
  rw [referentialAction_eq]
  refine .look rfl (fun _ _ h => failExpecting_sim id _ _ _ h) fun t t' s s' ht h hs => ?_
  have hsame : action? t.lexeme .semicolon = action? t.lexeme .finish := by
    cases t.lexeme with
    | keyword k => cases k <;> rfl
    | _ => rfl
  refine .peek (by rw [hsame]) hs fun second hsecond => ?_
  cases haction : action? t.lexeme second with
  | none => exact failExpecting_sim id _ _ _ h
  | some action =>
    cases action with
    | cascade => exact .over hs (.pure rfl)
    | restrict => exact .over hs (.pure rfl)
    | setNull =>
      refine .advanceBoth hs (hsecond ?_) (.pure rfl)
      rintro rfl
      exact (action?_finish _).1 haction
    | setDefault =>
      refine .advanceBoth hs (hsecond ?_) (.pure rfl)
      rintro rfl
      exact (action?_finish _).2 haction
    | noAction => exact .advanceTwice h hs (takesNext_of_noAction haction) (.pure rfl)

/-- What a clause with these two lexemes in front is read as. -/
def clauseAt (l second : Lexeme) : Production (Option ReferenceClause) := do
  if l.isKeyword .ON && second.isKeyword .DELETE then
    advance
    advance
    return some (.onDelete (← referentialAction))
  else if l.isKeyword .ON && second.isKeyword .UPDATE then
    advance
    advance
    return some (.onUpdate (← referentialAction))
  else if l.isWord "match" || l.isWord "initially" then
    advance
    advance
    return some .timing
  else if l.isWord "deferrable" then
    advance
    return some .timing
  else if l.isKeyword .NOT && second.isWord "deferrable" then
    advance
    advance
    return some .timing
  else return none

theorem referenceClause_eq : referenceClause = (do
    let l ← lexeme
    let second ← peek 1
    clauseAt l second) := by
  have hite : ∀ {α : Type} {c : Prop} [Decidable c] {p p' q q' : Production α} {ts : List Token},
      (c → p ts = p' ts) → (¬c → q ts = q' ts) → (if c then p else q) ts = (if c then p' else q') ts := by
    intro α c _ p p' q q' ts hp hq
    split
    · exact hp ‹_›
    · exact hq ‹_›
  funext ts
  refine hite (fun _ => rfl) fun _ => hite (fun _ => rfl) fun _ => hite (fun _ => rfl) fun _ => ?_
  exact (eatIf_bind _ ts).trans (hite (fun _ => rfl) fun _ => rfl)

theorem referenceClause_sim : F.Sim id referenceClause referenceClause := by
  rw [referenceClause_eq]
  refine .look rfl (fun _ _ h => .ok rfl h List.suffix_rfl) fun t t' s s' ht h hs => ?_
  have hsame : clauseAt t.lexeme .semicolon = clauseAt t.lexeme .finish := rfl
  refine .peek hsame hs fun second hsecond => ?_
  have haction : ∀ clause : ReferentialAction → ReferenceClause, F.Sim id
      (do return some (clause (← referentialAction))) (do return some (clause (← referentialAction))) :=
    fun clause => referentialAction_sim.bindSame fun _ => .pure rfl
  have hbehind : ∀ p : Lexeme → Bool, p .finish = false → p second = true → F.Further s s' := by
    intro p hno hyes
    refine hsecond ?_
    rintro rfl
    exact absurd hyes (Bool.eq_false_iff.mp hno)
  unfold clauseAt
  split
  · next hon => exact .advanceBoth hs (hbehind _ rfl (Bool.and_eq_true_iff.mp hon).2) (haction .onDelete)
  split
  · next hon => exact .advanceBoth hs (hbehind _ rfl (Bool.and_eq_true_iff.mp hon).2) (haction .onUpdate)
  split
  · next htiming =>
    have htakes : t.lexeme.takesNext = true := by
      rcases Bool.or_eq_true_iff.mp htiming with hmatch | hinitially
      · simp [Lexeme.takesNext, hmatch]
      · simp [Lexeme.takesNext, hinitially]
    exact .advanceTwice h hs htakes (.pure rfl)
  split
  · exact .over hs (.pure rfl)
  split
  · next hnot => exact .advanceBoth hs (hbehind _ rfl (Bool.and_eq_true_iff.mp hnot).2) (.pure rfl)
  · exact .ok rfl h List.suffix_rfl

/-- What stands behind the referenced columns. -/
def referenceEnd (table : QualifiedName) (columns : List Identifier) : Production ForeignKeyRef := do
  let clauses ← repeated referenceClause
  let deletes := clauses.filterMap fun | .onDelete a => some a | _ => none
  let updates := clauses.filterMap fun | .onUpdate a => some a | _ => none
  return { table, columns, onDelete := deletes.getLast?, onUpdate := updates.getLast? }

theorem referenceEnd_sim {table table' : QualifiedName} {columns columns' : List Identifier}
    (htable : table.bare = table'.bare)
    (hcolumns : columns.map Identifier.bare = columns'.map Identifier.bare) :
    F.Sim ForeignKeyRef.bare (referenceEnd table columns) (referenceEnd table' columns') := by
  refine Sim.bind (f := List.map id) (repeated_sim ?_) fun clauses clauses' hclauses => .pure ?_
  · rw [Option.map_id]
    exact referenceClause_sim
  · obtain rfl : clauses = clauses' := by simpa using hclauses
    simp only [ForeignKeyRef.bare, htable, hcolumns]

theorem references_sim : F.Sim ForeignKeyRef.bare references references := by
  refine (expectKeyword_sim _).bindSame fun _ => (qualifiedName_sim _).bind fun table table' htable => ?_
  have hend : ∀ columns columns', columns.map Identifier.bare = columns'.map Identifier.bare →
      F.Sim ForeignKeyRef.bare (referenceEnd table columns) (referenceEnd table' columns') :=
    fun _ _ hcolumns => referenceEnd_sim htable hcolumns
  exact .lexeme rfl rfl fun l => .ite (identList_sim.bind hend) (.bind (.pure rfl) hend)

-- ---------------------------------------------------------------------------
-- Columns
-- ---------------------------------------------------------------------------

theorem endsDataType_related (hstart : F.Related start start') (h : F.Related ts ts') :
    endsDataType start ts = endsDataType start' ts' := by
  have hlength : ts'.length < start'.length ↔ ts.length < start.length := by
    rw [h.length, hstart.length]
    omega
  have hset : begins [(·.isWord "character"), (·.isKeyword .SET)] ts =
      begins [(·.isWord "character"), (·.isKeyword .SET)] ts' :=
    begins_eq (by simp [Inside, Lexeme.isWord, Lexeme.isKeyword]) h
  simp only [begins, Bool.and_true, ← List.drop_one] at hset
  have hcolumn : headIs startsColumnConstraint ts = headIs startsColumnConstraint ts' :=
    headIs_eq ⟨rfl, rfl⟩ h
  have hcomma : headIs (· = .comma) ts = headIs (· = .comma) ts' := headIs_eq ⟨rfl, rfl⟩ h
  have hcollate : headIs (fun l => l.isWord "collate" || l.isWord "charset") ts =
      headIs (fun l => l.isWord "collate" || l.isWord "charset") ts' := headIs_eq ⟨rfl, rfl⟩ h
  simp only [endsDataType, hlength, hset, hcolumn, hcomma, hcollate]

theorem dataType_eq : dataType = (do
    let start ← tokens
    let taken ← splitOff (endsDataType start)
    if taken.isEmpty then failExpecting "data type"
    return ⟨renderTokens false taken, tokensPosition taken⟩) := rfl

theorem dataType_sim : F.Sim DataType.bare dataType dataType := by
  rw [dataType_eq]
  refine .tokens fun start start' hstart => ?_
  refine (splitOff_sim fun _ _ => endsDataType_related hstart).bind fun taken taken' htaken => ?_
  rw [isEmpty_congr htaken]
  refine .step (failExpecting_sim id _) (.pure ?_)
  simp only [DataType.bare, renderTokens_congr htaken]

theorem defaultValue_sim : F.Sim Expression.bare defaultValue defaultValue := by
  have hother : F.Sim Expression.bare (expressionUntil endsDefault "default value")
      (expressionUntil endsDefault "default value") := expressionUntil_sim ⟨rfl, rfl⟩ _
  refine .look rfl hother fun t t' s s' ht h hs => ?_
  split
  · have hbare : [t].map Token.bare = [t'].map Token.bare := by simp [ht.bare]
    show F.Agree Expression.bare _
      ((do advance; return .ofTokens [t] : Production Expression) (t :: s))
      ((do advance; return .ofTokens [t'] : Production Expression) (t' :: s'))
    exact .over hs (.pure (bare_ofTokens hbare))
  · exact hother _ _ h

theorem computed_sim : F.Sim ColumnRule.bare computed computed := by
  refine parenthesized_sim.bind fun e e' he => (eatKeyword_sim _).bindSame fun b => ?_
  exact .step (skipWord_sim _) (.pure (congrArg ColumnRule.generated he))

theorem someComputed_sim : F.Sim (Option.map ColumnRule.bare)
    (do return some (← computed)) (do return some (← computed)) :=
  computed_sim.bind fun _ _ hrule => .pure (congrArg some hrule)

/-- What stands behind GENERATED ALWAYS. -/
def generatedEnd : Production (Option ColumnRule) := do
  expectKeyword .AS
  if ← eatWord "identity" then
    if (← lexeme) = .openParen then skipGroup
    return some .autoIncrement
  else return some (← computed)

theorem generatedEnd_sim : F.Sim (Option.map ColumnRule.bare) generatedEnd generatedEnd := by
  refine (expectKeyword_sim _).bindSame fun _ => (eatWord_sim _).bindSame fun b => .ite ?_ someComputed_sim
  exact .lexeme rfl rfl fun l => .step skipGroup_sim (.pure rfl)

/-- A rule read at a token of the script. One that nothing is known of is passed over. -/
theorem columnRule_token (named : Bool) (ht : F.Alike t t') (h : F.Related (t :: s) (t' :: s'))
    (hs : F.Related s s') :
    F.Agree (Option.map ColumnRule.bare) (t :: s) (columnRule named (t :: s))
      (columnRule named (t' :: s')) := by
  unfold columnRule
  refine .lexeme ht ?_
  generalize hl : t.lexeme = l
  split
  · exact .over hs ((expectKeyword_sim _).bindSame fun _ => .pure rfl)
  · exact .over hs (.pure rfl)
  · refine .over hs ((expectKeyword_sim _).bindSame fun _ => (eatKeyword_sim _).bindSame fun b => ?_)
    exact .step (skipKeyword_sim _) (.pure rfl)
  · exact .over hs ((skipKeyword_sim _).bindSame fun _ => .pure rfl)
  · exact .over hs (.pure rfl)
  · refine .over hs (defaultValue_sim.bind fun _ _ hvalue => .pure ?_)
    exact congrArg (some ∘ ColumnRule.default) hvalue
  · refine .over hs (parenthesized_sim.bind fun _ _ hcondition => .pure ?_)
    exact congrArg (some ∘ ColumnRule.check) hcondition
  · refine Sim.from (references_sim.bind fun _ _ htarget => .pure ?_) h List.suffix_rfl
    exact congrArg (some ∘ ColumnRule.references) htarget
  · refine .over hs ((eatKeyword_sim _).bindSame fun b => .ite ?_ ?_)
    · exact (expectKeyword_sim _).bindSame fun _ => generatedEnd_sim
    · exact (expectKeyword_sim _).bindSame fun _ => generatedEnd_sim
  · exact .over hs someComputed_sim
  · refine .over hs (.look rfl (failExpecting_sim _ _) fun u u' v v' _ h hv => ?_)
    generalize u.lexeme = l
    split
    · exact .over hv (.pure rfl)
    · exact failExpecting_sim _ _ _ _ h
  · have htakes : t.lexeme.takesNext = true := by
      rw [hl]
      rfl
    have hstop : Inside endsDefault := ⟨rfl, rfl⟩
    exact .advanceTwice h hs htakes ((expressionTokens_sim hstop).bind fun _ _ _ => .pure rfl)
  · split
    · exact .over hs (.pure rfl)
    split
    · exact failExpecting_sim _ _ _ _ h
    · exact .over hs (.pure rfl)

theorem columnRule_named :
    F.Sim (Option.map ColumnRule.bare) (columnRule true) (columnRule true) := by
  have hfail : ∀ {t : Token} {s : List Token}, t.lexeme.endsStatement = true →
      columnRule true (t :: s) = (failExpecting "constraint" : Production (Option ColumnRule)) (t :: s) := by
    intro t s ht
    unfold columnRule
    rw [lexeme_bind]
    cases hl : t.lexeme <;> first | rfl | simp [hl, Lexeme.endsStatement] at ht
  intro ts ts' h
  cases h with
  | ended =>
    rw [hfail F.last_ends, hfail F.next_ends]
    exact failExpecting_sim _ _ _ _ .ended
  | token ht hfinish hnext hs => exact columnRule_token true ht (.token ht hfinish hnext hs) hs

theorem introduced_bind (rest : Option α → Production β) (ts : List Token) :
    (introduced k item >>= rest) ts =
      (if headIs (·.isKeyword k) ts then advance >>= fun _ => item >>= fun a => rest (some a)
        else rest none) ts := by
  have hassoc : (introduced k item >>= rest) = eatKeyword k >>= fun b =>
      if b then item >>= fun a => rest (some a) else rest none := by
    rw [introduced, bind_assoc]
    refine bind_congr fun b => ?_
    split
    · rw [bind_assoc]
      simp only [pure_bind]
    · rw [pure_bind]
  rw [hassoc]
  exact eatIf_bind _ ts

theorem constraintName_sim :
    F.Sim (Option.map Identifier.bare) constraintName constraintName :=
  introduced_sim _ (ident_sim _)

/-- The constraint that a rule makes. -/
def constraintEnd (start : List Token) (name : Option Identifier) :
    Option ColumnRule → Production (Option (Option ColumnConstraint))
  | none => return some none
  | some rule => return some (some { name, rule, position := ← positionSince start })

theorem constraintEnd_sim (start start' : List Token) {name name' : Option Identifier}
    (hname : name.map Identifier.bare = name'.map Identifier.bare) (rule rule' : Option ColumnRule)
    (hrule : rule.map ColumnRule.bare = rule'.map ColumnRule.bare) :
    F.Sim (Option.map (Option.map ColumnConstraint.bare)) (constraintEnd start name rule)
      (constraintEnd start' name' rule') := by
  obtain ⟨rfl, rfl⟩ | ⟨rule, rule', rfl, rfl, hsame⟩ := option_cases hrule
  · exact .pure rfl
  · refine (positionSince_sim start start').bind fun _ _ _ => .pure ?_
    simp only [Option.map_some, ColumnConstraint.bare, hname, hsame]

/-- Without a name, the rule of a constraint is read at a token of the script. -/
theorem columnConstraint_sim :
    F.Sim (Option.map (Option.map ColumnConstraint.bare)) columnConstraint columnConstraint := by
  refine .look rfl (.pure rfl) fun t t' s s' ht h hs => ?_
  split
  · exact .ok rfl h List.suffix_rfl
  · show F.Agree _ _ ((constraintName >>= fun name => columnRule name.isSome >>= constraintEnd (t :: s) name)
      (t :: s)) ((constraintName >>= fun name => columnRule name.isSome >>= constraintEnd (t' :: s') name)
      (t' :: s'))
    rw [constraintName, introduced_bind, introduced_bind, ← headIs_eq (inside_keyword _) h]
    split
    · refine .over hs ?_
      exact (ident_sim _).bind fun name name' hname =>
        columnRule_named.bind (constraintEnd_sim _ _ (congrArg some hname))
    · exact (columnRule_token false ht h hs).bind (constraintEnd_sim _ _ rfl)

theorem columnDef_sim : F.Sim ColumnDef.bare columnDef columnDef := by
  refine .tokens fun start start' _ => (ident_sim _).bind fun name name' hname => ?_
  refine dataType_sim.bind fun type type' htype => ?_
  refine (repeated_sim columnConstraint_sim).bind fun constraints constraints' hconstraints => ?_
  refine (positionSince_sim _ _).bind fun _ _ _ => .pure ?_
  have hall : (constraints.filterMap id).map ColumnConstraint.bare =
      (constraints'.filterMap id).map ColumnConstraint.bare := by
    have hsame := congrArg (List.filterMap id) hconstraints
    rw [List.filterMap_map, List.filterMap_map] at hsame
    simpa only [List.map_filterMap, Function.id_comp, id] using hsame
  simp only [ColumnDef.bare, hname, htype, hall]

end Frame

end SchemaDialects.Sql
