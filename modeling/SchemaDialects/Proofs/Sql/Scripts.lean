import SchemaDialects.Proofs.Sql.Commands

/-!
# Scripts of commands

A script is written command by command, each with a semicolon and a line feed behind it, and with line
feeds between its sections. `readStatements_commands` is the result: such a script is read without
problems as statements that say what the commands say.
-/

namespace SchemaDialects.Sql

open Production

/-- The tokens of a script. -/
def scriptTokens (commands : List Command) : List Token :=
  commands.flatMap fun c => c.tokens ++ [semicolonToken]

-- ---------------------------------------------------------------------------
-- Reading
-- ---------------------------------------------------------------------------

/-- Every command begins with a keyword. -/
theorem command_head (c : Command) : ∃ k vs, c.tokens = keyToken k :: vs := by
  cases c <;> exact ⟨_, _, rfl⟩

theorem skipSemicolons_other (h : t.lexeme ≠ .semicolon) :
    skipSemicolons (t :: rest) = t :: rest := by
  rw [skipSemicolons, if_neg h]

/-- The semicolon of the command in front is skipped. -/
theorem skipSemicolons_spells (hts : Spells ts ws ∨ Spells ts (semicolonToken :: ws))
    (hws : ∀ w ∈ ws.head?, w.lexeme ≠ .semicolon) : Spells (skipSemicolons ts) ws := by
  have hnone : ∀ us, Spells us ws → skipSemicolons us = us := by
    intro us hus
    cases ws with
    | nil =>
      obtain ⟨t, rfl, ht⟩ := List.map_eq_singleton_iff.mp hus
      exact skipSemicolons_other (by simp [lexeme_of_bare ht, endToken])
    | cons w ws =>
      obtain ⟨t, u, rest, rfl, ht, -⟩ := hus.cons
      exact skipSemicolons_other (by rw [lexeme_of_bare ht]; exact hws w rfl)
  rcases hts with hts | hts
  · rwa [hnone ts hts]
  · obtain ⟨t, u, rest, rfl, ht, hrest⟩ := hts.cons
    have hskip : t.lexeme = .semicolon := lexeme_of_bare ht
    rw [skipSemicolons, if_pos hskip, hnone _ hrest]
    exact hrest

/-- What a statement contributes, with the problems in it. -/
abbrev Outcome := List Statement × List Diagnostic

/-- The command is passed over up to its own semicolon, and this is what it contributes. -/
def Command.Gives (script : List Char) (c : Command) (Q : Outcome → Prop) : Prop :=
  ∀ ts ws, Spells ts (c.tokens ++ semicolonToken :: ws) → ∃ found problems rest,
    readStatement script ts = (found, problems, rest) ∧ Spells rest (semicolonToken :: ws) ∧ Q (found, problems)

/-- Nothing but what the command says. -/
def Command.Meant (c : Command) (outcome : Outcome) : Prop := ∃ s, outcome = ([s], []) ∧ c.Says s

theorem gives_command (script : List Char) {c : Command} (h : c.Fits) : c.Gives script c.Meant := by
  intro ts ws hts
  obtain ⟨s, rest, hread, hrest, hs⟩ := statement_yields h ts hts
  refine ⟨[s], [], rest, ?_, hrest, s, rfl, hs⟩
  obtain ⟨t, u, more, rfl, ht, -⟩ := hrest.cons
  have hends : headIs Lexeme.endsStatement (t :: u :: more) = true := by
    rw [headIs, List.headD_cons, lexeme_of_bare ht]
    rfl
  rw [readStatement, hread]
  simp only [hends, if_true]

theorem Command.Gives.mono {c : Command} (h : c.Gives script Q) (hQ : ∀ outcome, Q outcome → R outcome) :
    c.Gives script R := by
  intro ts ws hts
  obtain ⟨found, problems, rest, hread, hrest, hgives⟩ := h ts ws hts
  exact ⟨found, problems, rest, hread, hrest, hQ _ hgives⟩

/-- Statement by statement, with the semicolon of the command in front still there or not. -/
theorem statements_outcomes (script : List Char) {R : Command → Outcome → Prop} {commands : List Command}
    (h : ∀ c ∈ commands, c.Gives script (R c))
    (hts : Spells ts (scriptTokens commands) ∨ Spells ts (semicolonToken :: scriptTokens commands)) :
    ∃ outcomes, statements script ts = (outcomes.flatMap (·.1), outcomes.flatMap (·.2)) ∧
      List.Forall₂ R commands outcomes := by
  induction commands generalizing ts with
  | nil =>
    have hbegun := skipSemicolons_spells hts (by simp [scriptTokens])
    obtain ⟨t, hskip, ht⟩ := List.map_eq_singleton_iff.mp hbegun
    refine ⟨[], ?_, .nil⟩
    have hfinish : headIs (· = .finish) [t] = true := by
      rw [headIs, List.headD_cons, lexeme_of_bare ht]
      rfl
    rw [statements, hskip]
    simp only [hfinish, if_true, List.flatMap_nil]
  | cons c commands ih =>
    obtain ⟨k, vs, hk⟩ := command_head c
    have htokens : scriptTokens (c :: commands) =
        c.tokens ++ semicolonToken :: scriptTokens commands := by
      rw [scriptTokens, List.flatMap_cons, List.append_assoc]
      rfl
    have hhead : ∀ w ∈ (scriptTokens (c :: commands)).head?, w.lexeme ≠ .semicolon := by
      rw [htokens, hk]
      rintro _ ⟨⟩
      simp [keyToken]
    have hbegun := skipSemicolons_spells hts hhead
    rw [htokens] at hbegun hts
    have hfinish : headIs (· = .finish) (skipSemicolons ts) = false := by
      have hkeyword := hbegun
      rw [hk] at hkeyword
      obtain ⟨t, u, rest, hskip, ht, -⟩ := hkeyword.cons
      rw [hskip, headIs, List.headD_cons, lexeme_of_bare ht]
      rfl
    obtain ⟨found, problems, rest, hread, hrest, hgives⟩ := h c List.mem_cons_self _ _ hbegun
    have hlt : rest.length < ts.length := by
      have hrest := hrest.length
      rw [hk] at hts
      rcases hts with hts | hts
      · have hts := hts.length
        simp only [List.length_append, List.length_cons] at hrest hts
        omega
      · have hts := hts.length
        simp only [List.length_append, List.length_cons] at hrest hts
        omega
    obtain ⟨outcomes, hmore, hgiven⟩ := ih (fun d hd => h d (List.mem_cons_of_mem _ hd)) (.inr hrest)
    refine ⟨(found, problems) :: outcomes, ?_, .cons hgives hgiven⟩
    rw [statements]
    simp only [hfinish, hread, hmore, if_pos hlt]
    rfl

theorem readStatements_outcomes {R : Command → Outcome → Prop} {commands : List Command}
    (h : ∀ c ∈ commands, c.Gives text.toList (R c)) (htext : Lexes text.toList [] (scriptTokens commands)) :
    ∃ outcomes, List.Forall₂ R commands outcomes ∧ readStatements text =
      if (outcomes.flatMap (·.1)).isEmpty && (outcomes.flatMap (·.2)).any Diagnostic.isError
      then .failure (outcomes.flatMap (·.2))
      else { value := some (outcomes.flatMap (·.1)), diagnostics := outcomes.flatMap (·.2) } := by
  obtain ⟨ts, htokens, hts⟩ := tokenize_of_lexes htext
  obtain ⟨outcomes, hfound, hgiven⟩ := statements_outcomes text.toList h (.inl hts)
  refine ⟨outcomes, hgiven, ?_⟩
  rw [readStatements, htokens]
  simp only [hfound, List.nil_append]

theorem readStatements_commands {commands : List Command} (h : ∀ c ∈ commands, c.Fits)
    (htext : Lexes text.toList [] (scriptTokens commands)) :
    ∃ found, readStatements text = { value := some found } ∧
      List.Forall₂ Command.Says commands found := by
  obtain ⟨outcomes, hgiven, hresult⟩ := readStatements_outcomes (R := Command.Meant)
    (fun c hc => gives_command text.toList (h c hc)) htext
  obtain ⟨found, rfl, hmeant⟩ : ∃ found : List Statement,
      outcomes = found.map (fun s => ([s], [])) ∧ List.Forall₂ Command.Says commands found := by
    clear hresult htext h
    induction hgiven with
    | nil => exact ⟨[], rfl, .nil⟩
    | cons hfirst _ ih =>
      obtain ⟨s, rfl, hs⟩ := hfirst
      obtain ⟨found, rfl, hmeant⟩ := ih
      exact ⟨s :: found, rfl, .cons hs hmeant⟩
  have hfound : (found.map fun s => ([s], ([] : List Diagnostic))).flatMap (·.1) = found := by
    simp [List.flatMap_map]
  have hclean : (found.map fun s => ([s], ([] : List Diagnostic))).flatMap (·.2) = [] := by
    simp [List.flatMap_map]
  rw [hfound, hclean] at hresult
  exact ⟨found, hresult.trans (if_neg (by simp)), hmeant⟩

-- ---------------------------------------------------------------------------
-- Writing
-- ---------------------------------------------------------------------------

def TypeBody.text : TypeBody → String
  | shell => ""
  | enumeration values => " AS ENUM (" ++ ", ".intercalate (values.map stringLiteral) ++ ")"
  | composite fields => " AS (" ++ ", ".intercalate (fields.map Field.text) ++ ")"

def tableBodyText (parts : List Part) : String :=
  if parts.isEmpty then ")" else "\n  " ++ ",\n  ".intercalate (parts.map Part.text) ++ "\n)"

/-- The text in front of the semicolon. -/
def Command.text : Command → String
  | type space name body =>
    "CREATE TYPE " ++ Flavor.postgres.qualified space name ++ body.text
  | table id columns constraints =>
    "CREATE TABLE " ++ Flavor.postgres.qualifiedEntity id ++ " (" ++
      tableBodyText (Sql.tableParts columns constraints)
  | index form => "CREATE " ++ form.text
  | tableDoc id doc =>
    "COMMENT ON TABLE " ++ Flavor.postgres.qualifiedEntity id ++ " IS " ++ stringLiteral doc
  | columnDoc id column doc =>
    "COMMENT ON COLUMN " ++ Flavor.postgres.qualifiedEntity id ++ "." ++
      Flavor.postgres.quoteName column ++ " IS " ++ stringLiteral doc
  | key id constraint =>
    "ALTER TABLE " ++ Flavor.postgres.qualifiedEntity id ++ " ADD " ++ constraint.text

/-- The commands of a section, one after the other. -/
def sectionText (commands : List Command) : String :=
  String.join (commands.map fun c => c.text ++ ";\n")

theorem lexes_typeBody {body : TypeBody} (h : body.Fits) : Lexes body.text.toList rest body.tokens := by
  cases body with
  | shell => exact .nil
  | enumeration values =>
    have hhead : ∀ rest, Lexes " AS ENUM (".toList rest [keyToken .AS, keyToken .ENUM, openToken] :=
      fun _ => lexes_blank.append ((lexes_phrase [.AS, .ENUM]).append lexes_open)
    have hvalues : Lexes (", ".intercalate (values.map stringLiteral)).toList (')' :: rest)
        ([commaToken].intercalate (values.map fun v => [literalToken v])) := by
      refine lexes_intercalate (fun _ _ _ => lexes_comma.append lexes_blank) fun v hv us hus => ?_
      refine lexes_stringLiteral v (h v hv) ?_
      rcases hus with rfl | ⟨more, rfl⟩
      · simp [Stops]
      · simp [Stops]
    show Lexes (" AS ENUM (" ++ ", ".intercalate (values.map stringLiteral) ++ ")").toList rest _
    rw [String.toList_append, String.toList_append, List.append_assoc]
    exact Lexes.append (hhead _) (hvalues.append lexes_close)
  | composite fields =>
    have hhead : ∀ rest, Lexes " AS (".toList rest [keyToken .AS, openToken] :=
      fun _ => lexes_blank.append ((lexes_phrase [.AS]).append lexes_open)
    have hfields : Lexes (", ".intercalate (fields.map Field.text)).toList (')' :: rest)
        ([commaToken].intercalate (fields.map Field.tokens)) := by
      refine lexes_intercalate (fun _ _ _ => lexes_comma.append lexes_blank) fun f hf us hus => ?_
      refine lexes_field (h f hf) ?_
      rcases hus with rfl | ⟨more, rfl⟩
      · simp [Closes]
      · simp [Closes]
    show Lexes (" AS (" ++ ", ".intercalate (fields.map Field.text) ++ ")").toList rest _
    rw [String.toList_append, String.toList_append, List.append_assoc]
    exact Lexes.append (hhead _) (hfields.append lexes_close)

theorem lexes_tableBody {parts : List Part} (h : ∀ p ∈ parts, p.Fits) :
    Lexes (tableBodyText parts).toList rest
      ([commaToken].intercalate (parts.map Part.tokens) ++ [closeToken]) := by
  cases parts with
  | nil => exact lexes_close
  | cons p parts =>
    have hhead : ∀ rest, Lexes "\n  ".toList rest [] :=
      fun _ => lexes_feed.append (lexes_blank.append lexes_blank)
    have hlast : ∀ rest, Lexes "\n)".toList rest [closeToken] :=
      fun _ => lexes_feed.append lexes_close
    have hjoin : ∀ rest, Lexes ",\n  ".toList rest [commaToken] :=
      fun _ => lexes_comma.append (lexes_feed.append (lexes_blank.append lexes_blank))
    have hparts : Lexes (",\n  ".intercalate ((p :: parts).map Part.text)).toList
        ("\n)".toList ++ rest) ([commaToken].intercalate ((p :: parts).map Part.tokens)) := by
      refine lexes_intercalate (fun _ _ _ => hjoin _) fun p hp us hus => lexes_part (h p hp) ?_
      rcases hus with rfl | ⟨more, rfl⟩
      · simp [Closes]
      · simp [Closes]
    show Lexes ("\n  " ++ ",\n  ".intercalate ((p :: parts).map Part.text) ++ "\n)").toList rest _
    rw [String.toList_append, String.toList_append, List.append_assoc]
    have hall := Lexes.append (hhead _) (hparts.append (hlast _))
    exact hall

theorem lexes_docText (h : '\\' ∉ doc.toList) (hrest : Stops rest) :
    Lexes (" IS " ++ stringLiteral doc).toList rest [keyToken .IS, literalToken doc] := by
  rw [String.toList_append]
  exact lexes_blank.append ((lexes_phrase [.IS]).append (lexes_stringLiteral doc h hrest))

/-- The name of a column behind the name of its table. -/
theorem dottedTokens_snoc (hne : parts ≠ []) :
    dottedTokens (parts ++ [last]) = dottedTokens parts ++ [dotToken, nameToken last] := by
  induction parts with
  | nil => exact absurd rfl hne
  | cons part parts ih =>
    cases parts with
    | nil => rfl
    | cons next parts =>
      have htail := ih (by simp)
      simp only [dottedTokens, List.cons_append, List.map_cons, List.intercalate_cons_cons] at htail ⊢
      rw [htail]
      rfl

/-- Commands whose text is cut into their tokens. -/
def Command.Even : Command → Prop
  | key _ constraint => constraint.clause.Even
  | c => c.Fits

theorem Command.Fits.even {c : Command} (h : c.Fits) : c.Even := by
  cases c with
  | key id constraint => exact h.1.even
  | _ => exact h

theorem stops_typeBody (body : TypeBody) (h : Stops rest) : Stops (body.text.toList ++ rest) := by
  cases body with
  | shell => exact h
  | enumeration values =>
    show Stops ((" AS ENUM (" ++ ", ".intercalate (values.map stringLiteral) ++ ")").toList ++ _)
    rw [String.toList_append, String.toList_append]
    exact stops_cons.mpr (by decide)
  | composite fields =>
    show Stops ((" AS (" ++ ", ".intercalate (fields.map Field.text) ++ ")").toList ++ _)
    rw [String.toList_append, String.toList_append]
    exact stops_cons.mpr (by decide)

/-- Key words, a name behind them and what is said of it. -/
theorem lexes_about {words tail : String} (space : Namespace) (name : String)
    (hwords : ∀ rest, Lexes words.toList rest ts) (hstops : Stops (tail.toList ++ rest))
    (htail : Lexes tail.toList rest us) :
    Lexes (words ++ Flavor.postgres.qualified space name ++ tail).toList rest
      (ts ++ (dottedTokens (nameParts space name) ++ us)) := by
  rw [String.toList_append, String.toList_append, List.append_assoc]
  exact (hwords _).append ((lexes_qualified space name hstops).append htail)

theorem lexes_command {c : Command} (h : c.Even) :
    Lexes c.text.toList (';' :: rest) c.tokens := by
  have hclose : Closes (';' :: rest) := by simp [Closes]
  have hstops := hclose.stops
  -- A space or a point comes behind the name, so that the name ends there.
  have hmark : ∀ {tail : String} {mark : Char} {more : List Char}, tail.toList = mark :: more →
      mark ∈ [' ', '\n', '(', ')', ',', ';', '.'] → Stops (tail.toList ++ ';' :: rest) := by
    intro tail mark more htail hmark
    rw [htail, List.cons_append]
    exact stops_cons.mpr hmark
  cases c with
  | type space name body =>
    have hwords : ∀ rest, Lexes "CREATE TYPE ".toList rest [keyToken .CREATE, keyToken .TYPE] :=
      fun _ => lexes_phrase [.CREATE, .TYPE]
    exact lexes_about space name hwords (stops_typeBody body hstops) (lexes_typeBody h)
  | table id columns constraints =>
    have hwords : ∀ rest, Lexes "CREATE TABLE ".toList rest [keyToken .CREATE, keyToken .TABLE] :=
      fun _ => lexes_phrase [.CREATE, .TABLE]
    have hopen : ∀ rest, Lexes " (".toList rest [openToken] := fun _ => lexes_blank.append lexes_open
    have hbody : Lexes (" (" ++ tableBodyText (Sql.tableParts columns constraints)).toList (';' :: rest)
        ([openToken] ++ ([commaToken].intercalate ((Sql.tableParts columns constraints).map Part.tokens) ++
          [closeToken])) := by
      rw [String.toList_append]
      exact (hopen _).append (lexes_tableBody h)
    have hall := lexes_about id.space id.name hwords (hmark (String.toList_append ..) (by decide)) hbody
    rw [← String.append_assoc] at hall
    exact hall
  | index form =>
    show Lexes ("CREATE " ++ form.text).toList _ _
    rw [String.toList_append]
    exact Lexes.append (lexes_phrase [.CREATE]) (lexes_index h hclose)
  | tableDoc id doc =>
    have hwords : ∀ rest, Lexes "COMMENT ON TABLE ".toList rest
        [keyToken .COMMENT, keyToken .ON, keyToken .TABLE] :=
      fun _ => lexes_phrase [.COMMENT, .ON, .TABLE]
    have hall := lexes_about id.space id.name hwords (hmark (String.toList_append ..) (by decide))
      (lexes_docText h hstops)
    rw [← String.append_assoc] at hall
    exact hall
  | columnDoc id column doc =>
    have hwords : ∀ rest, Lexes "COMMENT ON COLUMN ".toList rest
        [keyToken .COMMENT, keyToken .ON, keyToken .COLUMN] :=
      fun _ => lexes_phrase [.COMMENT, .ON, .COLUMN]
    have hcolumn : Lexes ("." ++ Flavor.postgres.quoteName column ++ (" IS " ++ stringLiteral doc)).toList
        (';' :: rest) ([dotToken] ++ [nameToken column] ++ [keyToken .IS, literalToken doc]) := by
      rw [String.toList_append, String.toList_append]
      exact Lexes.append (Lexes.append (lexes_dot (quoteName_head column))
        (lexes_name column (hmark (String.toList_append ..) (by decide)))) (lexes_docText h hstops)
    rw [String.append_assoc] at hcolumn
    have hall := lexes_about id.space id.name hwords (hmark (String.toList_append ..) (by decide)) hcolumn
    rw [← String.append_assoc, ← String.append_assoc, ← String.append_assoc] at hall
    rw [Command.tokens, dottedTokens_snoc nameParts_ne_nil, List.append_assoc]
    exact hall
  | key id constraint =>
    have hwords : ∀ rest, Lexes "ALTER TABLE ".toList rest [keyToken .ALTER, keyToken .TABLE] :=
      fun _ => lexes_phrase [.ALTER, .TABLE]
    have hadd : ∀ rest, Lexes " ADD ".toList rest [keyToken .ADD] :=
      fun _ => lexes_blank.append (lexes_phrase [.ADD])
    have hconstraint : Lexes (" ADD " ++ constraint.text).toList (';' :: rest)
        ([keyToken .ADD] ++ constraint.tokens) := by
      rw [String.toList_append]
      exact (hadd _).append (lexes_constraint h hstops)
    have hall := lexes_about id.space id.name hwords (hmark (String.toList_append ..) (by decide)) hconstraint
    rw [← String.append_assoc] at hall
    exact hall

theorem lexes_section {commands : List Command} (h : ∀ c ∈ commands, c.Even) :
    Lexes (sectionText commands).toList rest (scriptTokens commands) := by
  have hend : ∀ rest, Lexes ";\n".toList rest [semicolonToken] :=
    fun _ => lexes_semicolon.append lexes_feed
  show Lexes (String.join (commands.map fun c => c.text ++ ";\n")).toList rest
    (commands.flatMap fun c => c.tokens ++ [semicolonToken])
  refine (lexes_join (F := fun _ => True) trivial fun c hc us _ => ⟨?_, trivial⟩).1
  rw [String.toList_append]
  exact Lexes.append (lexes_command (h c hc)) (hend _)

/-- Sections with a line feed between them. -/
theorem lexes_script {sections : List (List Command)} (h : ∀ s ∈ sections, ∀ c ∈ s, c.Even) :
    Lexes ("\n".intercalate (sections.map sectionText)).toList [] (scriptTokens sections.flatten) := by
  induction sections with
  | nil => exact .nil
  | cons s sections ih =>
    have hfirst : ∀ rest, Lexes (sectionText s).toList rest (scriptTokens s) :=
      fun _ => lexes_section (h s List.mem_cons_self)
    have htail := ih fun t ht => h t (List.mem_cons_of_mem _ ht)
    have htokens : scriptTokens (s :: sections).flatten =
        scriptTokens s ++ scriptTokens sections.flatten := by
      rw [List.flatten_cons, scriptTokens, List.flatMap_append]
      rfl
    rw [htokens, String.toList_intercalate]
    rw [String.toList_intercalate] at htail
    cases sections with
    | nil =>
      rw [List.map_singleton, List.map_singleton, List.intercalate_singleton, List.flatten_nil]
      simpa [scriptTokens] using hfirst []
    | cons t sections =>
      simp only [List.map_cons, List.intercalate_cons_cons, List.append_assoc] at htail ⊢
      exact (hfirst _).append (Lexes.append lexes_feed htail)

end SchemaDialects.Sql
