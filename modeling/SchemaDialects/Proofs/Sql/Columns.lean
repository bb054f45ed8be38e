import SchemaDialects.Proofs.Sql.Constraints
import SchemaDialects.Proofs.Sql.Types

/-!
# Columns in written text

A column as it is written: its name, its type and the marks behind them. The parts of a table are its
columns and its constraints.
-/

namespace SchemaDialects.Sql

open Text Production

/-- What can be said about a column at the column. -/
inductive Mark
  | key
  | required
  | numbering
  | value (text : String)
  | computed (text : String)
  | unique

/-- The text of a default value: an expression, or the keyword NULL and nothing more. -/
structure DefaultText (text : String) : Prop extends EvenText text where
  value : (tokensOf text).map (·.lexeme) = [.keyword .NULL] ∨
    tokensOf text ≠ [] ∧ isClosed endsDefault 0 (tokensOf text) = true

instance (text : String) : Decidable (DefaultText text) :=
  decidable_of_iff ((∀ p ∈ tiles cut text.toList, Tidy p) ∧ renderTokens false (tokensOf text) = text ∧
      ((tokensOf text).map (·.lexeme) = [.keyword .NULL] ∨
        tokensOf text ≠ [] ∧ isClosed endsDefault 0 (tokensOf text) = true))
    ⟨fun h => ⟨⟨h.1, h.2.1⟩, h.2.2⟩, fun h => ⟨h.tidy, h.even, h.value⟩⟩

namespace Mark

def rule : Mark → ColumnRule
  | key => .primaryKey
  | required => .notNull
  | numbering => .autoIncrement
  | value text => .default ⟨text, columnsOf text, .unknown⟩
  | computed text => .generated ⟨text, columnsOf text, .unknown⟩
  | unique => .unique

def text : Mark → String
  | key => " PRIMARY KEY"
  | required => " NOT NULL"
  | numbering => " GENERATED BY DEFAULT AS IDENTITY"
  | value text => " DEFAULT " ++ text
  | computed text => " GENERATED ALWAYS AS (" ++ text ++ ") STORED"
  | unique => " UNIQUE"

def tokens : Mark → List Token
  | key => [keyToken .PRIMARY, keyToken .KEY]
  | required => [keyToken .NOT, keyToken .NULL]
  | numbering => [.GENERATED, .BY, .DEFAULT, .AS].map keyToken ++ [⟨.word "IDENTITY", "IDENTITY", .unknown⟩]
  | value text => keyToken .DEFAULT :: tokensOf text
  | computed text => [.GENERATED, .ALWAYS, .AS].map keyToken ++
      openToken :: (tokensOf text ++ [closeToken, keyToken .STORED])
  | unique => [keyToken .UNIQUE]

/-- Marks that can be read again. -/
def Fits : Mark → Prop
  | value text => DefaultText text
  | computed text => ExpressionText (fun _ => false) text
  | _ => True

/-- What is read of a mark. -/
def Reads : Mark → ColumnRule → Prop
  | value text, rule => ∃ e, rule = .default e ∧ e.text = text
  | computed text, rule => ∃ e, rule = .generated e ∧ e.text = text
  | key, rule => rule = .primaryKey
  | required, rule => rule = .notNull
  | numbering, rule => rule = .autoIncrement
  | unique, rule => rule = .unique

end Mark

structure Column where
  name : String
  type : String
  marks : List Mark

def Column.tokens (c : Column) : List Token :=
  nameToken c.name :: (tokensOf c.type ++ c.marks.flatMap Mark.tokens)

def Column.text (c : Column) : String :=
  Flavor.postgres.quoteName c.name ++ " " ++ c.type ++
    String.join (c.marks.map Mark.text)

/-- Columns that can be read again. -/
structure Column.Fits (c : Column) : Prop where
  type : ReadableType c.type
  marks : ∀ m ∈ c.marks, m.Fits

-- ---------------------------------------------------------------------------
-- Reading
-- ---------------------------------------------------------------------------

theorem EndsType.endsDefault (h : EndsType l) : EndsExpression endsDefault l := by
  rcases h with rfl | rfl | h
  · exact .inr (.inr rfl)
  · exact .inr (.inl rfl)
  · exact .inr (.inr (by simp [Sql.endsDefault, h]))

theorem defaultValue_yields (h : DefaultText text) (hw : EndsType w.lexeme) :
    Yields defaultValue (tokensOf text ++ w :: ws) (fun e => e.text = text) (w :: ws) := by
  rcases h.value with hnull | ⟨hne, hclosed⟩
  · obtain ⟨t, ht, hlexeme⟩ := List.map_eq_singleton_iff.mp hnull
    rw [ht, List.singleton_append]
    refine lexeme_yields.bind ?_
    rintro _ rfl
    rw [if_pos (by rw [hlexeme, Lexeme.isKeyword]; exact decide_eq_true rfl)]
    refine current_yields.bind fun token htoken => advance_yields.bind fun _ _ => .pure ?_
    have hbare : [token].map Token.bare = tokensOf text := by rw [List.map_singleton, htoken, ht]
    exact (ofTokens_bare h.toEvenText hbare).1
  · -- A constraint cannot begin an expression, so that this is not NULL.
    obtain ⟨t, more, hmore⟩ := List.exists_cons_of_ne_nil hne
    have hnull : t.lexeme ≠ .keyword .NULL := by
      intro hnull
      rw [hmore, isClosed] at hclosed
      simp [hnull, endsDefault, startsColumnConstraint, Lexeme.isKeyword] at hclosed
    have hread : Yields (expressionUntil endsDefault "default value") (tokensOf text ++ w :: ws)
        (fun e => e.text = text) (w :: ws) :=
      (expressionUntil_yields ⟨h.toEvenText, hne, hclosed⟩ hw.endsDefault hw.ne_open).mono fun e he => he.1
    rw [hmore, List.cons_append] at hread ⊢
    refine lexeme_yields.bind ?_
    rintro _ rfl
    rw [if_neg (by simpa [Lexeme.isKeyword] using hnull)]
    exact hread

theorem columnRule_yields {m : Mark} (h : m.Fits) (hw : EndsType w.lexeme) :
    Yields (columnRule named) (m.tokens ++ w :: ws) (fun o => ∃ rule, o = some rule ∧ m.Reads rule) (w :: ws) := by
  have hasc : w.lexeme ≠ .keyword .ASC := hw.ne_keyword rfl
  have hdesc : w.lexeme ≠ .keyword .DESC := hw.ne_keyword rfl
  have hkey : w.lexeme ≠ .keyword .KEY := hw.ne_keyword rfl
  cases m with
  | key =>
    refine lexeme_yields.bind ?_
    rintro _ rfl
    refine advance_yields.bind fun _ _ => expectKeyword_yields.bind fun _ _ => ?_
    refine (eatKeyword_other hasc).bind ?_
    rintro _ rfl
    exact (skipKeyword_other hdesc).bind fun _ _ => .pure ⟨_, rfl, rfl⟩
  | required =>
    refine lexeme_yields.bind ?_
    rintro _ rfl
    exact advance_yields.bind fun _ _ => expectKeyword_yields.bind fun _ _ => .pure ⟨_, rfl, rfl⟩
  | numbering =>
    refine lexeme_yields.bind ?_
    rintro _ rfl
    refine advance_yields.bind fun _ _ => eatKeyword_yields.bind ?_
    rintro _ rfl
    refine expectKeyword_yields.bind fun _ _ => expectKeyword_yields.bind fun _ _ => ?_
    have hidentity : Lexeme.isWord "identity" (.word "IDENTITY") = true := by
      rw [Lexeme.isWord, Text.toLower_eq]
      decide
    refine (show Yields (eatWord "identity") _ (· = true) _ from eatIf_true hidentity).bind ?_
    rintro _ rfl
    refine lexeme_yields.bind ?_
    rintro _ rfl
    rw [if_neg hw.ne_open]
    exact .pure ⟨_, rfl, rfl⟩
  | value text =>
    refine lexeme_yields.bind ?_
    rintro _ rfl
    refine advance_yields.bind fun _ _ => ?_
    exact (defaultValue_yields h hw).bind fun e he => .pure ⟨_, rfl, e, rfl, he⟩
  | computed text =>
    have htokens : (Mark.computed text).tokens ++ w :: ws = keyToken .GENERATED :: keyToken .ALWAYS ::
        keyToken .AS :: openToken :: (tokensOf text ++ closeToken :: keyToken .STORED :: w :: ws) := by
      simp [Mark.tokens]
    rw [htokens]
    refine lexeme_yields.bind ?_
    rintro _ rfl
    refine advance_yields.bind fun _ _ => (eatKeyword_other (by simp [keyToken])).bind ?_
    rintro _ rfl
    refine expectKeyword_yields.bind fun _ _ => expectKeyword_yields.bind fun _ _ => ?_
    refine (show Yields (eatWord "identity") _ (· = false) _ from eatIf_false rfl).bind ?_
    rintro _ rfl
    have hcomputed : Yields computed
        (openToken :: (tokensOf text ++ closeToken :: keyToken .STORED :: w :: ws))
        (fun rule => (Mark.computed text).Reads rule) (w :: ws) := by
      refine (parenthesized_yields h).bind fun e he => eatKeyword_yields.bind ?_
      rintro _ rfl
      exact .pure ⟨e, rfl, he.1⟩
    exact hcomputed.bind fun rule hrule => .pure ⟨rule, rfl, hrule⟩
  | unique =>
    refine lexeme_yields.bind ?_
    rintro _ rfl
    refine advance_yields.bind fun _ _ => ?_
    exact (skipKeyword_other hkey).bind fun _ _ => .pure ⟨_, rfl, rfl⟩

/-- What is read of a mark with the name that it has not. -/
structure Mark.Says (m : Mark) (c : ColumnConstraint) : Prop where
  name : c.name = none
  rule : m.Reads c.rule

theorem columnConstraint_yields {m : Mark} (h : m.Fits) (hw : EndsType w.lexeme) :
    Yields columnConstraint (m.tokens ++ w :: ws) (fun o => ∃ c, o = some (some c) ∧ m.Says c)
      (w :: ws) := by
  obtain ⟨v, vs, hv, hgo, hname⟩ : ∃ v vs, m.tokens ++ w :: ws = v :: vs ∧
      (v.lexeme = .comma || v.lexeme = .closeParen || v.lexeme.endsStatement) = false ∧
      v.lexeme ≠ .keyword .CONSTRAINT := by
    cases m <;> exact ⟨_, _, rfl, rfl, by simp [keyToken]⟩
  have hrule : Yields (columnRule false) (m.tokens ++ w :: ws) (fun o => ∃ rule, o = some rule ∧ m.Reads rule)
      (w :: ws) := columnRule_yields h hw
  rw [hv] at hrule ⊢
  refine lexeme_yields.bind ?_
  rintro _ rfl
  simp only [hgo]
  refine tokens_yields.bind fun start _ => ?_
  refine (constraintName_yields none hname).bind fun id hid => ?_
  obtain rfl : id = none := by simpa [nameOf] using hid
  refine hrule.bind ?_
  rintro _ ⟨rule, rfl, hrule⟩
  exact positionSince_yields.bind fun position _ => .pure ⟨_, rfl, rfl, hrule⟩

theorem columnConstraint_none (hw : w.lexeme = .comma ∨ w.lexeme = .closeParen) :
    Yields columnConstraint (w :: ws) (· = none) (w :: ws) := by
  refine lexeme_yields.bind ?_
  rintro _ rfl
  have hstop : (w.lexeme = .comma || w.lexeme = .closeParen || w.lexeme.endsStatement) = true := by
    rcases hw with hw | hw <;> simp [hw]
  simp only [hstop]
  exact .pure rfl

/-- Behind a part of a table stands another one or the end of the table. -/
def EndsPart (w : Token) : Prop := w = commaToken ∨ w = closeToken

theorem EndsPart.endsType (h : EndsPart w) : EndsType w.lexeme := by
  rcases h with rfl | rfl
  · exact .inl rfl
  · exact .inr (.inl rfl)

/-- Marks and what stands behind them end a type and a mark. -/
theorem marks_head (marks : List Mark) (ws : List Token) (hw : EndsPart w) :
    ∃ v vs, marks.flatMap Mark.tokens ++ w :: ws = v :: vs ∧ EndsType v.lexeme := by
  cases marks with
  | nil => exact ⟨w, ws, rfl, hw.endsType⟩
  | cons m marks => cases m <;> exact ⟨_, _, rfl, .inr (.inr rfl)⟩

theorem marks_yields {marks : List Mark} (h : ∀ m ∈ marks, m.Fits) (ws : List Token) (hw : EndsPart w) :
    Yields (repeated columnConstraint) (marks.flatMap Mark.tokens ++ w :: ws)
      (fun l => ∃ cs, l = cs.map some ∧ List.Forall₂ Mark.Says marks cs) (w :: ws) := by
  induction marks with
  | nil =>
    have hend : w.lexeme = .comma ∨ w.lexeme = .closeParen := by
      rcases hw with rfl | rfl
      · exact .inl rfl
      · exact .inr rfl
    refine (listed_none (columnConstraint_none hend)).mono ?_
    rintro _ rfl
    exact ⟨[], rfl, .nil⟩
  | cons m marks ih =>
    obtain ⟨hm, hmarks⟩ := List.forall_mem_cons.mp h
    obtain ⟨v, vs, hv, hends⟩ := marks_head marks ws hw
    have htail := ih hmarks
    rw [List.flatMap_cons, List.append_assoc]
    rw [hv] at htail ⊢
    have hfirst : Yields columnConstraint (m.tokens ++ v :: vs)
        (fun o => ∃ a, o = some a ∧ ∃ c, a = some c ∧ m.Says c) (v :: vs) := by
      refine (columnConstraint_yields hm hends).mono ?_
      rintro _ ⟨c, rfl, hc⟩
      exact ⟨_, rfl, c, rfl, hc⟩
    refine (listed_cons hfirst (.pure rfl) ?_ htail).mono ?_
    · have hne : 0 < m.tokens.length := by cases m <;> simp [Mark.tokens]
      simp only [List.length_append]
      omega
    · rintro _ ⟨_, _, rfl, ⟨c, rfl, hc⟩, cs, rfl, hcs⟩
      exact ⟨c :: cs, rfl, .cons hc hcs⟩

/-- What is read of a column. -/
structure Column.Says (c : Column) (d : ColumnDef) : Prop where
  name : d.name.value = c.name
  type : d.type.text = renderTokens false (tokensOf c.type)
  marks : List.Forall₂ Mark.Says c.marks d.constraints

/-- A column whose name is written in one token. -/
theorem columnDef_of_name {c : Column} (h : c.Fits)
    (hname : ∀ us, Yields (ident "column name") (t :: us) (fun id => id.value = c.name) us) (hw : EndsPart w) :
    Yields columnDef (t :: (tokensOf c.type ++ c.marks.flatMap Mark.tokens) ++ w :: ws) c.Says (w :: ws) := by
  obtain ⟨v, vs, hv, hends⟩ := marks_head c.marks ws hw
  have hmarks := marks_yields h.marks ws hw
  rw [List.cons_append, List.append_assoc]
  rw [hv] at hmarks ⊢
  refine tokens_yields.bind fun start _ => (hname _).bind fun name hvalue => ?_
  refine (readableType_yields h.type hends).bind fun type htype => ?_
  refine hmarks.bind ?_
  rintro _ ⟨cs, rfl, hcs⟩
  refine positionSince_yields.bind fun position _ => .pure ⟨hvalue, htype, ?_⟩
  rwa [List.filterMap_map, Function.id_comp, List.filterMap_some]

theorem columnDef_yields {c : Column} (h : c.Fits) (hw : EndsPart w) :
    Yields columnDef (c.tokens ++ w :: ws) c.Says (w :: ws) :=
  columnDef_of_name h (fun _ => ident_yields c.name) hw

theorem looksLikeIndex_yields : Yields looksLikeIndex ws (fun _ => True) ws :=
  (peek_yields 1).bind fun _ _ => (peek_yields 2).bind fun _ _ => (peek_yields 3).bind fun _ _ =>
    .pure trivial

/-- A column is no constraint: a name stands in front, and behind it a type. -/
theorem tableConstraint_column {c : Column} (h : ReadableType c.type) :
    Yields tableConstraint (c.tokens ++ ws) (· = none) (c.tokens ++ ws) := by
  obtain ⟨t, more, hmore, hkey, hindex⟩ := h.head
  have hnext : (c.tokens ++ ws)[1]?.map (·.lexeme) = some t.lexeme := by
    rw [Column.tokens, hmore]
    rfl
  have hhead : c.tokens ++ ws = nameToken c.name :: (c.tokens ++ ws).tail := rfl
  have hname : (nameToken c.name).lexeme ≠ .keyword .CONSTRAINT := by
    rcases nameToken_lexeme c.name with h | h <;> simp [h]
  refine tokens_yields.bind fun start _ => ?_
  have hnone : Yields constraintName (c.tokens ++ ws) (fun id => nameOf id = none) (c.tokens ++ ws) :=
    constraintName_yields none hname
  refine Yields.bind hnone fun id hid => ?_
  obtain rfl : id = none := by simpa [nameOf] using hid
  have hrule : Yields (tableRule false) (c.tokens ++ ws) (· = none) (c.tokens ++ ws) := by
    rw [hhead]
    refine lexeme_yields.bind ?_
    rintro _ rfl
    rw [← hhead]
    -- Neither kind of name is a keyword, and no keyword follows.
    rcases nameToken_lexeme c.name with h | h <;>
    · rw [h]
      refine (peek_yields 1).bind ?_
      rintro _ rfl
      rw [hnext]
      refine looksLikeIndex_yields.bind fun _ _ => ?_
      rw [if_neg (by simp [Lexeme.isKeyword]), if_neg (by simp [Lexeme.isKeyword, hkey, hindex])]
      exact .pure rfl
  refine hrule.bind ?_
  rintro _ rfl
  exact .pure rfl

-- ---------------------------------------------------------------------------
-- Parts of tables
-- ---------------------------------------------------------------------------

inductive Part
  | column (c : Column)
  | constraint (c : Constraint)

namespace Part

def tokens : Part → List Token
  | column c => c.tokens
  | constraint c => c.tokens

def text : Part → String
  | column c => c.text
  | constraint c => c.text

/-- Parts that can be read again. Foreign keys are not written inside a table. -/
def Fits : Part → Prop
  | column c => c.Fits
  | constraint c => c.clause.Fits ∧ ∀ w, c.clause.Precedes w

/-- What is read of a part. -/
def Says : Part → TableConstraint ⊕ ColumnDef → Prop
  | column c, .inr d => c.Says d
  | constraint c, .inl t => c.Says t
  | _, _ => False

end Part

theorem tablePart_yields {p : Part} (h : p.Fits) (hw : EndsPart w) :
    Yields tablePart (p.tokens ++ w :: ws) p.Says (w :: ws) := by
  cases p with
  | column c =>
    refine (tableConstraint_column h.type).bind ?_
    rintro _ rfl
    exact (columnDef_yields h hw).bind fun d hd => .pure hd
  | constraint c =>
    refine (tableConstraint_yields h.1 (h.2 w)).bind ?_
    rintro _ ⟨t, rfl, ht⟩
    exact .pure ht

theorem anotherPart_true : Yields anotherPart (commaToken :: ws) (· = true) ws := by
  refine lexeme_yields.bind ?_
  rintro _ rfl
  exact advance_yields.bind fun _ _ => .pure rfl

theorem anotherPart_false : Yields anotherPart (closeToken :: ws) (· = false) ws := by
  refine lexeme_yields.bind ?_
  rintro _ rfl
  exact advance_yields.bind fun _ _ => .pure rfl

theorem tableParts_yields {parts : List Part} (hne : parts ≠ []) (h : ∀ p ∈ parts, p.Fits) :
    Yields (separated tablePart anotherPart)
      ([commaToken].intercalate (parts.map Part.tokens) ++ closeToken :: ws)
      (List.Forall₂ Part.Says parts) ws := by
  refine separated_yields (F := fun us => ∃ w vs, us = w :: vs ∧ EndsPart w) hne ?_
    (fun us => ⟨⟨_, us, rfl, .inl rfl⟩, anotherPart_true⟩) ⟨⟨_, ws, rfl, .inr rfl⟩, anotherPart_false⟩
  rintro p hp _ ⟨w, vs, rfl, hw⟩
  exact tablePart_yields (h p hp) hw

-- ---------------------------------------------------------------------------
-- Writing
-- ---------------------------------------------------------------------------

theorem lexes_identity (hrest : Stops rest) :
    Lexes "IDENTITY".toList rest [⟨.word "IDENTITY", "IDENTITY", .unknown⟩] := by
  have hword : wordLexeme "IDENTITY" = .word "IDENTITY" := by
    rw [wordLexeme, Keyword.ofWord?, Text.toUpper_eq]
    decide
  have htail : ∀ d ∈ "DENTITY".toList, isWordChar d = true := Text.forall_chars (by decide)
  have hlex := lexes_word "IDENTITY" rfl (by decide) htail hrest
  rwa [hword] at hlex

theorem lexes_mark {m : Mark} (h : m.Fits) (hrest : Closes rest) : Lexes m.text.toList rest m.tokens := by
  cases m with
  | key => exact lexes_spaced [.PRIMARY, .KEY] hrest.stops
  | required => exact lexes_spaced [.NOT, .NULL] hrest.stops
  | unique => exact lexes_spaced [.UNIQUE] hrest.stops
  | numbering =>
    have hhead : ∀ rest, Lexes " GENERATED BY DEFAULT AS ".toList rest
        ([.GENERATED, .BY, .DEFAULT, .AS].map keyToken) :=
      fun _ => lexes_blank.append (lexes_phrase [.GENERATED, .BY, .DEFAULT, .AS])
    exact Lexes.append (hhead _) (lexes_identity hrest.stops)
  | value text =>
    have hhead : ∀ rest, Lexes " DEFAULT ".toList rest [keyToken .DEFAULT] :=
      fun _ => lexes_blank.append (lexes_phrase [.DEFAULT])
    show Lexes (" DEFAULT " ++ text).toList rest _
    rw [String.toList_append]
    exact Lexes.append (hhead _) (lexes_evenText h.toEvenText hrest)
  | computed text =>
    have hhead : ∀ rest, Lexes " GENERATED ALWAYS AS (".toList rest
        ([.GENERATED, .ALWAYS, .AS].map keyToken ++ [openToken]) :=
      fun _ => lexes_blank.append ((lexes_phrase [.GENERATED, .ALWAYS, .AS]).append lexes_open)
    have hlast : Lexes ") STORED".toList rest [closeToken, keyToken .STORED] :=
      lexes_close.append (lexes_spaced [.STORED] hrest.stops)
    have htext : Lexes text.toList (") STORED".toList ++ rest) (tokensOf text) :=
      lexes_evenText h.toEvenText (by simp [Closes])
    have htokens : (Mark.computed text).tokens = ([.GENERATED, .ALWAYS, .AS].map keyToken ++ [openToken]) ++
        (tokensOf text ++ [closeToken, keyToken .STORED]) := by simp [Mark.tokens]
    show Lexes (" GENERATED ALWAYS AS (" ++ text ++ ") STORED").toList rest _
    rw [htokens, String.toList_append, String.toList_append, List.append_assoc]
    exact Lexes.append (hhead _) (htext.append hlast)

/-- A mark begins with a space. -/
theorem closes_mark (m : Mark) : Closes (m.text.toList ++ rest) := by
  have hspace : ∀ cs, Closes (' ' :: cs) := fun cs => by simp [Closes]
  cases m with
  | value text =>
    show Closes ((" DEFAULT " ++ text).toList ++ rest)
    rw [String.toList_append]
    exact hspace _
  | computed text =>
    show Closes ((" GENERATED ALWAYS AS (" ++ text ++ ") STORED").toList ++ rest)
    rw [String.toList_append, String.toList_append]
    exact hspace _
  | _ => exact hspace _

theorem lexes_column {c : Column} (h : c.Fits) (hrest : Closes rest) :
    Lexes c.text.toList rest c.tokens := by
  obtain ⟨hmarks, hcloses⟩ := lexes_join (F := Closes) hrest
    fun m (hm : m ∈ c.marks) us hus => ⟨lexes_mark (h.marks m hm) hus, closes_mark m⟩
  have htype := lexes_blank.append ((h.type.lexes _ hcloses).append hmarks)
  rw [Column.text, String.toList_append, String.toList_append, String.toList_append,
    List.append_assoc, List.append_assoc]
  exact (lexes_name c.name (by simp [Stops])).append htype

theorem lexes_part {p : Part} (h : p.Fits) (hrest : Closes rest) :
    Lexes p.text.toList rest p.tokens := by
  cases p with
  | column c => exact lexes_column h hrest
  | constraint c => exact lexes_constraint h.1.even hrest.stops

-- ---------------------------------------------------------------------------
-- Fields of composite types
-- ---------------------------------------------------------------------------

/-- A field of a composite type, whose name is written without quotes. -/
structure Field where
  name : String
  type : String
  deriving DecidableEq, Repr

namespace Field

def tokens (f : Field) : List Token := tokensOf f.name ++ tokensOf f.type

def text (f : Field) : String := f.name ++ " " ++ f.type

/-- Fields that can be read again. -/
structure Fits (f : Field) : Prop where
  tidy : ∀ p ∈ tiles cut f.name.toList, Tidy p
  name : (tokensOf f.name).map (fun t => (identifier? t).map (·.value)) = [some f.name]
  type : ReadableType f.type

/-- What is read of a field. -/
structure Says (f : Field) (d : ColumnDef) : Prop where
  name : d.name.value = f.name
  type : d.type.text = renderTokens false (tokensOf f.type)

end Field

theorem compositeField_yields {f : Field} (h : f.Fits) (hw : EndsPart w) :
    Yields compositeField (f.tokens ++ w :: ws) (fun o => ∃ d, o = some d ∧ f.Says d) (w :: ws) := by
  obtain ⟨t, ht, hid⟩ := List.map_eq_singleton_iff.mp h.name
  have hclose : t.lexeme ≠ .closeParen := by
    intro hclose
    simp [identifier?, hclose] at hid
  have hread : Yields columnDef (t :: (tokensOf f.type ++ [].flatMap Mark.tokens) ++ w :: ws)
      (Column.Says ⟨f.name, f.type, []⟩) (w :: ws) :=
    columnDef_of_name (c := ⟨f.name, f.type, []⟩) ⟨h.type, by simp⟩ (ident_yields_of hid) hw
  rw [Field.tokens, ht, List.singleton_append]
  refine lexeme_yields.bind ?_
  rintro _ rfl
  rw [if_neg hclose]
  rw [List.flatMap_nil, List.append_nil] at hread
  exact hread.bind fun d hd => .pure ⟨d, rfl, hd.name, hd.type⟩

theorem lexes_field {f : Field} (h : f.Fits) (hrest : Closes rest) : Lexes f.text.toList rest f.tokens := by
  have hname : Lexes f.name.toList (" ".toList ++ f.type.toList ++ rest) (tokensOf f.name) :=
    lexes_tidy h.tidy (by simp [Closes])
  have hblank : ∀ rest, Lexes " ".toList rest [] := fun _ => lexes_blank
  rw [Field.text, String.toList_append, String.toList_append, List.append_assoc]
  exact hname.append (Lexes.append (hblank _) (h.type.lexes rest hrest))

end SchemaDialects.Sql
