import SchemaDialects.Proofs.Sql.Composing
import SchemaDialects.Proofs.Sql.Tiling

/-!
# Quoted texts in a script

`tokenize_quoteName`: a name that a flavor writes is read back, whatever it is, and what follows it is read as it
would be alone. `tokenize_stringLiteral`: a string is read back exactly if it has no backslash in it. The tokens
of a text that stands behind another one are those of the text alone, further on (`locate_behind`).
-/

namespace SchemaDialects

-- ---------------------------------------------------------------------------
-- Positions further on
-- ---------------------------------------------------------------------------

/-- Where a location of a text lies when there is more in front of the text, up to the location `front`. The first
line of the text goes on with the last one in front of it. -/
def Location.behind (front : Location) (l : Location) : Location :=
  if l.line = 1 then ⟨front.line, front.column + (l.column - 1)⟩ else ⟨front.line + (l.line - 1), l.column⟩

open Sql Text in
def Position.behind (front : List Char) (p : Position) : Position where
  offset := ⟨byteLength front + p.offset.start, byteLength front + p.offset.stop⟩
  start := (locationBehind front).behind p.start
  stop := (locationBehind front).behind p.stop

def Diagnostic.behind (front : List Char) (d : Diagnostic) : Diagnostic :=
  { d with position := d.position.behind front }

namespace Sql

open Text

def Token.behind (front : List Char) (t : Token) : Token := { t with position := t.position.behind front }

theorem takeWhile_append_of_mem {p : α → Bool} (h : ∃ a ∈ as, p a = false) (bs : List α) :
    (as ++ bs).takeWhile p = as.takeWhile p := by
  rw [List.takeWhile_append, if_neg]
  intro hlength
  obtain ⟨a, ha, hp⟩ := h
  have hall : as.takeWhile p = as := (List.takeWhile_prefix p).eq_of_length hlength
  have htrue := List.mem_takeWhile_imp (hall.symm ▸ ha : a ∈ as.takeWhile p)
  simp [hp] at htrue

theorem locationBehind_append (front before : List Char) :
    locationBehind (front ++ before) = (locationBehind front).behind (locationBehind before) := by
  unfold locationBehind Location.behind
  by_cases hfeed : '\n' ∈ before
  · have hline : 0 < before.count '\n' := List.count_pos_iff.mpr hfeed
    have hcolumn : (front ++ before).reverse.takeWhile (· ≠ '\n') = before.reverse.takeWhile (· ≠ '\n') := by
      rw [List.reverse_append]
      exact takeWhile_append_of_mem ⟨'\n', by simpa using hfeed, by simp⟩ _
    have hlater : 1 + before.count '\n' ≠ 1 := by omega
    simp only [hcolumn, List.count_append, hlater, if_false, Location.mk.injEq, and_true]
    omega
  · have hline : before.count '\n' = 0 := List.count_eq_zero.mpr hfeed
    have hall : ∀ c ∈ before.reverse, decide (c ≠ '\n') = true := by
      intro c hc
      simp only [List.mem_reverse] at hc
      exact decide_eq_true fun heq => hfeed (heq ▸ hc)
    have hcolumn : (front ++ before).reverse.takeWhile (· ≠ '\n') =
        before.reverse ++ front.reverse.takeWhile (· ≠ '\n') := by
      rw [List.reverse_append, List.takeWhile_append_of_pos hall]
    have hwhole : before.reverse.takeWhile (· ≠ '\n') = before.reverse := List.takeWhile_eq_self_iff.mpr hall
    simp only [hcolumn, hwhole, List.count_append, hline, List.length_append, Nat.add_zero, if_true,
      Location.mk.injEq, true_and]
    omega

theorem positionBehind_append (front before chars : List Char) :
    positionBehind (front ++ before) chars = (positionBehind before chars).behind front := by
  simp only [positionBehind, Position.behind, List.append_assoc, locationBehind_append, byteLength_append]

/-- The pieces of a text behind another one. -/
theorem located_append (front before : List Char) (ps : List (Piece × List Char)) :
    located (front ++ before) ps = (located before ps).map fun l => { l with before := front ++ l.before } := by
  induction ps generalizing before with
  | nil => rfl
  | cons p ps ih =>
    obtain ⟨piece, chars⟩ := p
    rw [located, located, List.append_assoc, ih]
    rfl

theorem token?_behind (front : List Char) (l : Located) :
    Located.token? { l with before := front ++ l.before } = l.token?.map (·.behind front) := by
  simp [Located.token?, Located.position, positionBehind_append, Token.behind, Function.comp_def]

theorem problem?_behind (front : List Char) (l : Located) :
    Located.problem? { l with before := front ++ l.before } = l.problem?.map (·.behind front) := by
  obtain ⟨piece, before, chars, after⟩ := l
  cases piece <;> simp [Located.problem?, Located.position, positionBehind_append, Diagnostic.behind]

theorem finishAt_append (front script : List Char) : finishAt (({} : Place).afterAll (front ++ script)) =
    (finishAt (({} : Place).afterAll script)).behind front := by
  simp [finishAt, afterAll_start, Place.upTo, Token.behind, Position.behind, locationBehind_append, byteLength_append]

/-- Pieces are located behind a text as they are alone, further on. -/
theorem locate_behind (front : List Char) (ps : List (Piece × List Char)) :
    locate (({} : Place).afterAll front) ps =
      ((locate {} ps).1.map (·.behind front), (locate {} ps).2.map (·.behind front)) := by
  have halone : locate {} ps = _ := locate_located [] ps
  have hlocated := located_append front [] ps
  rw [List.append_nil] at hlocated
  rw [halone, locate_located, hlocated, finishAt_append]
  simp only [List.filterMap_map, Function.comp_def, token?_behind, problem?_behind, List.map_append, List.map_filterMap,
    List.map_singleton, List.nil_append]

/-- A token in front of a text is read with it as it is read alone. -/
theorem tokenize_append {text : String} {t : Token} (h : Lexes text.toList rest.toList [t]) (ht : t.text = text) :
    tokenize (text ++ rest) =
      (⟨t.lexeme, text, positionBehind [] text.toList⟩ :: (tokenize rest).1.map (·.behind text.toList),
        (tokenize rest).2.map (·.behind text.toList)) := by
  have hpiece : Place.upTo {} (({} : Place).afterAll text.toList) = positionBehind [] text.toList :=
    upTo_start [] text.toList
  rw [tokenize, String.toList_append, tiles_of_token h ht, locate, locate_behind, String.ofList_toList, hpiece]
  rfl

/-- A written name is read as the name, and what comes behind it as if it stood alone. -/
theorem tokenize_quoteName (flavor : Flavor) (name rest : String) (hrest : Stops rest.toList) :
    ∃ lexeme ∈ [Lexeme.word name, .quoted name],
      let text := flavor.quoteName name
      tokenize (text ++ rest) =
        (⟨lexeme, text, positionBehind [] text.toList⟩ :: (tokenize rest).1.map (·.behind text.toList),
          (tokenize rest).2.map (·.behind text.toList)) := by
  refine ⟨(nameToken name).lexeme, ?_, ?_⟩
  · simpa using nameToken_lexeme name
  · exact tokenize_append (t := { nameToken name with text := flavor.quoteName name })
      (lexes_quoteName flavor name hrest) rfl

theorem tokenize_quoteName_tick : Stops ".id".toList ∧
    ∃ lexeme ∈ [Lexeme.word "a`b", .quoted "a`b"],
      let text := Flavor.mysql.quoteName "a`b"
      tokenize (text ++ ".id") =
        (⟨lexeme, text, positionBehind [] text.toList⟩ :: (tokenize ".id").1.map (·.behind text.toList),
          (tokenize ".id").2.map (·.behind text.toList)) :=
  have hrest : Stops ".id".toList := by simp [Stops]
  ⟨hrest, tokenize_quoteName .mysql "a`b" ".id" hrest⟩

-- ---------------------------------------------------------------------------
-- Literals
-- ---------------------------------------------------------------------------

theorem length_replaceChar (q : Char) (cs : List Char) : (replaceChar q [q, q] cs).length = cs.length + cs.count q := by
  induction cs with
  | nil => rfl
  | cons c cs ih =>
    have hcons : replaceChar q [q, q] (c :: cs) = (if c = q then [q, q] else [c]) ++ replaceChar q [q, q] cs := rfl
    rw [hcons, List.length_append, ih, List.count_cons]
    by_cases hc : c = q <;> simp [hc] <;> omega

/-- Only a string without a backslash is read as itself. -/
theorem not_mem_of_tokenize {s : String} (h : (tokenize (stringLiteral s)).1.map (·.lexeme) = [.str s, .finish]) :
    '\\' ∉ s.toList := by
  rw [tokenize, stringLiteral, String.toList_ofList, List.cons_append, tiles_cons, cut_apostrophe] at h
  cases hread : readQuoted '\'' true (replaceChar '\'' ['\'', '\''] s.toList ++ ['\'']) with
  | none => simp [hread, cutQuoted, locate, tiles_nil] at h
  | some found =>
    obtain ⟨content, n⟩ := found
    obtain ⟨body, rest, htext, hbody, -, -⟩ := readQuoted_eq_some_iff.mp hread
    simp [hread, cutQuoted, locate] at h
    obtain ⟨rfl, -⟩ := h
    have hcounts := hbody.length_le
    have hlength := congrArg List.length htext
    simp only [String.toList_ofList, List.length_append, List.length_cons, List.length_nil,
      length_replaceChar] at hcounts hlength ⊢
    exact List.count_eq_zero.mp (by omega)

theorem tokenize_literal {s rest : String} (h : '\\' ∉ s.toList) (hrest : rest.toList.head? ≠ some '\'') :
    tokenize (stringLiteral s ++ rest) =
      (⟨.str s, stringLiteral s, positionBehind [] (stringLiteral s).toList⟩ ::
          (tokenize rest).1.map (·.behind (stringLiteral s).toList),
        (tokenize rest).2.map (·.behind (stringLiteral s).toList)) :=
  tokenize_append (lexes_literal s h hrest) rfl

-- ---------------------------------------------------------------------------
-- Values and comments
-- ---------------------------------------------------------------------------

-- Only MySQL has no statements for types and comments. The other flavors write them alike.

theorem typeText_generic {flavor : Flavor} (h : flavor ≠ .mysql) (t : NamedType) :
    flavor.typeText t = Flavor.postgres.typeText t := by
  cases flavor with
  | mysql => exact absurd rfl h
  | _ => rfl

theorem commentTexts_generic {flavor : Flavor} (h : flavor ≠ .mysql) (e : Entity) :
    flavor.commentTexts e = Flavor.postgres.commentTexts e := by
  cases flavor with
  | mysql => exact absurd rfl h
  | _ => rfl

theorem readStatements_section {commands : List Command} (h : ∀ c ∈ commands, c.Fits) :
    ∃ found, readStatements (sectionText commands) = { value := some found } ∧
      List.Forall₂ Command.Says commands found :=
  readStatements_commands h (lexes_section fun c hc => (h c hc).even)

theorem readStatements_enumeration {flavor : Flavor} (h : flavor ≠ .mysql) {t : NamedType}
    (hvalues : t.values = some values) (hliterals : ∀ v ∈ values, '\\' ∉ v.toList) :
    ∃ text c, flavor.typeText t = .ok text ∧ readStatements text = { value := some [.createType c] } ∧
      c.definition = .enumeration values := by
  have hbody : bodyOf t = .enumeration values := by simp [bodyOf, hvalues]
  have htext : flavor.typeText t = .ok (sectionText [typeCommand t]) := by
    rw [typeText_generic h, typeText_eq (by simp [hvalues]), sectionText_singleton]
    rfl
  have hfits : (typeCommand t).Fits := by
    show (bodyOf t).Fits
    rw [hbody]
    exact hliterals
  obtain ⟨found, hread, hsays⟩ := readStatements_section (List.forall_mem_singleton.mpr hfits)
  cases hsays with
  | cons hfirst hmore =>
    cases hmore
    rename_i st
    cases st with
    | createType c =>
      obtain ⟨-, hdefinition⟩ := hfirst
      rw [hbody] at hdefinition
      exact ⟨_, c, htext, hread, hdefinition⟩
    | _ => cases hfirst

/-- The comments on a table and its columns. -/
def docsOf (e : Entity) : List String := e.doc.toList ++ e.attrs.flatMap (·.doc.toList)

/-- The text of a comment. -/
def Command.doc? : Command → Option String
  | tableDoc _ doc | columnDoc _ _ doc => some doc
  | _ => none

theorem doc?_docCommands (e : Entity) : (docCommands e).map Command.doc? = (docsOf e).map some := by
  simp [docCommands, docsOf, List.map_flatMap, Function.comp_def, Command.doc?]

theorem comments_of_says (hdocs : ∀ c ∈ commands, c.doc?.isSome = true) (h : List.Forall₂ Command.Says commands found) :
    ∃ comments : List CommentOn,
      found = comments.map .commentOn ∧ comments.map (·.text) = commands.map Command.doc? := by
  induction h with
  | nil => exact ⟨[], rfl, rfl⟩
  | @cons c st commands found hfirst _ ih =>
    obtain ⟨hdoc, hmore⟩ := List.forall_mem_cons.mp hdocs
    obtain ⟨comments, rfl, htexts⟩ := ih hmore
    obtain ⟨comment, rfl, htext⟩ : ∃ comment, st = .commentOn comment ∧ comment.text = c.doc? := by
      cases c with
      | tableDoc id doc =>
        cases st with
        | commentOn comment =>
          obtain ⟨name, -, -, htext⟩ := hfirst
          exact ⟨comment, rfl, htext⟩
        | _ => cases hfirst
      | columnDoc id column doc =>
        cases st with
        | commentOn comment =>
          obtain ⟨name, -, -, htext⟩ := hfirst
          exact ⟨comment, rfl, htext⟩
        | _ => cases hfirst
      | _ => cases hdoc
    exact ⟨comment :: comments, rfl, by simp [htext, htexts]⟩

theorem readStatements_comments {flavor : Flavor} (h : flavor ≠ .mysql) {e : Entity}
    (hdocs : ∀ doc ∈ docsOf e, '\\' ∉ doc.toList) :
    ∃ comments : List CommentOn,
      readStatements (String.join (flavor.commentTexts e)) = { value := some (comments.map .commentOn) } ∧
        comments.map (·.text) = (docsOf e).map some := by
  have hall : ∀ c ∈ docCommands e, ∃ doc ∈ docsOf e, c.doc? = some doc := by
    intro c hc
    have hdoc := List.mem_map_of_mem (f := Command.doc?) hc
    rw [doc?_docCommands] at hdoc
    obtain ⟨doc, hmem, heq⟩ := List.mem_map.mp hdoc
    exact ⟨doc, hmem, heq.symm⟩
  have hfits : ∀ c ∈ docCommands e, c.Fits := by
    intro c hc
    obtain ⟨doc, hmem, hdoc⟩ := hall c hc
    cases c with
    | tableDoc id own =>
      obtain rfl := Option.some.inj hdoc
      exact hdocs _ hmem
    | columnDoc id column own =>
      obtain rfl := Option.some.inj hdoc
      exact hdocs _ hmem
    | _ => cases hdoc
  obtain ⟨found, hread, hsays⟩ := readStatements_section hfits
  have hsome : ∀ c ∈ docCommands e, c.doc?.isSome = true := by
    intro c hc
    obtain ⟨doc, -, hdoc⟩ := hall c hc
    simp [hdoc]
  obtain ⟨comments, rfl, htexts⟩ := comments_of_says hsome hsays
  refine ⟨comments, ?_, htexts.trans (doc?_docCommands e)⟩
  rw [commentTexts_generic h, docTexts_eq, hread]

/-- An enumeration that MySQL writes at its column. -/
def enumerationTokens (values : List String) : List Token :=
  ⟨.keyword .ENUM, "enum", .unknown⟩ :: openToken ::
    ([commaToken].intercalate (values.map fun v => [literalToken v]) ++ [closeToken])

theorem lexes_columnType {attr : Attribute} {types : List NamedType}
    (hvalues : (types.find? (·.name == attr.type)).bind (·.values) = some values)
    (hliterals : ∀ v ∈ values, '\\' ∉ v.toList) (rest : List Char) :
    Lexes (Flavor.mysql.columnType types attr).toList rest (enumerationTokens values) := by
  have htext : Flavor.mysql.columnType types attr = "enum(" ++ ",".intercalate (values.map stringLiteral) ++ ")" := by
    simp [Flavor.columnType, hvalues]
  have hkeyword : wordLexeme "enum" = .keyword .ENUM := by
    have hword : Keyword.ofWord? "enum" = some .ENUM := by
      rw [Keyword.ofWord?, toUpper_eq]
      decide
    rw [wordLexeme, hword]
  have hhead : ∀ rest, Lexes "enum(".toList rest [⟨.keyword .ENUM, "enum", .unknown⟩, openToken] := by
    intro rest
    have hstart : startsWord 'e' = true := by decide
    have htail : ∀ d ∈ ['n', 'u', 'm'], isWordChar d = true := by simp [isWordChar_of_isAlpha]
    have hword := lexes_word "enum" rfl hstart htail (stops_cons.mpr (by simp) : Stops ('(' :: rest))
    rw [hkeyword] at hword
    exact hword.append lexes_open
  have hlist : Lexes (",".intercalate (values.map stringLiteral)).toList (')' :: rest)
      ([commaToken].intercalate (values.map fun v => [literalToken v])) := by
    refine lexes_intercalate (fun _ _ _ => lexes_comma) fun v hv us hus => ?_
    refine lexes_stringLiteral v (hliterals v hv) ?_
    rcases hus with rfl | ⟨more, rfl⟩
    · simp [Stops]
    · simp [Stops]
  rw [htext, String.toList_append, String.toList_append, List.append_assoc]
  exact Lexes.append (hhead _) (hlist.append lexes_close)

/-- A comment that MySQL writes at its column. -/
def columnComment (doc : String) : String := " COMMENT " ++ stringLiteral doc

theorem columnText_comment {attr : Attribute} (hdoc : attr.doc = some doc) (types : List NamedType) (e : Entity) :
    ∃ front, Flavor.mysql.columnText types e attr = front ++ columnComment doc := by
  delta Flavor.columnText
  rw [hdoc]
  exact ⟨_, rfl⟩

theorem lexes_columnComment (h : '\\' ∉ doc.toList) (hrest : Stops rest) :
    Lexes (columnComment doc).toList rest [keyToken .COMMENT, literalToken doc] := by
  rw [columnComment, String.toList_append]
  exact lexes_blank.append ((lexes_phrase [.COMMENT]).append (lexes_stringLiteral doc h hrest))

/-- A string is read as it was written exactly if it has no backslash in it: to the reader a backslash takes the
next character with it, and the writer doubles apostrophes only. Such a string is a token of its own in front of
all but an apostrophe, and so values of enumerations and comments are read as they were written, whether they
stand in statements or, in MySQL, at their columns. -/
theorem tokenize_stringLiteral (s : String) (flavor : Flavor) (t : NamedType) (e : Entity) (attr : Attribute) :
    ((tokenize (stringLiteral s)).1.map (·.lexeme) = [.str s, .finish] ∧ (tokenize (stringLiteral s)).2 = [] ↔
      '\\' ∉ s.toList) ∧
    ('\\' ∉ s.toList → ∀ rest : String, rest.toList.head? ≠ some '\'' →
      tokenize (stringLiteral s ++ rest) =
        (⟨.str s, stringLiteral s, positionBehind [] (stringLiteral s).toList⟩ ::
            (tokenize rest).1.map (·.behind (stringLiteral s).toList),
          (tokenize rest).2.map (·.behind (stringLiteral s).toList))) ∧
    (flavor ≠ .mysql → ∀ values, t.values = some values → (∀ v ∈ values, '\\' ∉ v.toList) →
      ∃ text c, flavor.typeText t = .ok text ∧ readStatements text = { value := some [.createType c] } ∧
        c.definition = .enumeration values) ∧
    (flavor ≠ .mysql → (∀ doc ∈ docsOf e, '\\' ∉ doc.toList) →
      ∃ comments : List CommentOn,
        readStatements (String.join (flavor.commentTexts e)) = { value := some (comments.map .commentOn) } ∧
          comments.map (·.text) = (docsOf e).map some) ∧
    (∀ types values, (types.find? (·.name == attr.type)).bind (·.values) = some values →
      (∀ v ∈ values, '\\' ∉ v.toList) → ∀ rest,
        Lexes (Flavor.mysql.columnType types attr).toList rest (enumerationTokens values)) ∧
    (∀ types doc, attr.doc = some doc → '\\' ∉ doc.toList →
      ∃ front, Flavor.mysql.columnText types e attr = front ++ columnComment doc ∧
        ∀ rest, Stops rest → Lexes (columnComment doc).toList rest [keyToken .COMMENT, literalToken doc]) := by
  refine ⟨⟨fun h => not_mem_of_tokenize h.1, fun h => ?_⟩, fun h rest hrest => tokenize_literal h hrest,
    fun hflavor values hvalues h => readStatements_enumeration hflavor hvalues h,
    fun hflavor h => readStatements_comments hflavor h,
    fun types values hvalues h rest => lexes_columnType hvalues h rest, fun types doc hdoc h => ?_⟩
  · have hend : tokenize "" = ([finishAt {}], []) := by
      rw [tokenize, String.toList_empty, tiles_nil]
      rfl
    have hempty : "".toList.head? ≠ some '\'' := by decide
    have halone := tokenize_literal h hempty
    rw [String.append_empty, hend] at halone
    rw [halone]
    exact ⟨rfl, rfl⟩
  · obtain ⟨front, htext⟩ := columnText_comment hdoc types e
    exact ⟨front, htext, fun rest hrest => lexes_columnComment h hrest⟩

def moods : NamedType := { name := "mood", values := some ["it's", "", "so-so; --"] }

def today : Attribute := { name := "mood", type := "mood", doc := some "today's" }

def diary : Entity := { name := "diary", attrs := [today] }

theorem tokenize_stringLiteral_moods :
    ('\\' ∉ "it's".toList ∧ ", ''".toList.head? ≠ some '\'' ∧
      tokenize (stringLiteral "it's" ++ ", ''") =
        (⟨.str "it's", stringLiteral "it's", positionBehind [] (stringLiteral "it's").toList⟩ ::
            (tokenize ", ''").1.map (·.behind (stringLiteral "it's").toList),
          (tokenize ", ''").2.map (·.behind (stringLiteral "it's").toList))) ∧
    (Flavor.generic ≠ .mysql ∧ moods.values = some ["it's", "", "so-so; --"] ∧
      (∀ v ∈ ["it's", "", "so-so; --"], '\\' ∉ v.toList) ∧
        (∃ text c, Flavor.generic.typeText moods = .ok text ∧ readStatements text = { value := some [.createType c] } ∧
          c.definition = .enumeration ["it's", "", "so-so; --"]) ∧
        Lexes (Flavor.mysql.columnType [moods] today).toList [','] (enumerationTokens ["it's", "", "so-so; --"])) ∧
    (∀ doc ∈ docsOf diary, '\\' ∉ doc.toList) ∧
      (∃ comments : List CommentOn,
        readStatements (String.join (Flavor.generic.commentTexts diary)) = { value := some (comments.map .commentOn) } ∧
          comments.map (·.text) = (docsOf diary).map some) ∧
      Lexes (columnComment "today's").toList [','] [keyToken .COMMENT, literalToken "today's"] := by
  obtain ⟨-, hcontext, htypes, hcomments, hcolumns, hcomment⟩ :=
    tokenize_stringLiteral "it's" .generic moods diary today
  have hquote : '\\' ∉ "it's".toList ∧ ", ''".toList.head? ≠ some '\'' := by decide
  have hvalues : ∀ v ∈ ["it's", "", "so-so; --"], '\\' ∉ v.toList := by decide
  have hdocs : ∀ doc ∈ docsOf diary, '\\' ∉ doc.toList := by decide
  have hflavor : Flavor.generic ≠ .mysql := by decide
  obtain ⟨front, -, hlexes⟩ := hcomment [moods] "today's" rfl (by decide)
  exact ⟨⟨hquote.1, hquote.2, hcontext hquote.1 _ hquote.2⟩,
    ⟨hflavor, rfl, hvalues, htypes hflavor _ rfl hvalues, hcolumns [moods] _ rfl hvalues [',']⟩,
    hdocs, hcomments hflavor hdocs, hlexes [','] (by simp [Stops])⟩

/-- What a path to a file becomes, and how a string at whose end there is a backslash goes on with what follows. -/
theorem stringLiteral_misread :
    (tokenize (stringLiteral "C:\\temp")).1.map (·.lexeme) = [.str "C:\temp", .finish] ∧ "C:\temp" ≠ "C:\\temp" ∧
      (tokenize (stringLiteral "a\\" ++ ", " ++ stringLiteral "b")).1.map (·.lexeme) =
        [.str "a', ", .word "b", .finish] := by
  decide +kernel

end Sql

end SchemaDialects
