import SchemaDialects.Markup.Reader
import SchemaDialects.Markup.Writer
import SchemaDialects.Proofs.Markup.LineLaws

/-!
# Words read back

Each word that the writer makes is read as what it was made from: quoted names, lists in parentheses,
the ends of a relation, types with their default and modifiers. A name in an end of a relation must
be free of opening parentheses, since the reader takes the last one for the beginning of the list.
-/

namespace SchemaDialects.Markup

open Text
open Nesting (openParens)

-- ---------------------------------------------------------------------------
-- Quotes
-- ---------------------------------------------------------------------------

theorem between?_append {opening closing : Char} :
    between? opening closing (opening :: (cs ++ [closing])) = some cs := by
  simp [between?, dropHead?, dropTail?_append]

theorem between?_of_head {opening closing : Char} (h : cs.head? ≠ some opening) :
    between? opening closing cs = none := by
  cases cs with
  | nil => rfl
  | cons c cs =>
    have hc : opening ≠ c := fun heq => h (by simp [heq])
    simp [between?, dropHead?, hc]

theorem undoubled_doubleQuotes : undoubled (doubleQuotes cs) = cs := by
  induction cs with
  | nil => rfl
  | cons c cs ih =>
    by_cases hc : c = '"'
    · rw [hc, doubleQuotes, if_pos rfl, undoubled, ih]
    · rw [doubleQuotes, if_neg hc, undoubled, ih]
      exact fun _ heq => absurd heq hc

@[simp] theorem unquote_quoted :
    unquote ('"' :: (doubleQuotes cs ++ ['"'])) = String.ofList cs := by
  rw [unquote, between?_append]
  simp only [undoubled_doubleQuotes]

theorem unquote_of_head (h : cs.head? ≠ some '"') : unquote cs = String.ofList cs := by
  rw [unquote, between?_of_head h]

@[simp] theorem unquote_quote (name : String) : unquote (quote name).toList = name := by
  rcases quote_cases name with ⟨heq, -, hplain⟩ | heq
  · rw [heq, unquote_of_head, String.ofList_toList]
    intro h
    have := hplain '"' (List.mem_of_head? h)
    simp [isPlainChar] at this
  · rw [heq, unquote_quoted, String.ofList_toList]

theorem map_unquote_quote (names : List String) : (names.map fun name => (quote name).toList).map unquote = names := by
  rw [List.map_map]
  exact (List.map_congr_left fun name _ => unquote_quote name).trans (List.map_id names)

theorem unbacktick_ticked : unbacktick ('`' :: (cs ++ ['`'])) = String.ofList cs := by
  rw [unbacktick, between?_append]
  rfl

theorem unbacktick_of_head (h : cs.head? ≠ some '`') : unbacktick cs = String.ofList cs := by
  rw [unbacktick, between?_of_head h]
  rfl

-- ---------------------------------------------------------------------------
-- Lists
-- ---------------------------------------------------------------------------

/-- What the reader of a list takes for one item. -/
structure IsItem (cs : List Char) : Prop extends Solid cs where
  unsplit : Unsplit ',' cs

theorem isItem_quote (name : String) : IsItem (quote name).toList :=
  ⟨solid_quote name, unsplit_quote (by decide) name⟩

theorem listItems_intercalate (h : ∀ item ∈ items, IsItem item) :
    listItems ([',', ' '].intercalate items) = items := by
  cases items with
  | nil => rfl
  | cons item items =>
    have hstrip : (items.map (' ' :: ·)).map (stripWhile isBlank) = items := by
      rw [List.map_map]
      refine (List.map_congr_left fun i hi => ?_).trans (List.map_id items)
      rw [Function.comp_apply, stripWhile_cons (by decide)]
      exact (h i (List.mem_cons_of_mem _ hi)).strip
    rw [listItems, splitUnquotedChars_intercalate_space (by decide) (by decide) fun i hi => (h i hi).unsplit,
      List.map_cons, hstrip, (h item List.mem_cons_self).strip]
    refine List.filter_eq_self.mpr fun i hi => ?_
    simpa using (h i hi).ne_nil

-- ---------------------------------------------------------------------------
-- Ends of relations
-- ---------------------------------------------------------------------------

/-- A path as it is written, one quoted name a level. -/
def pathChars (path : AttributePath) : List Char :=
  ['.'].intercalate (path.map fun name => (quote name).toList)

theorem isItem_pathChars (hne : path ≠ []) : IsItem (pathChars path) where
  toSolid := by
    refine solid_intercalate (by simpa using hne) fun item hitem => ?_
    obtain ⟨name, -, rfl⟩ := List.mem_map.mp hitem
    exact solid_quote name
  unsplit := Unsplit.intercalate (unsplit_quotes (by decide) path) (unsplit_of_forall (forall_chars (by decide)))

theorem splitUnquotedChars_pathChars (hne : path ≠ []) :
    (splitUnquotedChars '.' false (pathChars path)).map unquote = path := by
  rw [pathChars, splitUnquotedChars_intercalate (by simpa using hne) (by decide) (unsplit_quotes (by decide) path),
    map_unquote_quote]

theorem toList_pathList : (pathList attrs).toList = [',', ' '].intercalate (attrs.map pathChars) := by
  have hpath : ∀ path : AttributePath, (".".intercalate (path.map quote)).toList = pathChars path := by
    intro path
    simp only [String.toList_intercalate, List.map_map, pathChars]
    rfl
  simp only [pathList, String.toList_intercalate, List.map_map]
  refine congrArg _ (List.map_congr_left fun path _ => hpath path)

theorem mem_pathChars (h : c ∈ pathChars path) : (∃ name ∈ path, c ∈ name.toList) ∨ c = '"' ∨ c = '.' := by
  rcases mem_intercalate h with h | ⟨item, hitem, h⟩
  · exact .inr (.inr (by simpa using h))
  · obtain ⟨name, hname, rfl⟩ := List.mem_map.mp hitem
    exact (mem_quote h).imp (fun h => ⟨name, hname, h⟩) .inl

theorem entityIn_render (e : EntityName) : entityIn {} e.render.toList = e := by
  rw [entityIn, String.ofList_toList, EntityName.parse_render]
  split
  · rename_i h
    simp [← h]
  · rfl

/-- The paths that an end of a relation lists: each has a name, and no name holds the parenthesis
that opens the list. -/
def Listable (attrs : List AttributePath) : Prop :=
  ∀ path ∈ attrs, path ≠ [] ∧ ∀ name ∈ path, '(' ∉ name.toList

theorem Endpoint.read_endpointText (h : Listable l.attrs) :
    Endpoint.read {} (endpointText l) = { entity := l.entity, attrs := l.attrs } := by
  have htext : (endpointText l).toList =
      (l.entity.render.toList ++ '(' :: (pathList l.attrs).toList) ++ [')'] := by
    simp [endpointText]
  have hopen : ∀ c ∈ (pathList l.attrs).toList.reverse, decide (c = '(') = false := by
    rintro c hc
    rw [List.mem_reverse, toList_pathList] at hc
    refine decide_eq_false ?_
    rintro rfl
    rcases mem_intercalate hc with hc | ⟨item, hitem, hc⟩
    · simp at hc
    · obtain ⟨path, hpath, rfl⟩ := List.mem_map.mp hitem
      rcases mem_pathChars hc with ⟨name, hname, hc⟩ | hc | hc
      · exact (h path hpath).2 name hname hc
      · cases hc
      · cases hc
  have hbreak : breakAtLastOpen? (l.entity.render.toList ++ '(' :: (pathList l.attrs).toList) =
      some (l.entity.render.toList, (pathList l.attrs).toList) := by
    rw [breakAtLastOpen?, List.reverse_append, List.reverse_cons, List.append_assoc,
      List.singleton_append, breakAt?_append hopen (by decide)]
    simp
  have hitems : ∀ item ∈ l.attrs.map pathChars, IsItem item := by
    intro item hitem
    obtain ⟨path, hpath, rfl⟩ := List.mem_map.mp hitem
    exact isItem_pathChars (h path hpath).1
  rw [Endpoint.read, htext, dropTail?_append, Option.bind_some, hbreak]
  simp only [entityIn_render, toList_pathList, listItems_intercalate hitems, List.map_map]
  congr 1
  exact (List.map_congr_left fun path hpath => splitUnquotedChars_pathChars (h path hpath).1).trans
    (List.map_id l.attrs)

-- ---------------------------------------------------------------------------
-- Types and defaults
-- ---------------------------------------------------------------------------

theorem splitDefault_append (h : ∀ c ∈ cs, isDefaultQuote c = false ∧ c ≠ '=') :
    splitDefault depth none (cs ++ rest) =
      (cs ++ (splitDefault (openParens cs depth) none rest).1,
        (splitDefault (openParens cs depth) none rest).2) := by
  induction cs generalizing depth with
  | nil => rfl
  | cons c cs ih =>
    obtain ⟨hquote, heq⟩ := h c List.mem_cons_self
    have ih := fun d => @ih d fun d hd => h d (List.mem_cons_of_mem _ hd)
    rw [List.cons_append, splitDefault]
    simp only [hquote, heq, false_and, Bool.false_eq_true, ↓reduceIte, ih, openParens,
      List.foldl_cons]
    by_cases hopen : c = '('
    · simp [hopen]
    · by_cases hclose : c = ')'
      · simp [hclose]
      · simp [hopen, hclose]

theorem splitDefault_doubled : splitDefault depth (some '"') (doubleQuotes cs ++ '"' :: rest) =
    (doubleQuotes cs ++ '"' :: (splitDefault depth none rest).1,
      (splitDefault depth none rest).2) := by
  induction cs with
  | nil => simp [doubleQuotes, splitDefault]
  | cons c cs ih =>
    by_cases hc : c = '"'
    · simp [hc, doubleQuotes, splitDefault, isDefaultQuote, ih]
    · simp [hc, doubleQuotes, splitDefault, ih]

theorem splitDefault_end (hrest : rest = [] ∨ ∃ value, rest = '=' :: value) :
    splitDefault 0 none rest = ([], rest.tail?) := by
  rcases hrest with rfl | ⟨value, rfl⟩ <;> simp [splitDefault, isDefaultQuote]

/-- Types that the writer can spell. One that stands without quotes must end where it ends for the
reader as well, and be no modifier. -/
structure SpellableType (type : String) : Prop where
  ne_empty : type ≠ ""
  bare : type.toList.any needsQuotes = false → openParens type.toList = 0 ∧
    (∀ c ∈ type.toList, c ≠ '\'' ∧ c ≠ '`') ∧ Modifier.ofWord? type = none

/-- The word of a type and its default. -/
def typeWord (type : String) (value : Option String) : List Char :=
  (typeText type).toList ++ ((value.map defaultText).getD "").toList

theorem typeText_cases (type : String) :
    (typeText type).toList = '"' :: (doubleQuotes type.toList ++ ['"']) ∨
      ((typeText type).toList = type.toList ∧ type.toList.any needsQuotes = false) := by
  unfold typeText
  split
  · exact .inl (by simp)
  · rename_i h
    exact .inr ⟨rfl, by simpa using h⟩

theorem unquote_typeText (type : String) : unquote (typeText type).toList = type := by
  rcases typeText_cases type with heq | ⟨heq, hbare⟩
  · rw [heq, unquote_quoted, String.ofList_toList]
  · rw [heq, unquote_of_head, String.ofList_toList]
    intro h
    have := List.any_eq_false.mp hbare '"' (List.mem_of_head? h)
    simp [needsQuotes] at this

theorem simpleDefault_ne (h : isSimpleDefault value = true) (hc : c ∈ value.toList)
    (hd : (isAlphanumeric d || "_.-+:'".toList.contains d) = false) : c ≠ d := by
  rintro rfl
  simp only [isSimpleDefault, Bool.and_eq_true, List.all_eq_true] at h
  have hsimple := h.2 c hc
  rw [hd] at hsimple
  cases hsimple

/-- The text behind the equals sign, and how it is read. -/
theorem defaultText_cases (value : String) : ∃ cs, (defaultText value).toList = '=' :: cs ∧
    unbacktick cs = value ∧ (cs = value.toList ∧ isSimpleDefault value = true ∨
      cs = '`' :: (value.toList ++ ['`'])) := by
  unfold defaultText
  split
  · rename_i h
    refine ⟨value.toList, by simp, ?_, .inl ⟨rfl, h⟩⟩
    rw [unbacktick_of_head, String.ofList_toList]
    intro hhead
    exact simpleDefault_ne h (List.mem_of_head? hhead) (by decide) rfl
  · refine ⟨'`' :: (value.toList ++ ['`']), by simp, ?_, .inr rfl⟩
    rw [unbacktick_ticked, String.ofList_toList]

/-- The default is behind the type, if there is one. -/
theorem typeWord_eq (type : String) (value : Option String) :
    ∃ rest, typeWord type value = (typeText type).toList ++ rest ∧
      (rest = [] ∨ ∃ cs, rest = '=' :: cs) ∧ rest.tail?.map unbacktick = value := by
  cases value with
  | none => exact ⟨[], rfl, .inl rfl, rfl⟩
  | some value =>
    obtain ⟨cs, heq, hread, -⟩ := defaultText_cases value
    exact ⟨'=' :: cs, by simp [typeWord, heq], .inr ⟨cs, rfl⟩, by simp [hread]⟩

theorem splitDefault_typeWord (ht : SpellableType type) (value : Option String) :
    unquote (splitDefault 0 none (typeWord type value)).1 = type ∧
      (splitDefault 0 none (typeWord type value)).2.map unbacktick = value := by
  obtain ⟨rest, hword, hrest, hvalue⟩ := typeWord_eq type value
  have hsplit : splitDefault 0 none (typeWord type value) = ((typeText type).toList, rest.tail?) := by
    rcases typeText_cases type with heq | ⟨heq, hbare⟩
    · rw [hword, heq, List.cons_append, List.append_assoc, List.singleton_append, splitDefault]
      simp only [isDefaultQuote, decide_true, Bool.true_or, ↓reduceIte,
        splitDefault_doubled, splitDefault_end hrest]
    · obtain ⟨hclosed, hquotes, -⟩ := ht.bare hbare
      have hchars : ∀ c ∈ type.toList, isDefaultQuote c = false ∧ c ≠ '=' := by
        intro c hc
        have := List.any_eq_false.mp hbare c hc
        simp only [needsQuotes, Bool.not_eq_true, Bool.or_eq_false_iff, decide_eq_false_iff_not] at this
        simp [isDefaultQuote, hquotes c hc, this]
      rw [hword, heq, splitDefault_append hchars, hclosed, splitDefault_end hrest]
      simp
  rw [hsplit]
  exact ⟨unquote_typeText type, hvalue⟩

-- ---------------------------------------------------------------------------
-- Modifiers
-- ---------------------------------------------------------------------------

/-- The keyword of a word, up to an equals sign or a parenthesis. -/
def keyword (cs : List Char) : List Char := cs.takeWhile fun c => !(c = '=' || c = '(')

def modifierKeywords : List String := ["pk", "nullable", "generated", "unique", "index", "check"]

theorem cardinalities?_eq_none :
    cardinalities? word = none ↔ word.toLower ∉ ["->", "fk", "--", "<>"] := by
  unfold cardinalities?
  split <;> simp_all

theorem ofWord?_eq_none : Modifier.ofWord? text = none ↔
    (String.ofList (keyword text.toList)).toLower ∉ modifierKeywords ∧ cardinalities? text = none := by
  unfold Modifier.ofWord? keyword modifierKeywords
  simp only
  split <;> simp_all

theorem mem_toLower {s : String} (h : c ∈ s.toList) (hc : c.toLower = c) : c ∈ s.toLower.toList := by
  rw [toLower_eq, String.toList_ofList]
  exact List.mem_map.mpr ⟨c, h, hc⟩

theorem toLower_head (h : cs.head? = some c) : (String.ofList cs).toLower.toList.head? = some c.toLower := by
  simp [toLower_eq, h]

theorem not_mem_of_head {words : List String} (h : cs.head? = some '"')
    (hwords : ∀ w ∈ words, w.toList.head? ≠ some '"') : (String.ofList cs).toLower ∉ words := by
  intro hmem
  exact hwords _ hmem (toLower_head h)

theorem keyword_append (h : rest = [] ∨ ∃ value, rest = '=' :: value) :
    keyword (cs ++ rest) = keyword cs := by
  have hrest : keyword rest = [] := by
    rcases h with rfl | ⟨value, rfl⟩ <;> rfl
  rw [keyword, List.takeWhile_append]
  split
  · rename_i hlen
    rw [show rest.takeWhile _ = [] from hrest, List.append_nil, keyword]
    exact (List.takeWhile_prefix _).eq_of_length hlen |>.symm
  · rfl

theorem ofWord?_typeWord (ht : SpellableType type) :
    Modifier.ofWord? (String.ofList (typeWord type value)) = none := by
  obtain ⟨rest, hword, hrest, -⟩ := typeWord_eq type value
  rw [ofWord?_eq_none, cardinalities?_eq_none, String.toList_ofList, hword, keyword_append hrest]
  rcases typeText_cases type with heq | ⟨heq, hbare⟩
  · rw [heq]
    exact ⟨not_mem_of_head rfl (by decide), not_mem_of_head rfl (by decide)⟩
  · obtain ⟨hkeyword, hoperator⟩ := ofWord?_eq_none.mp (ht.bare hbare).2.2
    rw [heq]
    refine ⟨hkeyword, fun hmem => ?_⟩
    rcases hrest with rfl | ⟨value, rfl⟩
    · rw [List.append_nil, String.ofList_toList] at hmem
      exact cardinalities?_eq_none.mp hoperator hmem
    · have heq : '=' ∈ (String.ofList (type.toList ++ '=' :: value)).toLower.toList :=
        mem_toLower (by simp) rfl
      revert heq
      exact (show ∀ w ∈ ["->", "fk", "--", "<>"], '=' ∉ w.toList by decide) _ hmem

/-- A name behind a keyword. -/
theorem modifierName?_assigned (name : Option String) :
    modifierName? (assigned name).toList = name := by
  cases name with
  | none => rfl
  | some name =>
    have hdrop : Text.dropHead? ['='] (assigned (some name)).toList = some (quote name).toList := by
      simp [assigned, dropHead?]
    have hne : quote name ≠ "" := fun h => (solid_quote name).ne_nil (by simp [h])
    simp [modifierName?, hdrop, (solid_quote name).strip, hne]

theorem assigned_head (name : Option String) :
    (assigned name).toList = [] ∨ ∃ c ∈ ['=', '('], (assigned name).toList.head? = some c := by
  cases name <;> simp [assigned]

/-- What a keyword leaves for the name and the predicate. -/
theorem ofWord?_append (cs : List Char) (hcs : ∀ c ∈ cs, c ≠ '=' ∧ c ≠ '(')
    (hrest : rest = [] ∨ ∃ c ∈ ['=', '('], rest.head? = some c) :
    keyword (cs ++ rest) = cs ∧ (cs ++ rest).dropWhile (fun c => !(c = '=' || c = '(')) = rest := by
  have hall : ∀ c ∈ cs, (!(decide (c = '=') || decide (c = '('))) = true := by
    intro c hc
    simp [hcs c hc]
  have hend : rest.takeWhile (fun c => !(c = '=' || c = '(')) = [] ∧
      rest.dropWhile (fun c => !(c = '=' || c = '(')) = rest := by
    rcases hrest with rfl | ⟨c, hc, hhead⟩
    · exact ⟨rfl, rfl⟩
    · obtain ⟨tail, rfl⟩ : ∃ tail, rest = c :: tail := by
        cases rest <;> simp_all
      have hc : c = '=' ∨ c = '(' := by simpa using hc
      rcases hc with rfl | rfl <;> simp
  constructor
  · rw [keyword, List.takeWhile_append_of_pos hall, hend.1, List.append_nil]
  · rw [List.dropWhile_append_of_pos hall, hend.2]

theorem ofWord?_pk : Modifier.ofWord? ("pk" ++ assigned name) = some (.key name) := by
  obtain ⟨hkey, hrest⟩ := ofWord?_append "pk".toList (forall_chars (by decide)) (assigned_head name)
  unfold keyword at hkey
  simp only [Modifier.ofWord?, String.toList_append, hkey, hrest, modifierName?_assigned]
  rw [toLower_eq]
  rfl

theorem ofWord?_nullable : Modifier.ofWord? "nullable" = some .nullable := by
  rw [Modifier.ofWord?, toLower_eq]
  rfl

theorem ofWord?_generated : Modifier.ofWord? "generated" = some .generated := by
  rw [Modifier.ofWord?, toLower_eq]
  rfl

/-- The word by which an attribute takes part in an index. -/
def indexWord : Option String × Bool → String
  | (name, true) => "unique" ++ assigned name
  | (name, false) => "index" ++ assigned name

theorem ofWord?_indexWord (item : Option String × Bool) :
    Modifier.ofWord? (indexWord item) = some (.index item.1 item.2) := by
  obtain ⟨name, unique⟩ := item
  cases unique with
  | true =>
    obtain ⟨hkey, hrest⟩ := ofWord?_append "unique".toList (forall_chars (by decide))
      (assigned_head name)
    unfold keyword at hkey
    simp only [Modifier.ofWord?, indexWord, String.toList_append, hkey, hrest,
      modifierName?_assigned]
    rw [toLower_eq]
    rfl
  | false =>
    obtain ⟨hkey, hrest⟩ := ofWord?_append "index".toList (forall_chars (by decide))
      (assigned_head name)
    unfold keyword at hkey
    simp only [Modifier.ofWord?, indexWord, String.toList_append, hkey, hrest,
      modifierName?_assigned]
    rw [toLower_eq]
    rfl

/-- A predicate behind the name of its check. -/
def predicateText (predicate : String) : String :=
  if predicate.isEmpty then "" else "(`" ++ predicate ++ "`)"

/-- The word by which an attribute takes part in a check. -/
def checkWord (item : Option String × String) : String :=
  "check" ++ assigned item.1 ++ predicateText item.2

theorem modifierPredicate_predicateText (predicate : String) :
    modifierPredicate (predicateText predicate).toList = predicate := by
  unfold predicateText
  split
  · rename_i h
    rw [String.isEmpty_iff.mp h]
    rfl
  · have htext : ("(`" ++ predicate ++ "`)").toList =
        '(' :: ('`' :: (predicate.toList ++ ['`']) ++ [')']) := by
      simp
    rw [htext, modifierPredicate, between?_append]
    simp only [unbacktick_ticked, String.ofList_toList]

theorem predicateText_head (predicate : String) :
    (predicateText predicate).toList = [] ∨ ∃ cs, (predicateText predicate).toList = '(' :: cs := by
  unfold predicateText
  split
  · exact .inl rfl
  · exact .inr (by simp)

theorem checkWord_head (name : Option String) (predicate : String) :
    (assigned name).toList ++ (predicateText predicate).toList = [] ∨ ∃ c ∈ ['=', '('],
      ((assigned name).toList ++ (predicateText predicate).toList).head? = some c := by
  cases name with
  | none => rcases predicateText_head predicate with h | ⟨cs, h⟩ <;> simp [assigned, h]
  | some name => simp [assigned]

theorem ofWord?_checkWord (h : ∀ name ∈ item.1, '(' ∉ name.toList) :
    Modifier.ofWord? (checkWord item) = some (.check item.1 item.2) := by
  obtain ⟨name, predicate⟩ := item
  have hname : ∀ c ∈ (assigned name).toList, decide (c ≠ '(') = true := by
    rintro c hc
    rw [decide_eq_true_eq]
    rintro rfl
    cases name with
    | none => cases hc
    | some name =>
      have hquote : '(' ∈ (quote name).toList := by simpa [assigned] using hc
      rcases mem_quote hquote with hmem | hmem
      · exact h name rfl hmem
      · cases hmem
  have hend : (predicateText predicate).toList.takeWhile (fun c => decide (c ≠ '(')) = [] ∧
      (predicateText predicate).toList.dropWhile (fun c => decide (c ≠ '(')) =
        (predicateText predicate).toList := by
    rcases predicateText_head predicate with h | ⟨cs, h⟩ <;> simp [h]
  obtain ⟨hkey, hrest⟩ := ofWord?_append "check".toList (forall_chars (by decide))
    (checkWord_head name predicate)
  unfold keyword at hkey
  simp only [Modifier.ofWord?, checkWord, String.toList_append, List.append_assoc, hkey, hrest]
  rw [List.takeWhile_append_of_pos hname, List.dropWhile_append_of_pos hname, hend.1, hend.2,
    List.append_nil, modifierName?_assigned, modifierPredicate_predicateText, toLower_eq]
  rfl

/-- No operator stands for one to many. -/
theorem cardinalities?_operator (hs : r.source.cardinality = some a)
    (ht : r.target.cardinality = some b) (h : (a, b) ≠ (.one, .many)) :
    cardinalities? (operator r) = some (a, b) := by
  rw [cardinalities?, toLower_eq, operator, hs, ht]
  cases a <;> cases b <;> first | rfl | exact absurd rfl h

theorem ofWord?_operator (hs : r.source.cardinality = some a)
    (ht : r.target.cardinality = some b) (h : (a, b) ≠ (.one, .many)) :
    Modifier.ofWord? (operator r) = some (.reference (a, b)) := by
  rw [Modifier.ofWord?, cardinalities?_operator hs ht h, toLower_eq, operator, hs, ht]
  cases a <;> cases b <;> rfl

-- ---------------------------------------------------------------------------
-- Named types
-- ---------------------------------------------------------------------------

/-- The values or the definition of a type, as one word. -/
def bodyWord (t : NamedType) : Option (List Char) :=
  match t.values, t.definition with
  | some values, _ =>
    some ('(' :: ([',', ' '].intercalate (values.map fun v => (quote v).toList) ++ [')']))
  | none, some definition => some ('`' :: (definition.toList ++ ['`']))
  | none, none => none

theorem withBody_bodyWord {body : Option Word} (h : t.values = none ∨ t.definition = none)
    (hbody : body.map (·.text) = (bodyWord t).map String.ofList) :
    State.withBody { t with values := none, definition := none } body = t := by
  obtain ⟨space, name, values, definition, doc, extra⟩ := t
  cases values with
  | none =>
    cases definition with
    | none =>
      obtain rfl : body = none := by simpa [bodyWord] using hbody
      rfl
    | some definition =>
      obtain ⟨word, rfl, htext⟩ : ∃ word, body = some word ∧
          word.text = String.ofList ('`' :: (definition.toList ++ ['`'])) := by
        simpa [bodyWord] using hbody
      have hnone : between? '(' ')' ('`' :: (definition.toList ++ ['`'])) = none :=
        between?_of_head (by simp)
      simp [State.withBody, htext, hnone, unbacktick_ticked]
  | some values =>
    obtain rfl : definition = none := h.resolve_left (by simp)
    obtain ⟨word, rfl, htext⟩ : ∃ word, body = some word ∧ word.text = String.ofList
        ('(' :: ([',', ' '].intercalate (values.map fun v => (quote v).toList) ++ [')'])) := by
      simpa [bodyWord] using hbody
    have hitems : ∀ item ∈ values.map fun v => (quote v).toList, IsItem item := by
      intro item hitem
      obtain ⟨value, -, rfl⟩ := List.mem_map.mp hitem
      exact isItem_quote value
    simp only [State.withBody, htext, String.toList_ofList, between?_append,
      listItems_intercalate hitems, map_unquote_quote]

end SchemaDialects.Markup
