import SchemaDialects.Proofs.Sql.Productions
import SchemaDialects.Sql.DataType

/-!
# Data types in written text

A type is a word, perhaps with numerals in parentheses. Reading puts a space behind each comma, which
normalization takes away again (`normalizeType_render`).
-/

namespace SchemaDialects.Sql

open Text Production

/-- What stands behind the name of a type. -/
def parameterText : Option (List String) → String
  | none => ""
  | some numerals => "(" ++ ",".intercalate numerals ++ ")"

def parameterTokens : Option (List String) → List Token
  | none => []
  | some numerals =>
    openToken :: ([commaToken].intercalate (numerals.map fun n => [numeralToken n]) ++ [closeToken])

def typeTokens (base : String) (parameters : Option (List String)) : List Token :=
  ⟨.word base, base, .unknown⟩ :: parameterTokens parameters

/-- A word, and numerals if there are parameters. -/
structure IsTypeName (base : String) (parameters : Option (List String)) : Prop where
  plain : Flavor.isPlainName base = true
  keyword : Keyword.ofWord? base = none
  collate : base ≠ "collate"
  charset : base ≠ "charset"
  numerals : ∀ numerals ∈ parameters, ∀ n ∈ numerals, IsNumeral n

instance : Decidable (IsTypeName base parameters) :=
  decidable_of_iff (Flavor.isPlainName base = true ∧ Keyword.ofWord? base = none ∧ base ≠ "collate" ∧
      base ≠ "charset" ∧ ∀ numerals ∈ parameters, ∀ n ∈ numerals, IsNumeral n)
    ⟨fun h => ⟨h.1, h.2.1, h.2.2.1, h.2.2.2.1, h.2.2.2.2⟩,
      fun h => ⟨h.plain, h.keyword, h.collate, h.charset, h.numerals⟩⟩

theorem lexes_parameters {parameters : Option (List String)}
    (h : ∀ numerals ∈ parameters, ∀ n ∈ numerals, IsNumeral n) :
    Lexes (parameterText parameters).toList rest (parameterTokens parameters) := by
  cases parameters with
  | none => exact .nil
  | some numerals =>
    have hlist : Lexes (",".intercalate (numerals.map fun n => n)).toList (")".toList ++ rest)
        ([commaToken].intercalate (numerals.map fun n => [numeralToken n])) := by
      refine lexes_intercalate (fun _ _ _ => lexes_comma) fun n hn us hus => lexes_numeral (h _ rfl n hn) ?_
      rcases hus with rfl | ⟨more, rfl⟩ <;> exact endsNumber_of_head (by simp)
    rw [List.map_id'] at hlist
    rw [parameterText, String.toList_append, String.toList_append, List.append_assoc]
    exact lexes_open.append (hlist.append lexes_close)

theorem lexes_typeName (h : IsTypeName base parameters) (hrest : Stops rest) :
    Lexes (base ++ parameterText parameters).toList rest (typeTokens base parameters) := by
  rw [String.toList_append]
  refine Lexes.append (lexes_plain h.plain h.keyword ?_) (lexes_parameters h.numerals)
  cases parameters with
  | none => exact hrest
  | some numerals => simp [Stops, parameterText]

-- ---------------------------------------------------------------------------
-- Plain names
-- ---------------------------------------------------------------------------

/-- The characters of plain names. -/
def isPlainNameChar (c : Char) : Bool := (c.isLower || c.isDigit) || c = '_'

theorem isPlainNameChar_ascii (h : isPlainNameChar c = true) : c.toNat < 0x80 := by
  simp only [isPlainNameChar, Bool.or_eq_true, decide_eq_true_eq, isLower_iff, isDigit_iff] at h
  rcases h with h | rfl
  · omega
  · decide

theorem isPlainNameChar_of_mem (h : Flavor.isPlainName name = true) :
    ∀ c ∈ name.toList, isPlainNameChar c = true := by
  rw [Flavor.isPlainName] at h
  cases hchars : name.toList with
  | nil => simp
  | cons c tail =>
    simp only [hchars, Bool.and_eq_true, List.all_eq_true] at h
    exact List.forall_mem_cons.mpr ⟨by rw [isPlainNameChar, Bool.or_right_comm, h.1, Bool.true_or], h.2⟩

theorem ne_of_isPlainNameChar {c d : Char} (h : isPlainNameChar c = true)
    (hd : isPlainNameChar d = false) : c ≠ d := by
  rintro rfl
  exact Bool.noConfusion (h.symm.trans hd)

theorem isBlank_of_isPlainNameChar (h : isPlainNameChar c = true) : isBlank c = false :=
  isBlank_eq_false (p := fun c => isPlainNameChar c = true) (by decide) h

theorem toLower_of_isPlainNameChar (h : isPlainNameChar c = true) : c.toLower = c := by
  have hall : ∀ n < 0x80, isPlainNameChar (Char.ofNat n) = true →
      (Char.ofNat n).toLower = Char.ofNat n := by decide
  have := hall c.toNat (isPlainNameChar_ascii h)
  rw [Char.ofNat_toNat] at this
  exact this h

theorem toLower_of_plain (h : Flavor.isPlainName name = true) : name.toLower = name := by
  have hmap : name.toList.map Char.toLower = name.toList := by
    rw [List.map_congr_left fun c hc => toLower_of_isPlainNameChar (isPlainNameChar_of_mem h c hc),
      List.map_id']
  rw [toLower_eq, hmap, String.ofList_toList]

theorem lowercase_of_plain (h : Flavor.isPlainName name = true) : lowercase name = name := by
  have hall : ∀ cs before, (∀ c ∈ cs, isPlainNameChar c = true) → lowerAfter before cs = cs := by
    intro cs
    induction cs with
    | nil => intro before _; rfl
    | cons c cs ih =>
      intro before hcs
      obtain ⟨hc, hmore⟩ := List.forall_mem_cons.mp hcs
      have hsigma : c ≠ 'Σ' := by
        rintro rfl
        exact absurd hc (by decide)
      simp [lowerAfter, hsigma, lowerChar, isPlainNameChar_ascii hc, toLower_of_isPlainNameChar hc,
        ih _ hmore]
  rw [lowercase, hall _ _ (isPlainNameChar_of_mem h), String.ofList_toList]

-- ---------------------------------------------------------------------------
-- Reading
-- ---------------------------------------------------------------------------

theorem isClosed_inside {stop : Lexeme → Bool} (h : ∀ t ∈ ts, t.lexeme = .comma ∨ ∃ n, t.lexeme = .num n) :
    isClosed stop (depth + 1) (ts ++ rest) = isClosed stop (depth + 1) rest := by
  induction ts with
  | nil => rfl
  | cons t ts ih =>
    rw [List.cons_append, isClosed, ih fun u hu => h u (List.mem_cons_of_mem _ hu)]
    rcases h t List.mem_cons_self with ht | ⟨n, ht⟩ <;> simp [ht]

/-- Parameters stand in parentheses altogether. -/
theorem isClosed_parameters {stop : Lexeme → Bool} (parameters : Option (List String)) :
    isClosed stop 0 (parameterTokens parameters) = true := by
  cases parameters with
  | none => rfl
  | some numerals =>
    rw [parameterTokens, isClosed]
    simp only [openToken]
    rw [isClosed_inside]
    · simp [isClosed, closeToken]
    · intro t ht
      rcases mem_intercalate ht with hsep | ⟨item, hitem, ht⟩
      · obtain rfl := List.mem_singleton.mp hsep
        exact .inl rfl
      · obtain ⟨n, -, rfl⟩ := List.mem_map.mp hitem
        obtain rfl : t = numeralToken n := by simpa using ht
        exact .inr ⟨n, rfl⟩

/-- What follows the type of a column. -/
def EndsType (lexeme : Lexeme) : Prop :=
  lexeme = .comma ∨ lexeme = .closeParen ∨ startsColumnConstraint lexeme = true

/-- What ends a type ends a mark too. -/
theorem EndsType.ne_keyword (h : EndsType l) (hk : startsColumnConstraint (.keyword k) = false) :
    l ≠ .keyword k := by
  rintro rfl
  rcases h with h | h | h
  · exact Lexeme.noConfusion h
  · exact Lexeme.noConfusion h
  · exact Bool.noConfusion (hk.symm.trans h)

theorem EndsType.ne_open (h : EndsType l) : l ≠ .openParen := by
  rintro rfl
  rcases h with h | h | h
  · exact Lexeme.noConfusion h
  · exact Lexeme.noConfusion h
  · exact absurd h (by decide)

/-- Tokens that are not in a type unless they are in parentheses. It ends at SET only behind `character`. -/
def breaksType (l : Lexeme) : Bool :=
  l = .comma || startsColumnConstraint l || l.isWord "collate" || l.isWord "charset" || l.isKeyword .SET

theorem head_ne_set (h : isClosed breaksType 0 us = true) (hw : EndsType w.lexeme) :
    headIs (·.isKeyword .SET) (us ++ w :: ws) = false := by
  cases us with
  | nil => simpa [headIs, Lexeme.isKeyword] using hw.ne_keyword (k := .SET) rfl
  | cons u us =>
    rw [List.cons_append, headIs, List.headD_cons]
    rw [isClosed] at h
    cases hu : u.lexeme with
    | keyword k => simp_all [breaksType]
    | _ => rfl

theorem dataType_yields (hne : us ≠ []) (h : isClosed breaksType 0 us = true) (hw : EndsType w.lexeme) :
    Yields dataType (us ++ w :: ws) (fun d => d.text = renderTokens false us) (w :: ws) := by
  refine tokens_yields.bind fun ts hts => ?_
  obtain ⟨front, t, rest, rfl, hfront, ht, hrest⟩ := hts.append
  rw [← lexeme_of_bare ht] at hw
  have hclosed : isClosed breaksType 0 front = true := by rwa [← isClosed_bare, hfront]
  have hnonempty : front ≠ [] := by
    rintro rfl
    exact hne hfront.symm
  have hends : t.lexeme = .semicolon ∨ t.lexeme = .closeParen ∨
      endsDataType (front ++ t :: rest) (t :: rest) = true := by
    have hlt : (t :: rest).length < (front ++ t :: rest).length := by
      rw [List.length_append]
      exact Nat.lt_add_of_pos_left (List.length_pos_iff.mpr hnonempty)
    rcases hw with hw | hw | hw
    · simp [endsDataType, headIs, hw]
    · exact .inr (.inl hw)
    · refine .inr (.inr ?_)
      simp only [endsDataType, headIs, List.headD_cons, decide_eq_true hlt, hw, Bool.and_self, Bool.or_true,
        Bool.true_or]
  have hgo : ∀ u vs, breaksType u.lexeme = false → isClosed breaksType 0 vs = true →
      endsDataType (front ++ t :: rest) (u :: (vs ++ t :: rest)) = false := by
    intro u vs hu hvs
    have hset : headIs (·.isKeyword .SET) (vs ++ t :: rest) = false := head_ne_set hvs hw
    simp only [breaksType, Bool.or_eq_false_iff] at hu
    obtain ⟨⟨⟨⟨hcomma, hconstraint⟩, hcollate⟩, hcharset⟩, -⟩ := hu
    simp only [headIs] at hset
    simp only [endsDataType, headIs, List.headD_cons, List.drop_succ_cons, List.drop_zero, hset, hconstraint,
      hcollate, hcharset, Bool.and_false, Bool.or_false]
    exact hcomma
  rw [splitExpression_closed hgo hclosed hends hw.ne_open]
  refine (set_yields hrest).bind fun _ _ => ?_
  rw [if_neg (by simpa using hnonempty)]
  refine .pure ?_
  rw [← hfront, renderTokens, renderTokens, renderFrom_bare]

-- ---------------------------------------------------------------------------
-- Normalization
-- ---------------------------------------------------------------------------

/-- The text is its words with one space between them, and there is a word. -/
def Collapsed (cs : List Char) : Prop :=
  runs isBlank cs ≠ [] ∧ collapseBlanks cs = cs

theorem Collapsed.of_solid (hne : cs ≠ []) (h : ∀ c ∈ cs, isBlank c = false) : Collapsed cs := by
  have hruns : runs isBlank cs = [cs] := by
    rw [runs, pieces_of_none h, List.filter_cons_of_pos (by simpa using hne)]
    rfl
  exact ⟨by simp [hruns], by rw [collapseBlanks, hruns, List.intercalate_singleton]⟩

theorem Collapsed.cons (hne : cs ≠ []) (h : ∀ c ∈ cs, isBlank c = false) (hrest : Collapsed rest) :
    Collapsed (cs ++ ' ' :: rest) := by
  have hruns : runs isBlank (cs ++ ' ' :: rest) = cs :: runs isBlank rest := by
    rw [runs, pieces_append h rfl, List.filter_cons_of_pos (by simpa using hne)]
    rfl
  refine ⟨by simp [hruns], ?_⟩
  obtain ⟨hsome, heq⟩ := hrest
  rw [collapseBlanks] at heq ⊢
  obtain ⟨word, words, hwords⟩ := List.exists_cons_of_ne_nil hsome
  rw [hruns, hwords, List.intercalate_cons_cons, ← hwords, heq]
  simp

theorem isNumeral_chars (h : IsNumeral n) : ∀ c ∈ n.toList, c.isDigit = true ∨ c = '.' := by
  have hall : ∀ cs seen, numberLength seen cs = cs.length → ∀ c ∈ cs, c.isDigit = true ∨ c = '.' := by
    intro cs
    induction cs with
    | nil => simp
    | cons c cs ih =>
      intro seen hwhole
      rw [numberLength, List.length_cons] at hwhole
      refine List.forall_mem_cons.mpr ?_
      split at hwhole
      · exact ⟨.inl ‹_›, ih _ (Nat.succ.inj hwhole)⟩
      · split at hwhole
        · rename_i hpoint
          exact ⟨.inr hpoint.1, ih _ (Nat.succ.inj hwhole)⟩
        · contradiction
  exact hall _ _ h.whole

/-- The characters of a type: what stands in front of the numerals, these with `join` between them, and a
closing parenthesis. -/
def listChars (front join : List Char) (numerals : List String) : List Char :=
  front ++ (join.intercalate (numerals.map String.toList) ++ [')'])

theorem listChars_cons {front join : List Char} : listChars front join (n :: m :: ms) =
    front ++ n.toList ++ join ++ listChars [] join (m :: ms) := by
  simp [listChars, List.intercalate_cons_cons]

theorem listChars_front {front join : List Char} (m : String) (ms : List String) :
    ∃ rest, listChars front join (m :: ms) = front ++ m.toList ++ rest := by
  cases ms with
  | nil => exact ⟨[')'], by simp [listChars]⟩
  | cons k ks => exact ⟨_, by rw [listChars_cons, List.append_assoc]⟩

theorem isBlank_of_isNumeral (h : IsNumeral n) : ∀ c ∈ n.toList, isBlank c = false :=
  fun c hc => isBlank_eq_false (p := fun c => c.isDigit = true ∨ c = '.') (by decide) (isNumeral_chars h c hc)

theorem comma_not_mem_numeral (h : IsNumeral n) : ',' ∉ n.toList := by
  intro hmem
  rcases isNumeral_chars h ',' hmem with h | h
  · exact absurd h (by decide)
  · exact absurd h (by decide)

theorem collapsed_listChars {numerals : List String} (h : ∀ n ∈ numerals, IsNumeral n)
    (hfront : ∀ c ∈ front, isBlank c = false) : Collapsed (listChars front [',', ' '] numerals) := by
  induction numerals generalizing front with
  | nil =>
    refine .of_solid (by simp [listChars]) fun c hc => ?_
    rcases List.mem_append.mp hc with hc | hc
    · exact hfront c hc
    · obtain rfl : c = ')' := by simpa using hc
      rfl
  | cons n ns ih =>
    obtain ⟨hn, hns⟩ := List.forall_mem_cons.mp h
    have hword : ∀ tail ∈ [[')'], [',']], ∀ c ∈ front ++ n.toList ++ tail, isBlank c = false := by
      intro tail htail c hc
      rcases List.mem_append.mp hc with hc | hc
      · rcases List.mem_append.mp hc with hc | hc
        · exact hfront c hc
        · exact isBlank_of_isNumeral hn c hc
      · have hall : ∀ tail ∈ [[')'], [',']], ∀ c ∈ tail, isBlank c = false := by simp [isBlank]
        exact hall tail htail c hc
    cases ns with
    | nil =>
      have heq : listChars front [',', ' '] [n] = front ++ n.toList ++ [')'] := by simp [listChars]
      rw [heq]
      exact .of_solid (by simp) (hword _ (by simp))
    | cons m ms =>
      have heq : listChars front [',', ' '] (n :: m :: ms) =
          front ++ n.toList ++ [','] ++ ' ' :: listChars [] [',', ' '] (m :: ms) := by
        simp [listChars_cons]
      rw [heq]
      exact .cons (by simp) (hword _ (by simp)) (ih hns (by simp))

/-- Without spaces behind the commas the text is one word. -/
theorem collapsed_listChars_tight {numerals : List String} (h : ∀ n ∈ numerals, IsNumeral n)
    (hfront : ∀ c ∈ front, isBlank c = false) : Collapsed (listChars front [','] numerals) := by
  refine .of_solid (by simp [listChars]) fun c hc => ?_
  rcases List.mem_append.mp hc with hc | hc
  · exact hfront c hc
  · rcases List.mem_append.mp hc with hc | hc
    · rcases mem_intercalate hc with hsep | ⟨item, hitem, hc⟩
      · obtain rfl := List.mem_singleton.mp hsep
        rfl
      · obtain ⟨n, hn, rfl⟩ := List.mem_map.mp hitem
        exact isBlank_of_isNumeral (h n hn) c hc
    · obtain rfl : c = ')' := by simpa using hc
      rfl

theorem tightenCommas_append (h : ',' ∉ cs) : tightenCommas (cs ++ rest) = cs ++ tightenCommas rest := by
  induction cs with
  | nil => rfl
  | cons c cs ih =>
    have hc : c ≠ ',' := fun heq => h (heq ▸ List.mem_cons_self)
    rw [List.cons_append, tightenCommas, ih fun hmem => h (List.mem_cons_of_mem _ hmem)]
    · rfl
    · rintro cs rfl
      exact absurd rfl hc

theorem tightenCommas_comma (h : cs.head? ≠ some ' ') :
    tightenCommas (',' :: cs) = ',' :: tightenCommas cs := by
  rw [tightenCommas]
  rintro rest - rfl
  exact h rfl

theorem tightenCommas_listChars {front join : List Char} {numerals : List String} (h : ∀ n ∈ numerals, IsNumeral n)
    (hfront : ',' ∉ front)
    (hjoin : ∀ cs, cs.head? ≠ some ' ' → tightenCommas (join ++ cs) = ',' :: tightenCommas cs) :
    tightenCommas (listChars front join numerals) = listChars front [','] numerals := by
  induction numerals generalizing front with
  | nil =>
    have hlast : tightenCommas [')'] = [')'] := by decide
    simp [listChars, tightenCommas_append hfront, hlast]
  | cons n ns ih =>
    obtain ⟨hn, hns⟩ := List.forall_mem_cons.mp h
    cases ns with
    | nil =>
      have hlast : tightenCommas [')'] = [')'] := by decide
      simp [listChars, tightenCommas_append hfront, tightenCommas_append (comma_not_mem_numeral hn), hlast]
    | cons m ms =>
      have hhead : (listChars [] join (m :: ms)).head? ≠ some ' ' := by
        obtain ⟨-, d, hd, hdigit⟩ := hns m List.mem_cons_self
        obtain ⟨rest, hrest⟩ := @listChars_front [] join m ms
        obtain ⟨tail, htail⟩ := List.head?_eq_some_iff.mp hd
        rw [hrest, htail]
        rintro ⟨⟩
        exact absurd hdigit (by decide)
      rw [listChars_cons, listChars_cons, List.append_assoc, List.append_assoc,
        tightenCommas_append hfront, tightenCommas_append (comma_not_mem_numeral hn), hjoin _ hhead,
        ih hns (by simp)]
      simp

/-- A space stands in front of a numeral behind a comma, and nowhere else in a list. -/
theorem renderFrom_numerals {before : Lexeme} (h : before = .openParen ∨ before = .comma)
    (n : String) (ns : List String) :
    (renderFrom false (some before)
      ([commaToken].intercalate ((n :: ns).map fun n => [numeralToken n]) ++ [closeToken])).toList =
        (if before = .comma then [' '] else []) ++ listChars [] [',', ' '] (n :: ns) := by
  induction ns generalizing n before with
  | nil =>
    have hlist : [commaToken].intercalate ([n].map fun n => [numeralToken n]) ++ [closeToken] =
        [numeralToken n, closeToken] := rfl
    rw [hlist]
    rcases h with rfl | rfl
    · simp [renderFrom, isGlued, Token.spelling, numeralToken, closeToken, listChars]
    · simp [renderFrom, isGlued, isCast, Lexeme.isName, Token.spelling, numeralToken, closeToken,
        listChars]
  | cons m ms ih =>
    have hlist : [commaToken].intercalate ((n :: m :: ms).map fun n => [numeralToken n]) ++ [closeToken] =
        numeralToken n :: commaToken ::
          ([commaToken].intercalate ((m :: ms).map fun n => [numeralToken n]) ++ [closeToken]) := by
      simp [List.intercalate_cons_cons]
    have htail := ih (.inr rfl) m
    rw [hlist, listChars_cons, renderFrom, renderFrom]
    have hcomma : commaToken.lexeme = .comma := rfl
    simp only [hcomma, String.toList_append, htail]
    rcases h with rfl | rfl
    · simp [isGlued, Token.spelling, numeralToken, commaToken]
    · simp [isGlued, isCast, Lexeme.isName, Token.spelling, numeralToken, commaToken]

theorem toList_typeText (base : String) (numerals : List String) :
    (base ++ parameterText (some numerals)).toList =
      listChars (base.toList ++ ['(']) [','] numerals := by
  simp [parameterText, listChars]

theorem toList_renderTokens (base : String) (numerals : List String) :
    (renderTokens false (typeTokens base (some numerals))).toList =
      listChars (base.toList ++ ['(']) [',', ' '] numerals := by
  have hopen : (renderTokens false (typeTokens base (some numerals))).toList = base.toList ++ '(' ::
      (renderFrom false (some .openParen)
        ([commaToken].intercalate (numerals.map fun n => [numeralToken n]) ++ [closeToken])).toList := by
    simp [renderTokens, typeTokens, parameterTokens, renderFrom, isGlued, Token.spelling, openToken,
      Lexeme.isName]
  rw [hopen]
  cases numerals with
  | nil => simp [renderFrom, isGlued, Token.spelling, closeToken, listChars]
  | cons n ns =>
    rw [renderFrom_numerals (.inl rfl)]
    simp [listChars]

theorem splitType_listChars {type base : String} {join : List Char} {numerals : List String}
    (hbase : Flavor.isPlainName base = true)
    (htype : type.toList = listChars (base.toList ++ ['(']) join numerals)
    (hcollapsed : Collapsed type.toList) : splitType type =
      (base, String.ofList (tightenCommas (listChars ['('] join numerals))) := by
  have hbracket : ∀ c ∈ base.toList, (!(c = '(' || c = '[')) = true := by
    intro c hc
    have hplain := isPlainNameChar_of_mem hbase c hc
    have hopen : c ≠ '(' := ne_of_isPlainNameChar hplain (by decide)
    have hsquare : c ≠ '[' := ne_of_isPlainNameChar hplain (by decide)
    simp [hopen, hsquare]
  have hblank : ∀ c ∈ base.toList, isBlank c = false := fun c hc =>
    isBlank_of_isPlainNameChar (isPlainNameChar_of_mem hbase c hc)
  have htrim : trim (String.ofList base.toList) = base := by
    rw [trim, String.toList_ofList, stripWhile_of_ends, String.ofList_toList]
    · exact fun c hc => hblank c (List.mem_of_mem_head? hc)
    · exact fun c hc => hblank c (List.mem_of_mem_getLast? hc)
  obtain ⟨more, hmore⟩ : ∃ more, listChars ['('] join numerals = '(' :: more := ⟨_, rfl⟩
  have hchars : collapseBlanks type.toList = base.toList ++ '(' :: more := by
    rw [hcollapsed.2, htype, ← hmore, listChars, listChars, List.append_assoc]
  have hany : (base.toList ++ '(' :: more).any (fun c => c = '(' || c = '[') = true := by simp
  have htake : (base.toList ++ '(' :: more).takeWhile (fun c => !(c = '(' || c = '[')) = base.toList := by
    rw [List.takeWhile_append_of_pos hbracket]
    simp
  have hdrop : (base.toList ++ '(' :: more).dropWhile (fun c => !(c = '(' || c = '[')) = '(' :: more := by
    rw [List.dropWhile_append_of_pos hbracket]
    simp
  simp only [splitType, hchars, hany, htake, hdrop, htrim, lowercase_of_plain hbase, hmore, if_true]

/-- The spaces behind the commas make no difference. -/
theorem normalizeType_render (h : IsTypeName base parameters) :
    normalizeType (renderTokens false (typeTokens base parameters)) f =
      normalizeType (base ++ parameterText parameters) f := by
  cases parameters with
  | none =>
    have htext : renderTokens false (typeTokens base none) = base ++ parameterText none := by
      simp [typeTokens, parameterTokens, parameterText, renderTokens, renderFrom, isGlued,
        Token.spelling]
    rw [htext]
  | some numerals =>
    have hnumerals := h.numerals numerals rfl
    have hfront : ∀ c ∈ base.toList ++ ['('], isBlank c = false := by
      intro c hc
      rcases List.mem_append.mp hc with hc | hc
      · exact isBlank_of_isPlainNameChar (isPlainNameChar_of_mem h.plain c hc)
      · obtain rfl : c = '(' := by simpa using hc
        rfl
    have hspaced : splitType (renderTokens false (typeTokens base (some numerals))) =
        (base, String.ofList (listChars ['('] [','] numerals)) := by
      have htext := toList_renderTokens base numerals
      have hcollapsed : Collapsed (renderTokens false (typeTokens base (some numerals))).toList := by
        rw [htext]
        exact collapsed_listChars hnumerals hfront
      rw [splitType_listChars h.plain htext hcollapsed,
        tightenCommas_listChars hnumerals (by simp) fun cs _ => rfl]
    have htight : splitType (base ++ parameterText (some numerals)) =
        (base, String.ofList (listChars ['('] [','] numerals)) := by
      have htext := toList_typeText base numerals
      have hcollapsed : Collapsed (base ++ parameterText (some numerals)).toList := by
        rw [htext]
        exact collapsed_listChars_tight hnumerals hfront
      rw [splitType_listChars h.plain htext hcollapsed,
        tightenCommas_listChars hnumerals (by simp) fun cs hcs => tightenCommas_comma hcs]
    rw [normalizeType, normalizeType, hspaced, htight]

-- ---------------------------------------------------------------------------
-- Types as texts
-- ---------------------------------------------------------------------------

/-- A type as it is written at a column. -/
def TypeText (type : String) : Prop :=
  ∃ base parameters, type = base ++ parameterText parameters ∧ IsTypeName base parameters

theorem tokensOf_typeName (h : IsTypeName base parameters) :
    tokensOf (base ++ parameterText parameters) = typeTokens base parameters := by
  have hlexes : Lexes _ [] _ := lexes_typeName h (by simp [Stops])
  obtain ⟨ps, htiles, -, htokens⟩ := hlexes
  rw [List.append_nil, tiles_nil, List.append_nil] at htiles
  rw [tokensOf, htiles, htokens]

/-- A text that is read as one type. With the keyword of an index in front, a column could be read as an index. -/
structure ReadableType (type : String) : Prop where
  lexes : ∀ rest, Closes rest → Lexes type.toList rest (tokensOf type)
  head : ∃ t more, tokensOf type = t :: more ∧ t.lexeme ≠ .keyword .KEY ∧ t.lexeme ≠ .keyword .INDEX
  closed : isClosed breaksType 0 (tokensOf type) = true

theorem readableType_yields (h : ReadableType type) (hw : EndsType w.lexeme) :
    Yields dataType (tokensOf type ++ w :: ws) (fun d => d.text = renderTokens false (tokensOf type)) (w :: ws) := by
  refine dataType_yields ?_ h.closed hw
  obtain ⟨t, more, hmore, -⟩ := h.head
  exact hmore ▸ List.cons_ne_nil t more

theorem TypeText.readable (h : TypeText type) : ReadableType type := by
  obtain ⟨base, parameters, rfl, h⟩ := h
  refine ⟨fun rest hrest => ?_, ?_, ?_⟩
  · rw [tokensOf_typeName h]
    exact lexes_typeName h hrest.stops
  · rw [tokensOf_typeName h]
    exact ⟨_, _, rfl, by simp, by simp⟩
  · rw [tokensOf_typeName h, typeTokens, isClosed]
    have hword : breaksType (.word base) = false := by
      simp [breaksType, startsColumnConstraint, Lexeme.isKeyword, Lexeme.isWord, toLower_of_plain h.plain, h.collate,
        h.charset]
    simp [hword, isClosed_parameters]

/-- Reading a type changes its spacing, but not what it is normalized to. -/
theorem TypeText.normalizeType_render (h : TypeText type) :
    normalizeType (renderTokens false (tokensOf type)) f = normalizeType type f := by
  obtain ⟨base, parameters, rfl, h⟩ := h
  rw [tokensOf_typeName h, Sql.normalizeType_render h]

end SchemaDialects.Sql
