import SchemaDialects.Proofs.Markup.Contained

/-!
# Words that hold together

Each word that the writer makes is unbroken: names and lists of names always are, and words with free
text in them if that text is contained.
-/

namespace SchemaDialects.Markup

open Text
open Nesting (passes_nil passes_parens passes_ticked passes_quoted passes_bare passes_quote
  passes_intercalate)

-- ---------------------------------------------------------------------------
-- Names
-- ---------------------------------------------------------------------------

theorem wordPart_renderSegment {segment : Option String} (h : ∀ name ∈ segment, FeedFree name) :
    WordPart (renderSegment segment).toList := by
  cases segment with
  | none => exact wordPart_nil
  | some name => exact (unbroken_quote (h name rfl)).toWordPart

theorem unbroken_renderSegments (hfirst : ∀ segment ∈ segments.head?, segment ≠ none)
    (hne : segments ≠ []) (h : ∀ segment ∈ segments, ∀ name ∈ segment, FeedFree name) :
    Unbroken (renderSegments segments).toList := by
  obtain ⟨first, rest, rfl⟩ := List.exists_cons_of_ne_nil hne
  obtain ⟨name, rfl⟩ := Option.ne_none_iff_exists'.mp (hfirst first rfl)
  have hdot : WordPart ['.'] := wordPart_plain (forall_chars (by decide))
  have hrest : WordPart ((rest.map fun segment => (renderSegment segment).toList).flatMap ('.' :: ·)) := by
    refine .flatMap fun cs hcs => ?_
    obtain ⟨segment, hsegment, rfl⟩ := List.mem_map.mp hcs
    exact hdot.append (wordPart_renderSegment (h segment (List.mem_cons_of_mem _ hsegment)))
  have hname : FeedFree name := h (some name) List.mem_cons_self name rfl
  rw [renderSegments, String.toList_intercalate, List.map_map, List.map_cons,
    show ".".toList = ['.'] from rfl, intercalate_cons_flatMap]
  exact (unbroken_quote hname).append hrest

theorem head_segments (n : Namespace) (name : String) :
    ∀ segment ∈ (n.segments ++ [some name]).head?, segment ≠ none := by
  obtain ⟨database, catalog, schema⟩ := n
  cases database <;> cases catalog <;> cases schema <;> simp [Namespace.segments]

theorem unbroken_named (hspace : SpellableSpace space) (hname : FeedFree name) :
    Unbroken (renderSegments (space.segments ++ [some name])).toList := by
  refine unbroken_renderSegments (head_segments space name) (by simp) fun segment hsegment => ?_
  rcases List.mem_append.mp hsegment with hsegment | hsegment
  · exact hspace segment ((List.dropWhile_sublist _).subset hsegment)
  · obtain rfl := List.mem_singleton.mp hsegment
    rintro n ⟨⟩
    exact hname

-- ---------------------------------------------------------------------------
-- Lists
-- ---------------------------------------------------------------------------

theorem last_of_ends {first last : Char} {cs : List Char} (h : isBlank last = false) :
    ∀ c ∈ (first :: (cs ++ [last])).getLast?, isBlank c = false := by
  intro c hc
  rw [List.getLast?_cons, List.getLast?_append] at hc
  obtain rfl : last = c := by simpa using hc
  exact h

theorem unbroken_of_ends {first last : Char} {cs : List Char} (hfirst : isBlank first = false ∧ first ≠ '#' ∧ first ≠ '|')
    (hlast : isBlank last = false) (hpasses : Nesting.Passes {} {} (first :: (cs ++ [last])))
    (hfeed : '\n' ∉ cs) : Unbroken (first :: (cs ++ [last])) where
  last := last_of_ends hlast
  passes := hpasses
  feedFree hmem := by
    rcases List.mem_cons.mp hmem with rfl | hmem
    · exact absurd hfirst.1 (by decide)
    · rcases List.mem_append.mp hmem with hmem | hmem
      · exact hfeed hmem
      · obtain rfl := List.mem_singleton.mp hmem
        exact absurd hlast (by decide)
  head := ⟨first, rfl, hfirst⟩

theorem unbroken_list (h : ∀ item ∈ items, Nesting.Passes (.at 1) (.at 1) item ∧ '\n' ∉ item) :
    Unbroken ('(' :: ([',', ' '].intercalate items ++ [')'])) := by
  have hcomma : Nesting.Passes (.at 1) (.at 1) [',', ' '] :=
    .cons (.inr rfl) (.cons (.inl rfl) passes_nil)
  refine unbroken_of_ends (by decide) (by decide)
    (passes_parens (passes_intercalate (fun item hitem => (h item hitem).1) hcomma)) fun hmem => ?_
  rcases mem_intercalate hmem with hmem | ⟨item, hitem, hmem⟩
  · exact absurd hmem (by decide)
  · exact (h item hitem).2 hmem

theorem passes_pathChars (path : AttributePath) :
    Nesting.Passes (.at d) (.at d) (pathChars path) := by
  refine passes_intercalate (fun item hitem => ?_) (.cons (.inr rfl) passes_nil)
  obtain ⟨name, -, rfl⟩ := List.mem_map.mp hitem
  exact passes_quote name

theorem unbroken_endpointText (h : ContainedLink l) : Unbroken (endpointText l).toList := by
  have hlist : Unbroken ('(' :: ([',', ' '].intercalate (l.attrs.map pathChars) ++ [')'])) := by
    refine unbroken_list fun item hitem => ?_
    obtain ⟨path, hpath, rfl⟩ := List.mem_map.mp hitem
    refine ⟨passes_pathChars path, fun hmem => ?_⟩
    rcases mem_pathChars hmem with ⟨name, hname, hmem⟩ | hmem | hmem
    · exact h.paths path hpath name hname hmem
    · cases hmem
    · cases hmem
  have htext : (endpointText l).toList =
      l.entity.render.toList ++ '(' :: ([',', ' '].intercalate (l.attrs.map pathChars) ++ [')']) := by
    simp [endpointText, toList_pathList]
  rw [htext]
  exact (unbroken_named h.space h.name).append hlist.toWordPart

theorem unbroken_values {values : List String} (h : ∀ value ∈ values, FeedFree value) :
    Unbroken ('(' :: ([',', ' '].intercalate (values.map fun v => (quote v).toList) ++ [')'])) := by
  refine unbroken_list fun item hitem => ?_
  obtain ⟨value, hvalue, rfl⟩ := List.mem_map.mp hitem
  exact ⟨passes_quote value, (unbroken_quote (h value hvalue)).feedFree⟩

theorem unbroken_ticked (h : Tickable text) : Unbroken ('`' :: (text.toList ++ ['`'])) :=
  unbroken_of_ends (by decide) (by decide) (passes_ticked h.tickFree) h.feedFree

-- ---------------------------------------------------------------------------
-- Words with free text
-- ---------------------------------------------------------------------------

theorem Unbroken.contained (h : Unbroken cs) : ContainedWord (String.ofList cs) where
  feedFree := by simpa [FeedFree] using h.feedFree
  oneWord := by
    have hlength := h.passes []
    simpa [OneWord, wordLength] using hlength

theorem ContainedWord.passes (h : ContainedWord text) : Nesting.Passes {} {} text.toList :=
  Nesting.passes_of_wordLength h.oneWord

/-- A type that stands without quotes has no mark in it but parentheses, ticks and apostrophes. -/
theorem bare_ne {type : String} (h : type.toList.any needsQuotes = false) (hc : c ∈ type.toList) :
    isBlank c = false ∧ c ≠ '#' ∧ c ≠ '|' ∧ c ≠ '"' ∧ c ≠ '=' := by
  have := List.any_eq_false.mp h c hc
  simp only [needsQuotes, Bool.not_eq_true, Bool.or_eq_false_iff, decide_eq_false_iff_not] at this
  exact ⟨this.1.1.1.1, this.1.1.2, this.1.2, this.2, this.1.1.1.2⟩

theorem last_typeText (type : String) : ∀ c ∈ (typeText type).toList.getLast?, isBlank c = false := by
  rcases typeText_cases type with heq | ⟨heq, hbare⟩
  · rw [heq]
    exact last_of_ends (by decide)
  · rw [heq]
    exact fun c hc => (bare_ne hbare (List.mem_of_getLast? hc)).1

theorem simpleDefault_not_blank (h : isSimpleDefault value = true) (hc : c ∈ value.toList) :
    isBlank c = false := by
  simp only [isSimpleDefault, Bool.and_eq_true, List.all_eq_true] at h
  exact isBlank_eq_false (p := fun c => (isAlphanumeric c || "_.-+:'".toList.contains c) = true)
    (by decide +kernel) (h.2 c hc)

theorem last_defaultText (value : String) :
    ∀ c ∈ (defaultText value).toList.getLast?, isBlank c = false := by
  obtain ⟨cs, heq, -, ⟨rfl, hsimple⟩ | rfl⟩ := defaultText_cases value
  · intro c hc
    rw [heq] at hc
    rcases List.mem_cons.mp (List.mem_of_getLast? hc) with rfl | hc
    · decide
    · exact simpleDefault_not_blank hsimple hc
  · rw [heq]
    have hequals : ∀ c ∈ ['='].getLast?, isBlank c = false := by
      rintro c ⟨⟩
      rfl
    exact last_append hequals (last_of_ends (by decide))

theorem head_typeWord (hne : typeWord type value ≠ []) :
    ∃ c, (typeWord type value).head? = some c ∧ isBlank c = false ∧ c ≠ '#' ∧ c ≠ '|' := by
  obtain ⟨rest, hword, hrest, -⟩ := typeWord_eq type value
  rw [hword] at hne ⊢
  rcases typeText_cases type with heq | ⟨heq, hbare⟩
  · exact ⟨'"', by simp [heq], by decide⟩
  · rw [heq] at hne ⊢
    cases htype : type.toList with
    | cons c cs =>
      obtain ⟨hblank, hhash, hbar, -⟩ := bare_ne hbare (c := c) (by simp [htype])
      exact ⟨c, rfl, hblank, hhash, hbar⟩
    | nil =>
      rcases hrest with rfl | ⟨cs, rfl⟩
      · exact absurd (by rw [htype]; rfl) hne
      · exact ⟨'=', rfl, by decide⟩

theorem unbroken_typeWord (hne : typeWord type value ≠ [])
    (h : ContainedWord (String.ofList (typeWord type value))) : Unbroken (typeWord type value) where
  last := by
    refine last_append (last_typeText type) ?_
    cases value with
    | none => simp
    | some value => exact last_defaultText value
  passes := by simpa using h.passes
  feedFree := by simpa [FeedFree] using h.feedFree
  head := head_typeWord hne

/-- A type that stands without quotes holds together if its parentheses do. -/
theorem unbroken_typeText (h : SpellableType type) (hfeed : FeedFree type) :
    Unbroken (typeText type).toList := by
  rcases typeText_cases type with heq | ⟨heq, hbare⟩
  · rw [heq]
    exact unbroken_of_ends (by decide) (by decide) passes_quoted
      fun hmem => hfeed (mem_doubleQuotes.mp hmem)
  · obtain ⟨hclosed, hquotes, -⟩ := h.bare hbare
    have hpasses : Nesting.Passes (.at 0) (.at (Nesting.openParens type.toList)) type.toList :=
      passes_bare fun c hc => ⟨isSpacing_of_not_isBlank (bare_ne hbare hc).1,
        (bare_ne hbare hc).2.2.2.1, (hquotes c hc).2⟩
    rw [hclosed] at hpasses
    rw [heq]
    refine ⟨⟨fun c hc => (bare_ne hbare (List.mem_of_getLast? hc)).1, hpasses, hfeed⟩, ?_⟩
    obtain ⟨c, cs, hcs⟩ := List.exists_cons_of_ne_nil fun hnil =>
      h.ne_empty (String.toList_eq_nil_iff.mp hnil)
    obtain ⟨hblank, hhash, hbar, -⟩ := bare_ne hbare (c := c) (by simp [hcs])
    exact ⟨c, by simp [hcs], hblank, hhash, hbar⟩

theorem wordPart_defaultText (h : Tickable value) : WordPart (defaultText value).toList := by
  obtain ⟨cs, heq, -, ⟨rfl, hsimple⟩ | rfl⟩ := defaultText_cases value
  · rw [heq]
    refine wordPart_plain fun c hc => ?_
    rcases List.mem_cons.mp hc with rfl | hc
    · decide
    · refine ⟨simpleDefault_not_blank hsimple hc, fun hmem => ?_⟩
      have hnot : ∀ d ∈ ['"', '`', '(', ')'],
          (isAlphanumeric d || "_.-+:'".toList.contains d) = false := forall_chars (by decide)
      exact simpleDefault_ne hsimple hc (hnot c hmem) rfl
  · rw [heq]
    have hequals : WordPart ['='] := wordPart_plain (forall_chars (by decide))
    exact hequals.append (unbroken_ticked h).toWordPart

theorem wordPart_predicateText (h : ContainedWord (predicateText predicate)) :
    WordPart (predicateText predicate).toList where
  last := by
    intro c hc
    unfold predicateText at hc
    split at hc
    · cases hc
    · have htext : ("(`" ++ predicate ++ "`)").toList = '(' :: (('`' :: (predicate.toList ++ ['`'])) ++ [')']) := by
        simp
      rw [htext] at hc
      exact last_of_ends (by decide) c hc
  passes := h.passes
  feedFree := h.feedFree

/-- A predicate without ticks is read as one. -/
theorem contained_predicateText (h : Tickable predicate) : ContainedWord (predicateText predicate) := by
  unfold predicateText
  split
  · exact ⟨by simp [FeedFree], rfl⟩
  · have htext : "(`" ++ predicate ++ "`)" =
        String.ofList ('(' :: (('`' :: (predicate.toList ++ ['`'])) ++ [')'])) :=
      String.toList_injective (by simp)
    rw [htext]
    refine (unbroken_of_ends (by decide) (by decide) (passes_parens
      (passes_ticked h.tickFree)) fun hmem => ?_).contained
    have := h.feedFree
    simp_all [FeedFree]

-- ---------------------------------------------------------------------------
-- Modifiers
-- ---------------------------------------------------------------------------

theorem wordPart_assigned (h : ∀ name ∈ name?, FeedFree name) : WordPart (assigned name?).toList := by
  cases name? with
  | none => exact wordPart_nil
  | some name =>
    have heq : (assigned (some name)).toList = ['='] ++ (quote name).toList := by simp [assigned]
    rw [heq]
    exact (wordPart_plain (forall_chars (by decide))).append (unbroken_quote (h name rfl)).toWordPart

/-- A word of letters. -/
theorem unbroken_keyword (hne : cs ≠ []) (h : ∀ c ∈ cs, isPlainChar c = true) : Unbroken cs where
  toWordPart := wordPart_plain fun c hc =>
    ⟨isBlank_of_plain (h c hc), Nesting.not_mem_of_plain (h c hc)⟩
  head := by
    obtain ⟨c, cs, rfl⟩ := List.exists_cons_of_ne_nil hne
    have hc := h c List.mem_cons_self
    exact ⟨c, rfl, isBlank_of_plain hc, isPlainChar_ne hc (by decide), isPlainChar_ne hc (by decide)⟩

theorem unbroken_indexWord (h : ∀ name ∈ item.1, FeedFree name) : Unbroken (indexWord item).toList := by
  obtain ⟨name, unique⟩ := item
  have hname := wordPart_assigned h
  cases unique with
  | true =>
    rw [indexWord, String.toList_append]
    exact (unbroken_keyword (by decide) (forall_chars (by decide))).append hname
  | false =>
    rw [indexWord, String.toList_append]
    exact (unbroken_keyword (by decide) (forall_chars (by decide))).append hname

theorem unbroken_checkWord (hname : ∀ name ∈ item.1, FeedFree name)
    (h : ContainedWord (predicateText item.2)) : Unbroken (checkWord item).toList := by
  rw [checkWord, String.toList_append, String.toList_append]
  exact ((unbroken_keyword (by decide) (forall_chars (by decide))).append (wordPart_assigned hname)).append
    (wordPart_predicateText h)

theorem unbroken_operator (r : Relation) : Unbroken (operator r).toList := by
  have hall : ∀ text ∈ ["--", "<>", "->"], Unbroken text.toList := by
    intro text htext
    simp only [List.mem_cons, List.not_mem_nil, or_false] at htext
    rcases htext with rfl | rfl | rfl <;>
      exact ⟨wordPart_plain (forall_chars (by decide)), _, rfl, by decide⟩
  refine hall _ ?_
  unfold operator
  split <;> simp

theorem unbroken_modifierWords (he : ContainedEntity e) (hrelations : ∀ r ∈ relations, ContainedLink r.target)
    (hw : w ∈ modifierWords e relations path attr) : Unbroken w.toList := by
  simp only [modifierWords, plainWords, List.mem_append] at hw
  obtain (hw | hw | hw | hw | hw) | hw := hw
  · obtain ⟨key, hkey, rfl⟩ : ∃ key ∈ e.primaryKey, "pk" ++ assigned key.name = w := by
      cases hkey : e.primaryKey with
      | none => simp [keyWords, hkey] at hw
      | some key =>
        refine ⟨key, rfl, ?_⟩
        by_cases hmem : path ∈ key.attrs
        · simpa [keyWords, hkey, Option.filter, hmem, eq_comm] using hw
        · simp [keyWords, hkey, Option.filter, hmem] at hw
    rw [String.toList_append]
    exact (unbroken_keyword (by decide) (forall_chars (by decide))).append (wordPart_assigned (he.key key hkey))
  · split at hw
    · obtain rfl := List.mem_singleton.mp hw
      exact unbroken_keyword (by decide) (forall_chars (by decide))
    · cases hw
  · split at hw
    · obtain rfl := List.mem_singleton.mp hw
      exact unbroken_keyword (by decide) (forall_chars (by decide))
    · cases hw
  · obtain ⟨i, hi, rfl⟩ := List.mem_map.mp hw
    exact unbroken_indexWord (he.index i (List.mem_of_mem_filter hi))
  · obtain ⟨c, hc, rfl⟩ := List.mem_map.mp hw
    have hc := List.mem_of_mem_filter hc
    exact unbroken_checkWord (he.check c hc) (he.predicate c hc)
  · obtain ⟨r, hr, hw⟩ := List.mem_flatMap.mp hw
    simp only [List.mem_cons, List.not_mem_nil, or_false] at hw
    obtain rfl | rfl := hw
    · exact unbroken_operator r
    · exact unbroken_endpointText (hrelations r (List.mem_of_mem_filter hr))

end SchemaDialects.Markup
