import SchemaDialects.Name

/-!
# Names read back from their text

`splitSegments_render`: segments written with dots between them are read as the same segments, absent
ones as absent and empty ones as empty. Names of entities and types inherit the law. A written
segment is passed by a reader that looks for something outside quotes.
-/

namespace SchemaDialects

-- ---------------------------------------------------------------------------
-- Quoting
-- ---------------------------------------------------------------------------

/-- A name is written as it is, if it is a plain word, or in quotes. -/
theorem quote_cases (name : String) :
    ((quote name).toList = name.toList ∧ name.toList ≠ [] ∧ ∀ c ∈ name.toList, isPlainChar c = true) ∨
      (quote name).toList = '"' :: (doubleQuotes name.toList ++ ['"']) := by
  unfold quote
  split
  · rename_i h
    simp only [isPlain, Bool.and_eq_true, Bool.not_eq_true', List.all_eq_true] at h
    exact .inl ⟨rfl, by simpa [String.isEmpty_iff] using h.1, h.2⟩
  · exact .inr (by simp)

theorem isPlainChar_ne {c : Char} (h : isPlainChar c = true) (hd : isPlainChar d = false) : c ≠ d := by
  rintro rfl
  simp [h] at hd

theorem mem_doubleQuotes : c ∈ doubleQuotes cs ↔ c ∈ cs := by
  induction cs with
  | nil => rfl
  | cons d cs ih => by_cases h : d = '"' <;> simp [doubleQuotes, h, ih]

theorem mem_quote (h : c ∈ (quote name).toList) : c ∈ name.toList ∨ c = '"' := by
  rcases quote_cases name with ⟨heq, -⟩ | heq
  · exact .inl (heq ▸ h)
  · simpa [heq, mem_doubleQuotes, or_comm, or_assoc, or_left_comm] using h

-- ---------------------------------------------------------------------------
-- Segments
-- ---------------------------------------------------------------------------

theorem readSegments_plain (h : ∀ c ∈ cs, isPlainChar c = true) :
    readSegments .bare current (cs ++ rest) = readSegments .bare (cs.reverse ++ current) rest := by
  induction cs generalizing current with
  | nil => rfl
  | cons c cs ih =>
    have hc := h c List.mem_cons_self
    have hquote : c ≠ '"' := isPlainChar_ne hc (by decide)
    have hdot : c ≠ '.' := isPlainChar_ne hc (by decide)
    rw [List.cons_append, readSegments]
    · simp only [hquote, hdot, false_and, ↓reduceIte]
      rw [ih fun d hd => h d (List.mem_cons_of_mem _ hd)]
      simp
    · simp

theorem readSegments_doubled (cs current : List Char) (hrest : rest.head? ≠ some '"') :
    readSegments .inQuotes current (doubleQuotes cs ++ '"' :: rest) =
      readSegments .closed (cs.reverse ++ current) rest := by
  induction cs generalizing current with
  | nil =>
    rw [doubleQuotes, List.nil_append, readSegments]
    · rfl
    · rintro rest' rfl
      simp at hrest
  | cons c cs ih =>
    by_cases h : c = '"'
    · simp only [doubleQuotes, h, ↓reduceIte, List.cons_append, readSegments]
      rw [ih]
      simp
    · simp only [doubleQuotes, h, ↓reduceIte, List.cons_append]
      rw [readSegments, ih]
      · simp
      · exact fun hc => absurd hc h
      · exact fun _ hc => absurd hc h

/-- A written segment ends where the text ends or at a dot. -/
theorem readSegments_segment (segment : Option String) (rest : List Char) :
    readSegments .bare [] (renderSegment segment).toList = [segment] ∧
      readSegments .bare [] ((renderSegment segment).toList ++ '.' :: rest) =
        segment :: readSegments .bare [] rest := by
  cases segment with
  | none => simp [renderSegment, readSegments, SegmentState.finish]
  | some name =>
    rcases quote_cases name with ⟨heq, hne, hplain⟩ | heq
    · have hread : ∀ rest, readSegments .bare [] ((quote name).toList ++ rest) =
          readSegments .bare name.toList.reverse rest := fun rest => by
        rw [heq, readSegments_plain hplain, List.append_nil]
      constructor
      · have := hread []
        simpa [renderSegment, readSegments, SegmentState.finish, hne] using this
      · rw [renderSegment, hread]
        simp [readSegments, SegmentState.finish, hne]
    · have hread : ∀ rest : List Char, rest.head? ≠ some '"' →
          readSegments .bare [] ((quote name).toList ++ rest) =
            readSegments .closed name.toList.reverse rest := fun rest hrest => by
        rw [heq, List.cons_append, List.append_assoc, List.singleton_append, readSegments]
        · simpa using readSegments_doubled name.toList [] hrest
        · simp
      constructor
      · have := hread [] (by simp)
        simpa [renderSegment, readSegments, SegmentState.finish] using this
      · rw [renderSegment, hread _ (by simp)]
        simp [readSegments, SegmentState.finish]

theorem splitSegments_render (h : segments ≠ []) :
    splitSegments (renderSegments segments) = segments := by
  simp only [splitSegments, renderSegments, String.toList_intercalate]
  induction segments with
  | nil => exact absurd rfl h
  | cons segment rest ih =>
    cases rest with
    | nil => simpa using (readSegments_segment segment []).1
    | cons next rest =>
      have hdot : ".".toList = ['.'] := rfl
      simp only [List.map_cons, List.intercalate_cons_cons, hdot] at ih ⊢
      rw [List.append_assoc, List.singleton_append, (readSegments_segment segment _).2,
        ih (by simp)]

-- ---------------------------------------------------------------------------
-- Names
-- ---------------------------------------------------------------------------

namespace Namespace

theorem ofReversed_segments (n : Namespace) : ofReversed n.segments.reverse = n := by
  obtain ⟨database, catalog, schema⟩ := n
  cases database <;> cases catalog <;> cases schema <;> rfl

theorem parse_render (n : Namespace) : parse n.render = n := by
  by_cases h : n.segments = []
  · have := ofReversed_segments n
    rw [h] at this
    rw [← this]
    decide
  · rw [parse, render, splitSegments_render h, ofSegments, ofReversed_segments]

end Namespace

theorem splitNamed_render (space : Namespace) (name : String) :
    splitNamed (renderSegments (space.segments ++ [some name])) = (name, space) := by
  rw [splitNamed, splitSegments_render (by simp)]
  simp [Namespace.ofReversed_segments]

theorem EntityName.parse_render (e : EntityName) : parse e.render = e := by
  simp [parse, render, splitNamed_render]

theorem TypeName.parse_render (t : TypeName) : parse t.render = t := by
  simp [parse, render, splitNamed_render]

/-- Writing names loses nothing, whatever their segments hold. So a text that was read and written once
is in its final form. -/
theorem names_read_back :
    ((∀ n : Namespace, Namespace.parse n.render = n) ∧ (∀ e : EntityName, EntityName.parse e.render = e) ∧
      ∀ t : TypeName, TypeName.parse t.render = t) ∧
    ∀ s : String, (Namespace.parse (Namespace.parse s).render).render = (Namespace.parse s).render ∧
      (EntityName.parse (EntityName.parse s).render).render = (EntityName.parse s).render ∧
      (TypeName.parse (TypeName.parse s).render).render = (TypeName.parse s).render := by
  refine ⟨⟨Namespace.parse_render, EntityName.parse_render, TypeName.parse_render⟩, fun s => ⟨?_, ?_, ?_⟩⟩
  · rw [Namespace.parse_render]
  · rw [EntityName.parse_render]
  · rw [TypeName.parse_render]

-- ---------------------------------------------------------------------------
-- Splitting outside quotes
-- ---------------------------------------------------------------------------

/-- Puts a text in front of the first piece. -/
def inFront (cs : List Char) : List (List Char) → List (List Char)
  | [] => [cs]
  | piece :: pieces => (cs ++ piece) :: pieces

/-- A text that has no separator outside quotes and leaves no quote open. -/
def Unsplit (sep : Char) (cs : List Char) : Prop :=
  ∀ rest, splitUnquotedChars sep false (cs ++ rest) = inFront cs (splitUnquotedChars sep false rest)

theorem inFront_inFront : inFront as (inFront bs pieces) = inFront (as ++ bs) pieces := by
  cases pieces <;> simp [inFront]

theorem splitUnquotedChars_ne_nil : splitUnquotedChars sep inQuotes cs ≠ [] := by
  cases cs with
  | nil => simp [splitUnquotedChars]
  | cons c cs =>
    rw [splitUnquotedChars]
    split
    · simp
    · split <;> simp

theorem inFront_nil : inFront [] (splitUnquotedChars sep inQuotes cs) =
    splitUnquotedChars sep inQuotes cs := by
  cases h : splitUnquotedChars sep inQuotes cs with
  | nil => exact absurd h splitUnquotedChars_ne_nil
  | cons piece pieces => rfl

/-- A character that is no separator, or stands in quotes, belongs to the piece behind it. -/
theorem splitUnquotedChars_cons (h : c = '"' ∨ c ≠ sep ∨ inQuotes = true) :
    splitUnquotedChars sep inQuotes (c :: cs) =
      inFront [c] (splitUnquotedChars sep (if c = '"' then !inQuotes else inQuotes) cs) := by
  have hkeep : ¬ (c ≠ '"' ∧ c = sep ∧ !inQuotes) := by
    rintro ⟨hq, hs, hin⟩
    rcases h with h | h | h
    · exact hq h
    · exact h hs
    · simp [h] at hin
  rw [splitUnquotedChars, if_neg hkeep]
  cases splitUnquotedChars sep (if c = '"' then !inQuotes else inQuotes) cs <;> rfl

theorem Unsplit.append (ha : Unsplit sep as) (hb : Unsplit sep bs) : Unsplit sep (as ++ bs) := by
  intro rest
  rw [List.append_assoc, ha, hb, inFront_inFront]

theorem unsplit_of_forall (h : ∀ c ∈ cs, c ≠ '"' ∧ c ≠ sep) : Unsplit sep cs := by
  induction cs with
  | nil => exact fun rest => inFront_nil.symm
  | cons c cs ih =>
    intro rest
    obtain ⟨hquote, hsep⟩ := h c List.mem_cons_self
    rw [List.cons_append, splitUnquotedChars_cons (.inr (.inl hsep)), if_neg hquote,
      ih fun d hd => h d (List.mem_cons_of_mem _ hd), inFront_inFront]
    rfl

theorem splitUnquotedChars_doubled : splitUnquotedChars sep true (doubleQuotes cs ++ '"' :: rest) =
    inFront (doubleQuotes cs ++ ['"']) (splitUnquotedChars sep false rest) := by
  induction cs with
  | nil =>
    rw [doubleQuotes, List.nil_append, splitUnquotedChars_cons (.inl rfl)]
    rfl
  | cons c cs ih =>
    by_cases hc : c = '"'
    · rw [hc, doubleQuotes, if_pos rfl, List.cons_append, List.cons_append,
        splitUnquotedChars_cons (.inl rfl), splitUnquotedChars_cons (.inl rfl)]
      simp only [↓reduceIte, Bool.not_true, Bool.not_false]
      rw [ih, inFront_inFront, inFront_inFront]
      rfl
    · rw [doubleQuotes, if_neg hc, List.cons_append, splitUnquotedChars_cons (.inr (.inr rfl)),
        if_neg hc, ih, inFront_inFront]
      rfl

theorem unsplit_quote (h : isPlainChar sep = false) (name : String) :
    Unsplit sep (quote name).toList := by
  rcases quote_cases name with ⟨heq, -, hplain⟩ | heq
  · rw [heq]
    exact unsplit_of_forall fun c hc =>
      ⟨isPlainChar_ne (hplain c hc) (by decide), isPlainChar_ne (hplain c hc) h⟩
  · intro rest
    rw [heq, List.cons_append, List.append_assoc, splitUnquotedChars_cons (.inl rfl)]
    simp only [↓reduceIte, Bool.not_false, List.singleton_append]
    rw [splitUnquotedChars_doubled, inFront_inFront]
    rfl

theorem unsplit_quotes (h : isPlainChar sep = false) (names : List String) :
    ∀ piece ∈ names.map fun name => (quote name).toList, Unsplit sep piece :=
  List.forall_mem_map.mpr fun name _ => unsplit_quote h name

theorem splitUnquotedChars_intercalate (hne : pieces ≠ []) (hsep : sep ≠ '"')
    (h : ∀ piece ∈ pieces, Unsplit sep piece) :
    splitUnquotedChars sep false ([sep].intercalate pieces) = pieces := by
  induction pieces with
  | nil => exact absurd rfl hne
  | cons piece rest ih =>
    have hpiece := h piece List.mem_cons_self
    cases rest with
    | nil => simpa [splitUnquotedChars, inFront] using hpiece []
    | cons next rest =>
      rw [List.intercalate_cons_cons, List.append_assoc, hpiece, List.singleton_append,
        splitUnquotedChars, if_pos (by simp [hsep]),
        ih (by simp) fun q hq => h q (List.mem_cons_of_mem _ hq)]
      simp [inFront]

/-- A list with a space behind every separator is a list in which all items but the first begin with a space. -/
theorem intercalate_space {sep : Char} : [sep, ' '].intercalate (item :: items) =
    [sep].intercalate (item :: items.map (' ' :: ·)) := by
  induction items generalizing item with
  | nil => simp
  | cons next items ih =>
    rw [List.intercalate_cons_cons, ih, List.map_cons, List.intercalate_cons_cons,
      List.append_assoc, List.append_assoc]
    congr 1
    cases items <;> simp [List.intercalate_cons_cons]

theorem splitUnquotedChars_intercalate_space (hsep : sep ≠ '"') (hspace : sep ≠ ' ')
    (h : ∀ piece ∈ item :: items, Unsplit sep piece) :
    splitUnquotedChars sep false ([sep, ' '].intercalate (item :: items)) = item :: items.map (' ' :: ·) := by
  obtain ⟨hitem, hitems⟩ := List.forall_mem_cons.mp h
  have hblank : Unsplit sep [' '] := unsplit_of_forall (List.forall_mem_singleton.mpr ⟨by decide, hspace.symm⟩)
  rw [intercalate_space]
  refine splitUnquotedChars_intercalate (List.cons_ne_nil _ _) hsep (List.forall_mem_cons.mpr ⟨hitem, ?_⟩)
  exact List.forall_mem_map.mpr fun i hi => hblank.append (hitems i hi)

theorem Unsplit.intercalate (h : ∀ piece ∈ pieces, Unsplit sep piece) (hjoin : Unsplit sep join) :
    Unsplit sep (join.intercalate pieces) := by
  induction pieces with
  | nil => exact fun rest => inFront_nil.symm
  | cons piece rest ih =>
    have hpiece := h piece List.mem_cons_self
    cases rest with
    | nil => simpa using hpiece
    | cons next rest =>
      rw [List.intercalate_cons_cons]
      exact (hpiece.append hjoin).append (ih fun q hq => h q (List.mem_cons_of_mem _ hq))

end SchemaDialects
