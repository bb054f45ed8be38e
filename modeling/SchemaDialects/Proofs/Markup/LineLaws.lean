import Mathlib.Data.List.Forall2
import SchemaDialects.Markup.Line
import SchemaDialects.Proofs.NameLaws
import SchemaDialects.Proofs.TextLaws

/-!
# Lines read back

A line that is made of words, a note and a comment, with a blank between them, is read as these
(`readLine_chars`). A word holds together if every blank in it stands in quotes or parentheses and
nothing stays open at its end: `Nesting.Passes` says this for a part of a word, so that the words of
the writer are put together from parts. Positions are left open throughout.
-/

namespace SchemaDialects.Markup

open Text

-- ---------------------------------------------------------------------------
-- Parts of words
-- ---------------------------------------------------------------------------

/-- Behind `s` all of `cs` still belongs to the word, and it leads to `s'`. -/
def Nesting.Passes (s s' : Nesting) (cs : List Char) : Prop :=
  ∀ rest, wordLength s (cs ++ rest) =
    (cs.length + (wordLength s' rest).1, (wordLength s' rest).2)

/-- Parentheses are open this deep, and no quote is. -/
abbrev Nesting.at (depth : Nat) : Nesting := { depth }

namespace Nesting

theorem passes_nil : Passes s s [] := by
  intro rest
  simp

theorem passes_of_wordLength (h : wordLength s cs = (cs.length, s')) : Passes s s' cs := by
  induction cs generalizing s with
  | nil =>
    obtain rfl : s = s' := congrArg Prod.snd h
    exact passes_nil
  | cons c cs ih =>
    intro rest
    rw [wordLength] at h
    split at h
    · cases congrArg Prod.fst h
    · rename_i hgo
      obtain ⟨hlength, hfinal⟩ := Prod.mk.inj h
      have htail : wordLength (s.step c) cs = (cs.length, s') :=
        Prod.ext (Nat.succ.inj hlength) hfinal
      rw [List.cons_append, wordLength, if_neg hgo, ih htail rest]
      simp only [List.length_cons, Prod.mk.injEq, and_true]
      omega

theorem Passes.append (ha : Passes s s' as) (hb : Passes s' s'' bs) : Passes s s'' (as ++ bs) := by
  intro rest
  rw [List.append_assoc, ha, hb, List.length_append, Nat.add_assoc]

theorem Passes.cons (hc : s.isFlat = false ∨ isSpacing c = false) (h : Passes (s.step c) s' cs) :
    Passes s s' (c :: cs) := by
  intro rest
  have hgo : ¬ (s.isFlat ∧ isSpacing c) := by
    rcases hc with hc | hc <;> simp [hc]
  rw [List.cons_append, wordLength, if_neg hgo, h rest, List.length_cons]
  simp only [Prod.mk.injEq, and_true]
  omega

theorem step_inside {q : Char} (h : c ≠ q) : step ⟨d, some q⟩ c = ⟨d, some q⟩ := if_neg h

theorem passes_inside {q : Char} (h : q ∉ cs) : Passes ⟨d, some q⟩ ⟨d, some q⟩ cs := by
  induction cs with
  | nil => exact passes_nil
  | cons c cs ih =>
    have hc : c ≠ q := fun heq => h (heq ▸ List.mem_cons_self)
    refine .cons (.inl rfl) ?_
    rw [step_inside hc]
    exact ih fun hmem => h (List.mem_cons_of_mem _ hmem)

theorem passes_ticked (h : '`' ∉ cs) : Passes (.at d) (.at d) ('`' :: (cs ++ ['`'])) :=
  .cons (.inr rfl) ((passes_inside h).append (.cons (.inl rfl) passes_nil))

/-- A doubled quote closes a quote and opens the next. -/
theorem passes_doubleQuotes : Passes ⟨d, some '"'⟩ ⟨d, some '"'⟩ (doubleQuotes cs) := by
  induction cs with
  | nil => exact passes_nil
  | cons c cs ih =>
    by_cases hc : c = '"'
    · rw [hc, doubleQuotes, if_pos rfl]
      exact .cons (.inl rfl) (.cons (.inr rfl) ih)
    · rw [doubleQuotes, if_neg hc]
      refine .cons (.inl rfl) ?_
      rw [step_inside hc]
      exact ih

theorem passes_quoted : Passes (.at d) (.at d) ('"' :: (doubleQuotes cs ++ ['"'])) :=
  .cons (.inr rfl) (passes_doubleQuotes.append (.cons (.inl rfl) passes_nil))

/-- The parentheses that a text leaves open; one that closes nothing does not count. -/
def openParens (cs : List Char) (depth : Nat := 0) : Nat :=
  cs.foldl (fun depth c => if c = '(' then depth + 1 else if c = ')' then depth - 1 else depth) depth

theorem passes_bare (h : ∀ c ∈ cs, isSpacing c = false ∧ c ≠ '"' ∧ c ≠ '`') :
    Passes (.at d) (.at (openParens cs d)) cs := by
  induction cs generalizing d with
  | nil => exact passes_nil
  | cons c cs ih =>
    obtain ⟨hspace, hquote, htick⟩ := h c List.mem_cons_self
    have ih := fun d => ih (d := d) fun e he => h e (List.mem_cons_of_mem _ he)
    refine .cons (.inr hspace) ?_
    have hstep : step (.at d) c =
        .at (if c = '(' then d + 1 else if c = ')' then d - 1 else d) := by
      simp only [step, hquote, htick, or_self, ↓reduceIte]
      split
      · rfl
      · split <;> rfl
    rw [hstep, openParens, List.foldl_cons]
    exact ih _

theorem openParens_eq (h : ∀ c ∈ cs, c ≠ '(' ∧ c ≠ ')') : openParens cs d = d := by
  induction cs generalizing d with
  | nil => rfl
  | cons c cs ih =>
    obtain ⟨hopen, hclose⟩ := h c List.mem_cons_self
    rw [openParens, List.foldl_cons, if_neg hopen, if_neg hclose]
    exact ih fun e he => h e (List.mem_cons_of_mem _ he)

theorem passes_plain (h : ∀ c ∈ cs, isSpacing c = false ∧ c ∉ ['"', '`', '(', ')']) :
    Passes (.at d) (.at d) cs := by
  have hbare := passes_bare (d := d) fun c hc => ⟨(h c hc).1, fun heq => (h c hc).2 (by simp [heq]),
    fun heq => (h c hc).2 (by simp [heq])⟩
  rwa [openParens_eq fun c hc => ⟨fun heq => (h c hc).2 (by simp [heq]),
    fun heq => (h c hc).2 (by simp [heq])⟩] at hbare

theorem passes_parens (h : Passes (.at (d + 1)) (.at (d + 1)) cs) :
    Passes (.at d) (.at d) ('(' :: (cs ++ [')'])) :=
  .cons (.inr rfl) (h.append (.cons (.inr rfl) passes_nil))

theorem passes_intercalate (h : ∀ item ∈ items, Passes s s item) (hjoin : Passes s s join) :
    Passes s s (join.intercalate items) := by
  induction items with
  | nil => exact passes_nil
  | cons item rest ih =>
    have hitem := h item List.mem_cons_self
    cases rest with
    | nil => simpa using hitem
    | cons next rest =>
      rw [List.intercalate_cons_cons]
      exact (hitem.append hjoin).append (ih fun i hi => h i (List.mem_cons_of_mem _ hi))

theorem not_mem_of_plain (h : isPlainChar c = true) : c ∉ ['"', '`', '(', ')'] := by
  have hmarks : ∀ d ∈ ['"', '`', '(', ')'], isPlainChar d = false := forall_chars (by decide)
  exact fun hmem => isPlainChar_ne h (hmarks c hmem) rfl

theorem passes_quote (name : String) : Passes (.at d) (.at d) (SchemaDialects.quote name).toList := by
  rcases quote_cases name with ⟨heq, -, hplain⟩ | heq
  · rw [heq]
    refine passes_plain fun c hc => ⟨?_, fun hmem => ?_⟩
    · have hne := fun {b} hb => isPlainChar_ne (d := b) (hplain c hc) hb
      simp [isSpacing, hne (b := ' ') (by decide), hne (b := '\t') (by decide)]
    · exact not_mem_of_plain (hplain c hc) hmem
  · rw [heq]
    exact passes_quoted

end Nesting

-- ---------------------------------------------------------------------------
-- Words
-- ---------------------------------------------------------------------------

theorem isBlank_of_plain (h : isPlainChar c = true) : isBlank c = false :=
  isBlank_eq_false (p := fun c => isPlainChar c = true) (by decide) h

theorem isSpacing_of_not_isBlank (h : isBlank c = false) : isSpacing c = false := by
  cases hs : isSpacing c with
  | false => rfl
  | true =>
    have : c = ' ' ∨ c = '\t' := by simpa [isSpacing] using hs
    rcases this with rfl | rfl <;> cases h

/-- The text is there, and neither of its ends is a blank. -/
structure Solid (cs : List Char) : Prop where
  ne_nil : cs ≠ []
  head : ∀ c ∈ cs.head?, isBlank c = false
  last : ∀ c ∈ cs.getLast?, isBlank c = false

theorem Solid.strip (h : Solid cs) : stripWhile isBlank cs = cs :=
  stripWhile_of_ends h.head h.last

theorem Solid.append (ha : Solid as) (hb : Solid bs) : Solid (as ++ mid ++ bs) where
  ne_nil := by simp [ha.ne_nil]
  head := by
    obtain ⟨a, as, rfl⟩ := List.exists_cons_of_ne_nil ha.ne_nil
    exact ha.head
  last := by
    have h := hb.last
    rw [List.getLast?_append, List.getLast?_eq_some_getLast hb.ne_nil] at *
    exact h

theorem solid_intercalate {join : List Char} (hne : items ≠ []) (h : ∀ item ∈ items, Solid item) :
    Solid (join.intercalate items) := by
  induction items with
  | nil => exact absurd rfl hne
  | cons item rest ih =>
    have hitem := h item List.mem_cons_self
    cases rest with
    | nil => simpa using hitem
    | cons next rest =>
      rw [List.intercalate_cons_cons]
      exact hitem.append (ih (by simp) fun i hi => h i (List.mem_cons_of_mem _ hi))

theorem solid_quote (name : String) : Solid (quote name).toList := by
  rcases quote_cases name with ⟨heq, hne, hplain⟩ | heq
  · rw [heq]
    exact ⟨hne, fun c hc => isBlank_of_plain (hplain c (List.mem_of_head? hc)),
      fun c hc => isBlank_of_plain (hplain c (List.mem_of_getLast? hc))⟩
  · rw [heq]
    refine ⟨by simp, fun c hc => ?_, fun c hc => ?_⟩
    · obtain rfl : '"' = c := by simpa using hc
      decide
    · rw [List.getLast?_cons, List.getLast?_append] at hc
      obtain rfl : '"' = c := by simpa using hc
      decide

/-- What can stand inside a word, or at its end. -/
structure WordPart (cs : List Char) : Prop where
  last : ∀ c ∈ cs.getLast?, isBlank c = false
  passes : Nesting.Passes {} {} cs
  feedFree : '\n' ∉ cs

/-- The text can be one word: every blank in it stands in quotes or parentheses, and nothing is left
open at its end. -/
def OneWord (text : String) : Prop := wordLength {} text.toList = (text.toList.length, {})

instance (text : String) : Decidable (OneWord text) := inferInstanceAs (Decidable (_ = _))

/-- A text that is read as one word: it begins with no mark and holds together. -/
structure Unbroken (w : List Char) : Prop extends WordPart w where
  head : ∃ c, w.head? = some c ∧ isBlank c = false ∧ c ≠ '#' ∧ c ≠ '|'

theorem Unbroken.solid (h : Unbroken w) : Solid w where
  ne_nil := by
    obtain ⟨c, hc, -⟩ := h.head
    rintro rfl
    cases hc
  head := by
    obtain ⟨c, hc, hblank, -⟩ := h.head
    rw [hc]
    rintro d ⟨⟩
    exact hblank
  last := h.last

theorem last_append {as bs : List Char} {P : Char → Prop} (ha : ∀ c ∈ as.getLast?, P c)
    (hb : ∀ c ∈ bs.getLast?, P c) : ∀ c ∈ (as ++ bs).getLast?, P c := by
  intro c hc
  rw [List.getLast?_append] at hc
  cases hlast : bs.getLast? with
  | none => exact ha c (by simpa [hlast] using hc)
  | some d => exact hb c (by simpa [hlast] using hc)

theorem wordPart_nil : WordPart [] := ⟨by simp, Nesting.passes_nil, by simp⟩

theorem WordPart.append (ha : WordPart as) (hb : WordPart bs) : WordPart (as ++ bs) where
  last := last_append ha.last hb.last
  passes := ha.passes.append hb.passes
  feedFree := by
    rw [List.mem_append]
    exact fun h => h.elim ha.feedFree hb.feedFree

theorem Unbroken.ne_empty {w : String} (h : Unbroken w.toList) : w ≠ "" :=
  fun hempty => h.solid.ne_nil (by rw [hempty]; rfl)

theorem WordPart.flatMap {as : List α} {f : α → List Char} (h : ∀ a ∈ as, WordPart (f a)) :
    WordPart (as.flatMap f) := by
  induction as with
  | nil => exact wordPart_nil
  | cons a as ih =>
    rw [List.flatMap_cons]
    exact (h a List.mem_cons_self).append (ih fun b hb => h b (List.mem_cons_of_mem _ hb))

theorem Unbroken.append (ha : Unbroken as) (hb : WordPart bs) : Unbroken (as ++ bs) where
  toWordPart := ha.toWordPart.append hb
  head := by
    obtain ⟨c, hc, h⟩ := ha.head
    exact ⟨c, by simp [hc], h⟩

/-- A text without quotes and parentheses. -/
theorem wordPart_plain (h : ∀ c ∈ cs, isBlank c = false ∧ c ∉ ['"', '`', '(', ')']) :
    WordPart cs where
  last c hc := (h c (List.mem_of_getLast? hc)).1
  passes := Nesting.passes_plain fun c hc => ⟨isSpacing_of_not_isBlank (h c hc).1, (h c hc).2⟩
  feedFree hmem := absurd (h _ hmem).1 (by decide)

theorem unbroken_quote (h : '\n' ∉ name.toList) : Unbroken (quote name).toList where
  last := (solid_quote name).last
  passes := Nesting.passes_quote name
  feedFree hmem := (mem_quote hmem).elim h (by decide)
  head := by
    rcases quote_cases name with ⟨heq, hne, hplain⟩ | heq
    · obtain ⟨c, cs, hcs⟩ := List.exists_cons_of_ne_nil hne
      have hc := hplain c (by simp [hcs])
      exact ⟨c, by simp [heq, hcs], isBlank_of_plain hc, isPlainChar_ne hc (by decide),
        isPlainChar_ne hc (by decide)⟩
    · exact ⟨'"', by simp [heq], by decide⟩

/-- Where a word can end. -/
def WordEnd (rest : List Char) : Prop := rest = [] ∨ ∃ cs, rest = ' ' :: cs

theorem tiles_word (h : Unbroken w) (hrest : WordEnd rest) :
    tiles cut (w ++ rest) = (.word {}, w) :: tiles cut rest := by
  obtain ⟨c, hc, hblank, hhash, hbar⟩ := h.head
  obtain ⟨cs, rfl⟩ : ∃ cs, w = c :: cs := by
    cases w <;> simp_all
  have hspace : isSpacing c = false := isSpacing_of_not_isBlank hblank
  have hend : wordLength {} rest = (0, {}) := by
    rcases hrest with rfl | ⟨cs, rfl⟩
    · rfl
    · exact if_pos ⟨rfl, rfl⟩
  have hlength : wordLength (Nesting.step {} c) (cs ++ rest) = (cs.length, {}) := by
    have := h.passes rest
    rw [hend, List.cons_append, wordLength, if_neg (by simp [hspace])] at this
    simpa [Prod.ext_iff] using this
  have hcut : cut c (cs ++ rest) = (.word {}, cs.length) := by
    simp [cut, hspace, hhash, hbar, hlength]
  rw [List.cons_append, tiles]
  simp [hcut]

-- ---------------------------------------------------------------------------
-- Notes
-- ---------------------------------------------------------------------------

/-- Every hash has a character before it that is no blank. -/
def HashesInside (cs : List Char) : Prop :=
  ∀ before after, cs = before ++ '#' :: after → ∃ c ∈ before.getLast?, isBlank c = false

theorem HashesInside.before (h : HashesInside cs) : ∀ before after, cs = before ++ '#' :: after →
    isBlank (before.getLast?.getD ' ') = false := by
  intro before after heq
  obtain ⟨c, hc, hblank⟩ := h before after heq
  rw [Option.mem_def.mp hc]
  exact hblank

theorem noteLength_append (h : ∀ before after, cs = before ++ '#' :: after →
      isBlank (before.getLast?.getD previous) = false) (rest : List Char) :
    noteLength previous (cs ++ rest) =
      cs.length + noteLength (cs.getLast?.getD previous) rest := by
  induction cs generalizing previous with
  | nil => simp
  | cons c cs ih =>
    have hgo : ¬ (c = '#' ∧ isBlank previous) := by
      rintro ⟨rfl, hblank⟩
      simpa [hblank] using h [] cs rfl
    rw [List.cons_append, noteLength, if_neg hgo, ih]
    · simp only [List.length_cons, List.getLast?_cons, Option.getD_some]
      omega
    · rintro before after rfl
      simpa [List.getLast?_cons] using h (c :: before) after rfl

theorem hashes_of_noteLength (h : noteLength previous cs = cs.length) :
    ∀ before after, cs = before ++ '#' :: after →
      isBlank (before.getLast?.getD previous) = false := by
  induction cs generalizing previous with
  | nil => simp
  | cons c cs ih =>
    rw [noteLength] at h
    split at h
    · cases h
    · rename_i hgo
      rintro (_ | ⟨b, before⟩) after heq
      · obtain ⟨rfl, rfl⟩ := List.cons.inj heq
        simpa using hgo
      · obtain ⟨rfl, rfl⟩ := List.cons.inj heq
        simpa [List.getLast?_cons] using ih (by simpa using h) before after rfl

/-- A note reaches to the end of its line just if its hashes are inside. -/
theorem hashesInside_iff : HashesInside cs ↔ noteLength ' ' cs = cs.length := by
  constructor
  · intro h
    have hlength := noteLength_append h.before []
    simpa [noteLength] using hlength
  · intro h before after heq
    have hblank := hashes_of_noteLength h before after heq
    cases hlast : before.getLast? with
    | none => rw [hlast] at hblank; cases hblank
    | some c => exact ⟨c, rfl, by rwa [hlast] at hblank⟩

-- ---------------------------------------------------------------------------
-- Pieces of a line
-- ---------------------------------------------------------------------------

/-- Wherever `cs` stands, it is read as these words, this note and this comment, without a problem. -/
structure Reads (cs : List Char) (words : List String) (note comment : Option String) : Prop where
  words : ∀ place, (assemble place (tiles cut cs)).1.words.map (·.text) = words
  note : ∀ place, (assemble place (tiles cut cs)).1.note.map (·.text) = note
  comment : ∀ place, (assemble place (tiles cut cs)).1.comment.map (·.text) = comment
  clean : ∀ place, (assemble place (tiles cut cs)).2 = []

theorem reads_nil : Reads [] [] none none := by
  constructor <;> intro place <;> rw [tiles_nil] <;> rfl

theorem Reads.space (h : Reads cs ws n m) : Reads (' ' :: cs) ws n m := by
  have htiles : tiles cut (' ' :: cs) = (.spacing, [' ']) :: tiles cut cs := by
    rw [tiles]
    rfl
  constructor <;> intro place <;> rw [htiles, assemble]
  · exact h.words _
  · exact h.note _
  · exact h.comment _
  · exact h.clean _

theorem Reads.word (hw : Unbroken w.toList) (hend : WordEnd cs) (h : Reads cs ws n m) :
    Reads (w.toList ++ cs) (w :: ws) n m := by
  have htiles := tiles_word hw hend
  constructor <;> intro place <;> rw [htiles, assemble]
  · simp [h.words, Word.between]
  · exact h.note _
  · exact h.comment _
  · simp [h.clean, wordProblems]

theorem stripWhile_of_trim (h : trim text = text) : stripWhile isBlank text.toList = text.toList := by
  have := congrArg String.toList h
  simpa [trim] using this

/-- What is left of a note or a comment behind its mark. -/
def stripped (cs : List Char) : String := String.ofList (stripWhile isBlank cs)

theorem stripped_eq (h : trim text = text) (hblank : ∀ c ∈ blank, isBlank c = true) :
    stripped (' ' :: (text.toList ++ blank)) = text := by
  rw [stripped, stripWhile_cons (by decide), stripWhile_append hblank, stripWhile_of_trim h,
    String.ofList_toList]

theorem reads_hash (cs : List Char) : Reads ('#' :: cs) [] none (some (stripped cs)) := by
  have htiles : tiles cut ('#' :: cs) = [(.comment, '#' :: cs)] := by
    rw [tiles]
    simp [cut, isSpacing, tiles]
  constructor <;> intro place <;> rw [htiles, assemble] <;> simp [assemble, Word.trimmed,
    Word.between, stripped]

theorem reads_comment (h : trim text = text) :
    Reads ('#' :: ' ' :: text.toList) [] none (some text) := by
  have htext : stripped (' ' :: text.toList) = text := by
    have := stripped_eq h (List.forall_mem_nil (isBlank · = true))
    rwa [List.append_nil] at this
  simpa only [htext] using reads_hash (' ' :: text.toList)

theorem reads_bar (hlength : noteLength '|' (content ++ cs) = content.length)
    (hcs : Reads cs [] none comment) :
    Reads ('|' :: (content ++ cs)) [] (some (stripped content)) comment := by
  have htiles : tiles cut ('|' :: (content ++ cs)) = (.note, '|' :: content) :: tiles cut cs := by
    have hcut : cut '|' (content ++ cs) = (.note, content.length) := by
      rw [cut, if_neg (by decide), if_neg (by decide), if_pos rfl, hlength]
    rw [tiles, hcut]
    simp only [List.take_left, List.drop_left]
  constructor <;> intro place <;> rw [htiles, assemble]
  · exact hcs.words _
  · simp [Word.trimmed, Word.between, stripped]
  · exact hcs.comment _
  · exact hcs.clean _

/-- A note ends with the line, or at the hash behind the blank that follows it. -/
theorem reads_note (h : trim text = text) (hhash : HashesInside text.toList)
    (hend : blank = [] ∧ cs = [] ∨ blank = [' '] ∧ cs.head? = some '#')
    (hcs : Reads cs [] none comment) :
    Reads ('|' :: ' ' :: (text.toList ++ blank) ++ cs) [] (some text) comment := by
  have hlength : noteLength '|' (' ' :: (text.toList ++ blank) ++ cs) =
      (' ' :: (text.toList ++ blank)).length := by
    rw [List.cons_append, noteLength, if_neg (by simp), List.append_assoc,
      noteLength_append hhash.before]
    rcases hend with ⟨rfl, rfl⟩ | ⟨rfl, hhead⟩
    · simp [noteLength]
    · obtain ⟨tail, rfl⟩ : ∃ tail, cs = '#' :: tail := by
        cases cs <;> simp_all
      simp [noteLength, isBlank]
  have hblank : ∀ c ∈ blank, isBlank c = true := by
    rcases hend with ⟨rfl, -⟩ | ⟨rfl, -⟩ <;> exact forall_chars (by decide)
  have hbar := reads_bar hlength hcs
  rw [stripped_eq h hblank] at hbar
  simpa using hbar

theorem noteLength_le : noteLength previous cs ≤ cs.length := by
  induction cs generalizing previous with
  | nil => exact Nat.le_refl 0
  | cons c cs ih =>
    rw [noteLength]
    split
    · exact Nat.zero_le _
    · exact Nat.succ_le_succ ih

/-- A note ends before a hash. -/
theorem drop_noteLength (previous : Char) (cs : List Char) : cs.drop (noteLength previous cs) = [] ∨
    ∃ rest, cs.drop (noteLength previous cs) = '#' :: rest := by
  induction cs generalizing previous with
  | nil => exact .inl rfl
  | cons c cs ih =>
    rw [noteLength]
    split
    · rename_i h
      exact .inr ⟨cs, by rw [List.drop_zero, h.1]⟩
    · exact ih c

/-- What stands behind the words of a line: nothing, or a note or comment with its mark. -/
def Ending (cs : List Char) : Prop :=
  cs = [] ∨ ∃ mark ∈ ['|', '#'], ∃ rest, cs = ' ' :: mark :: rest

theorem Ending.wordEnd (h : Ending cs) : WordEnd cs := by
  rcases h with rfl | ⟨mark, -, rest, rfl⟩
  · exact .inl rfl
  · exact .inr ⟨_, rfl⟩

/-- Whatever is in a note or a comment, it does not become a word. -/
theorem Ending.reads (h : Ending cs) : ∃ note comment, Reads cs [] note comment := by
  rcases h with rfl | ⟨mark, hmark, rest, rfl⟩
  · exact ⟨none, none, reads_nil⟩
  · obtain rfl | rfl : mark = '|' ∨ mark = '#' := by simpa using hmark
    · obtain ⟨comment, hcomment⟩ : ∃ comment, Reads (rest.drop (noteLength '|' rest)) [] none comment := by
        rcases drop_noteLength '|' rest with hnil | ⟨more, hmore⟩
        · exact ⟨none, hnil ▸ reads_nil⟩
        · exact ⟨_, hmore ▸ reads_hash more⟩
      have hlength : noteLength '|' (rest.take (noteLength '|' rest) ++ rest.drop (noteLength '|' rest)) =
          (rest.take (noteLength '|' rest)).length := by
        rw [List.take_append_drop, List.length_take, Nat.min_eq_left noteLength_le]
      have hbar := reads_bar hlength hcomment
      rw [List.take_append_drop] at hbar
      exact ⟨_, _, hbar.space⟩
    · exact ⟨none, _, (reads_hash rest).space⟩

-- ---------------------------------------------------------------------------
-- Lines
-- ---------------------------------------------------------------------------

/-- What stands on a line. -/
structure Sentence where
  indent : Nat := 0
  words : List String := []
  note : Option String := none
  comment : Option String := none

namespace Sentence

def empty : Sentence := {}

def trailerChars (note comment : Option String) : List Char :=
  (note.elim [] fun text => ' ' :: '|' :: ' ' :: text.toList) ++
    comment.elim [] fun text => ' ' :: '#' :: ' ' :: text.toList

/-- The line without its line feed. -/
def chars (t : Sentence) : List Char :=
  List.replicate t.indent ' ' ++ ([' '].intercalate (t.words.map String.toList) ++
    trailerChars t.note t.comment)

/-- The words are words, the note is a note and the comment a comment, and there is something on the
line, unless it is empty. -/
structure Readable (t : Sentence) : Prop where
  words : ∀ w ∈ t.words, Unbroken w.toList
  note : ∀ text ∈ t.note, trim text = text ∧ HashesInside text.toList ∧ '\n' ∉ text.toList
  comment : ∀ text ∈ t.comment, trim text = text ∧ '\n' ∉ text.toList
  start : t.words = [] → t.chars = []

theorem feedFree_chars {t : Sentence} (hwords : ∀ w ∈ t.words, '\n' ∉ w.toList)
    (hnote : ∀ text ∈ t.note, '\n' ∉ text.toList) (hcomment : ∀ text ∈ t.comment, '\n' ∉ text.toList) :
    '\n' ∉ t.chars := by
  intro hmem
  rw [chars, trailerChars, List.mem_append, List.mem_append, List.mem_append] at hmem
  rcases hmem with hmem | hmem | hmem | hmem
  · exact absurd (List.eq_of_mem_replicate hmem) (by decide)
  · rcases mem_intercalate hmem with hmem | ⟨cs, hcs, hmem⟩
    · exact absurd hmem (by decide)
    · obtain ⟨w, hw, rfl⟩ := List.mem_map.mp hcs
      exact hwords w hw hmem
  · cases htext : t.note with
    | none => simp [htext] at hmem
    | some text =>
      have := hnote text htext
      simp [htext, this] at hmem
  · cases htext : t.comment with
    | none => simp [htext] at hmem
    | some text =>
      have := hcomment text htext
      simp [htext, this] at hmem

theorem Readable.feedFree {t : Sentence} (h : t.Readable) : '\n' ∉ t.chars :=
  feedFree_chars (fun w hw => (h.words w hw).feedFree) (fun text htext => (h.note text htext).2.2)
    fun text htext => (h.comment text htext).2

end Sentence

/-- What the line says, wherever it stands. -/
structure Line.Says (l : Line) (t : Sentence) : Prop where
  indent : l.indent = t.indent
  words : l.words.map (·.text) = t.words
  note : l.note.map (·.text) = t.note
  comment : l.comment.map (·.text) = t.comment

open Sentence (trailerChars)

theorem trailerChars_wordEnd : WordEnd (trailerChars note comment) := by
  cases note with
  | some text => exact .inr ⟨_, rfl⟩
  | none =>
    cases comment with
    | some text => exact .inr ⟨_, rfl⟩
    | none => exact .inl rfl

theorem reads_trailer
    (hnote : ∀ text ∈ note, trim text = text ∧ HashesInside text.toList ∧ '\n' ∉ text.toList)
    (hcomment : ∀ text ∈ comment, trim text = text ∧ '\n' ∉ text.toList) :
    Reads (trailerChars note comment) [] note comment := by
  cases note with
  | none =>
    cases comment with
    | none => exact reads_nil
    | some text => exact (reads_comment (hcomment text rfl).1).space
  | some text =>
    obtain ⟨htrim, hhash, -⟩ := hnote text rfl
    cases comment with
    | none => simpa [trailerChars] using (reads_note htrim hhash (.inl ⟨rfl, rfl⟩) reads_nil).space
    | some comment =>
      have := (reads_note htrim hhash (.inr ⟨rfl, rfl⟩) (reads_comment (hcomment comment rfl).1)).space
      simpa [trailerChars] using this

theorem reads_words (h : ∀ w ∈ words, Unbroken w.toList) (hend : WordEnd cs)
    (hcs : Reads cs [] note comment) :
    Reads ([' '].intercalate (words.map String.toList) ++ cs) words note comment := by
  induction words with
  | nil => exact hcs
  | cons w words ih =>
    have hw := h w List.mem_cons_self
    have ih := ih fun v hv => h v (List.mem_cons_of_mem _ hv)
    cases words with
    | nil => simpa using hcs.word hw hend
    | cons next words =>
      have := ih.space.word hw (.inr ⟨_, rfl⟩)
      simpa [List.intercalate_cons_cons] using this

theorem last_of_trim (h : trim text = text) : ∀ c ∈ (' ' :: text.toList).getLast?, c ≠ '\r' := by
  rintro c hc rfl
  rw [List.getLast?_cons, Option.mem_some_iff] at hc
  cases hlast : text.toList.getLast? with
  | none => simp [hlast] at hc
  | some c =>
    rw [← stripWhile_of_trim h] at hlast
    have hblank := last_stripWhile c hlast
    rw [stripWhile_of_trim h] at hlast
    obtain rfl : c = '\r' := by simpa [hlast] using hc
    cases hblank

theorem Sentence.Readable.solid {t : Sentence} (h : t.Readable) (hne : t.words ≠ []) :
    Solid ([' '].intercalate (t.words.map String.toList)) := by
  refine solid_intercalate (by simpa using hne) fun item hitem => ?_
  obtain ⟨w, hw, rfl⟩ := List.mem_map.mp hitem
  exact (h.words w hw).solid

/-- No line of the writer ends in a carriage return, which its reader would drop. -/
theorem Sentence.Readable.last {t : Sentence} (h : t.Readable) : t.chars.getLast? ≠ some '\r' := by
  intro hlast
  obtain ⟨indent, words, note, comment⟩ := t
  cases comment with
  | some text =>
    have heq : chars ⟨indent, words, note, some text⟩ = (List.replicate indent ' ' ++
        [' '].intercalate (words.map String.toList) ++
        (note.elim [] fun text => ' ' :: '|' :: ' ' :: text.toList) ++ [' ', '#']) ++
          ' ' :: text.toList := by
      simp [chars, trailerChars]
    rw [heq, List.getLast?_append_of_ne_nil _ (by simp)] at hlast
    exact last_of_trim (h.comment text rfl).1 _ hlast rfl
  | none =>
    cases note with
    | some text =>
      have heq : chars ⟨indent, words, some text, none⟩ = (List.replicate indent ' ' ++
          [' '].intercalate (words.map String.toList) ++ [' ', '|']) ++ ' ' :: text.toList := by
        simp [chars, trailerChars]
      rw [heq, List.getLast?_append_of_ne_nil _ (by simp)] at hlast
      exact last_of_trim (h.note text rfl).1 _ hlast rfl
    | none =>
      by_cases hnil : words = []
      · rw [h.start hnil] at hlast
        cases hlast
      · have hsolid := h.solid hnil
        have heq : chars ⟨indent, words, none, none⟩ = List.replicate indent ' ' ++
            [' '].intercalate (words.map String.toList) := by
          simp [chars, trailerChars]
        rw [heq, List.getLast?_append_of_ne_nil _ hsolid.ne_nil] at hlast
        cases hsolid.last _ hlast

theorem Reads.spaces (h : Reads cs ws n m) : Reads (List.replicate k ' ' ++ cs) ws n m := by
  induction k with
  | zero => exact h
  | succ k ih => exact ih.space

theorem indentWidth_replicate (h : ∀ c ∈ cs.head?, isSpacing c = false) :
    indentWidth (List.replicate k ' ' ++ cs) = k := by
  induction k with
  | zero =>
    cases cs with
    | nil => rfl
    | cons c cs =>
      have hc : ¬ c = ' ' ∧ ¬ c = '\t' := by simpa [isSpacing] using h c rfl
      simp [indentWidth, hc]
  | succ k ih => rw [List.replicate_succ, List.cons_append, indentWidth, if_pos rfl, ih]

theorem Sentence.Readable.indent {t : Sentence} (h : t.Readable) : indentWidth t.chars = t.indent := by
  by_cases hnil : t.words = []
  · have hchars := h.start hnil
    have hzero : t.indent = 0 := by
      have := (List.append_eq_nil_iff.mp hchars).1
      simpa using this
    rw [hchars, hzero]
    rfl
  · refine indentWidth_replicate fun c hc => isSpacing_of_not_isBlank ?_
    have hsolid := h.solid hnil
    rw [List.head?_append_of_ne_nil _ hsolid.ne_nil] at hc
    exact hsolid.head c hc

theorem readLine_chars {t : Sentence} (h : t.Readable) (place : Place) :
    (readLine place t.chars).1.Says t ∧ (readLine place t.chars).2 = [] := by
  have hcontent : (dropTail? ['\r'] t.chars).getD t.chars = t.chars := by
    rw [dropTail?_eq_none h.last]
    rfl
  have hreads : Reads t.chars t.words t.note t.comment :=
    (reads_words h.words trailerChars_wordEnd (reads_trailer h.note h.comment)).spaces
  simp only [readLine, hcontent]
  exact ⟨⟨h.indent, hreads.words _, hreads.note _, hreads.comment _⟩, hreads.clean _⟩

theorem readLinesFrom_forall₂ {R : Line → Sentence → Prop}
    (h : ∀ t ∈ ts, ∀ place, R (readLine place t.chars).1 t) (place : Place) :
    List.Forall₂ R (readLinesFrom place (ts.map Sentence.chars)).1 ts := by
  induction ts generalizing place with
  | nil => exact .nil
  | cons t ts ih =>
    have hmore := ih (fun u hu => h u (List.mem_cons_of_mem _ hu)) (place.afterAll (t.chars ++ ['\n']))
    exact .cons (h t List.mem_cons_self place) hmore

theorem readLinesFrom_clean {ts : List Sentence}
    (h : ∀ t ∈ ts, ∀ place, (readLine place t.chars).2 = []) (place : Place) :
    (readLinesFrom place (ts.map Sentence.chars)).2 = [] := by
  induction ts generalizing place with
  | nil => rfl
  | cons t ts ih =>
    have hmore := ih (fun u hu => h u (List.mem_cons_of_mem _ hu)) (place.afterAll (t.chars ++ ['\n']))
    simp only [List.map_cons, readLinesFrom, h t List.mem_cons_self, hmore, List.append_nil]

/-- A text of such lines ends in an empty line. -/
theorem splitAt_chars {text : String} (hfree : ∀ t ∈ ts, '\n' ∉ t.chars)
    (htext : text.toList = ts.flatMap fun t => t.chars ++ ['\n']) :
    splitAt '\n' text.toList = (ts ++ [Sentence.empty]).map Sentence.chars := by
  have hlines : ∀ line ∈ ts.map Sentence.chars, '\n' ∉ line := by
    intro line hline
    obtain ⟨t, ht, rfl⟩ := List.mem_map.mp hline
    exact hfree t ht
  have hsplit := splitAt_flatMap hlines
  rw [List.flatMap_map] at hsplit
  rw [htext, hsplit, List.map_append]
  rfl

theorem readLines_forall₂ {R : Line → Sentence → Prop} {text : String}
    (hfree : ∀ t ∈ ts, '\n' ∉ t.chars)
    (htext : text.toList = ts.flatMap fun t => t.chars ++ ['\n'])
    (h : ∀ t ∈ ts ++ [Sentence.empty], ∀ place, R (readLine place t.chars).1 t) :
    List.Forall₂ R (readLines text).1 (ts ++ [Sentence.empty]) := by
  rw [readLines, splitAt_chars hfree htext]
  exact readLinesFrom_forall₂ h {}

theorem readable_empty : Sentence.empty.Readable := by
  refine ⟨?_, ?_, ?_, fun _ => rfl⟩ <;> simp [Sentence.empty]

/-- A text of such lines is read as what stands on them, and an empty line at the end. -/
theorem readLines_chars (h : ∀ t ∈ ts, Sentence.Readable t)
    (htext : text.toList = ts.flatMap fun t => t.chars ++ ['\n']) :
    List.Forall₂ Line.Says (readLines text).1 (ts ++ [Sentence.empty]) ∧ (readLines text).2 = [] := by
  have hall : ∀ t ∈ ts ++ [Sentence.empty], t.Readable := fun t ht =>
    (List.mem_append.mp ht).elim (h t) fun ht => List.mem_singleton.mp ht ▸ readable_empty
  have hfree : ∀ t ∈ ts, '\n' ∉ t.chars := fun t ht => (h t ht).feedFree
  refine ⟨readLines_forall₂ hfree htext fun t ht place => (readLine_chars (hall t ht) place).1, ?_⟩
  rw [readLines, splitAt_chars hfree htext]
  exact readLinesFrom_clean (fun t ht place => (readLine_chars (hall t ht) place).2) {}

end SchemaDialects.Markup
