import SchemaDialects.Proofs.Markup.LineLaws

/-!
# Where the words of a line stand

`readLines_layout`: a text has one line for every piece between its line feeds. What is read on a line is cut
out of it, in ascending order, and nothing is left out but blanks and the marks of the note and the comment. So
the position of a word comes from the characters before it alone, whatever quotes and parentheses are open.
-/

namespace SchemaDialects.Markup

open Text

-- ---------------------------------------------------------------------------
-- Places on a line
-- ---------------------------------------------------------------------------

/-- Everything that is read on the line, in the order in which it stands there. -/
def Line.contents (l : Line) : List Word := l.words ++ l.note.toList ++ l.comment.toList

/-- The position of characters behind `front` on a line that begins `offset` bytes from the beginning. -/
def positionOn (offset number : Nat) (front chars : List Char) : Position where
  offset := ⟨offset + byteLength front, offset + byteLength (front ++ chars)⟩
  start := ⟨number, 1 + front.length⟩
  stop := ⟨number, 1 + front.length + chars.length⟩

theorem afterAll_line (h : '\n' ∉ cs) (offset number column : Nat) :
    Place.afterAll ⟨offset, ⟨number, column⟩⟩ cs = ⟨offset + byteLength cs, ⟨number, column + cs.length⟩⟩ := by
  induction cs generalizing offset column with
  | nil => rfl
  | cons c cs ih =>
    obtain ⟨hc, hcs⟩ := not_or.mp (fun hmem => h (List.mem_cons.mpr hmem))
    have hstep : Place.after ⟨offset, ⟨number, column⟩⟩ c = ⟨offset + c.utf8Size, ⟨number, column + 1⟩⟩ :=
      by rw [Place.after, if_neg (Ne.symm hc)]
    show Place.afterAll (Place.after ⟨offset, ⟨number, column⟩⟩ c) cs = _
    rw [hstep, ih hcs, byteLength, List.length_cons, Nat.add_assoc, Nat.add_assoc, Nat.add_comm 1]

/-- The place behind `front` on a line. -/
def placeOn (offset number : Nat) (front : List Char) : Place :=
  ⟨offset + byteLength front, ⟨number, 1 + front.length⟩⟩

theorem afterAll_placeOn (h : '\n' ∉ cs) : (placeOn offset number front).afterAll cs = placeOn offset number (front ++ cs) := by
  rw [placeOn, afterAll_line h, placeOn, byteLength_append, List.length_append, Nat.add_assoc, Nat.add_assoc]

theorem between_placeOn (h : '\n' ∉ chars) : Word.between (placeOn offset number front) chars =
    ⟨String.ofList chars, positionOn offset number front chars⟩ := by
  rw [Word.between, afterAll_placeOn h, placeOn, placeOn, Place.upTo, positionOn, List.length_append, Nat.add_assoc]

/-- Blanks, the content of a note or comment without those at its ends, and blanks. -/
theorem blanks_around (cs : List Char) : ∃ after, (∀ c ∈ after, isBlank c = true) ∧
    cs = cs.takeWhile isBlank ++ stripWhile isBlank cs ++ after := by
  refine ⟨((cs.dropWhile isBlank).reverse.takeWhile isBlank).reverse, fun c hc => ?_, ?_⟩
  · exact List.mem_takeWhile_imp (List.mem_reverse.mp hc)
  · rw [List.append_assoc, stripWhile, dropEndWhile, ← List.reverse_append, List.takeWhile_append_dropWhile,
      List.reverse_reverse, List.takeWhile_append_dropWhile]

-- ---------------------------------------------------------------------------
-- Layouts
-- ---------------------------------------------------------------------------

/-- The text begins with a mark, and nothing but blanks stand between the mark and the word. -/
def Introduces (mark : Char) (w : Word) (offset : Nat) (rest : List Char) : Prop :=
  ∃ blanks more, rest = mark :: blanks ++ more ∧ (∀ c ∈ blanks, isBlank c = true) ∧
    w.position.offset.start = offset + byteLength (mark :: blanks)

/-- How the contents of a line lie in `rest`, which stands behind `front` on this line. -/
structure Layout (offset number : Nat) (front rest : List Char) (l : Line) : Prop where
  numbered : l.number = number
  located : ∀ w ∈ l.contents, ∃ before behind, rest = before ++ w.text.toList ++ behind ∧
    w.position = positionOn offset number (front ++ before) w.text.toList
  ascending : l.contents.Pairwise fun v w => v.position.offset.stop ≤ w.position.offset.start
  outside : ∀ before c behind, rest = before ++ c :: behind →
    (∀ w ∈ l.contents, offset + byteLength (front ++ before) < w.position.offset.start ∨
      w.position.offset.stop ≤ offset + byteLength (front ++ before)) →
    isBlank c = true ∨
      (∃ w ∈ l.note, Introduces '|' w (offset + byteLength (front ++ before)) (c :: behind)) ∨
      ∃ w ∈ l.comment, Introduces '#' w (offset + byteLength (front ++ before)) (c :: behind)

namespace Layout

theorem nil : Layout offset number front [] { number } where
  numbered := rfl
  located := nofun
  ascending := .nil
  outside := by simp

/-- A character of two parts is in one of them. -/
theorem append_eq_cons {as bs : List Char} (h : as ++ bs = before ++ c :: behind) :
    (∃ more, as = before ++ c :: more ∧ behind = more ++ bs) ∨
      ∃ inside, before = as ++ inside ∧ bs = inside ++ c :: behind := by
  rcases List.append_eq_append_iff.mp h with ⟨inside, hbefore, hbs⟩ | ⟨more, has, hbehind⟩
  · exact .inr ⟨inside, hbefore, hbs⟩
  · cases more with
    | nil => exact .inr ⟨[], by simpa using has.symm, by simpa using hbehind.symm⟩
    | cons d more =>
      obtain ⟨rfl, hmore⟩ := List.cons.inj hbehind
      exact .inl ⟨more, has, hmore⟩

/-- Nothing behind the first characters is read from them. -/
theorem start_le (h : Layout offset number front rest l) (hw : w ∈ l.contents) :
    offset + byteLength front ≤ w.position.offset.start := by
  obtain ⟨before, behind, -, hposition⟩ := h.located w hw
  simp only [hposition, positionOn, byteLength_append]
  omega

/-- What stands in front of a word is the mark that introduces it or blank. -/
theorem mark_or_blank (hgap : mark :: blanks = before ++ c :: more) (hblanks : ∀ d ∈ blanks, isBlank d = true)
    (hw : w = ⟨String.ofList chars, positionOn offset number (front ++ mark :: blanks) chars⟩) (after : List Char) :
    isBlank c = true ∨
      c = mark ∧ Introduces c w (offset + byteLength (front ++ before)) (c :: (more ++ chars ++ after)) := by
  cases before with
  | nil =>
    obtain ⟨rfl, rfl⟩ := List.cons.inj hgap
    refine .inr ⟨rfl, blanks, chars ++ after, by simp, hblanks, ?_⟩
    simp [hw, positionOn, byteLength_append, Nat.add_assoc]
  | cons d before =>
    obtain ⟨rfl, rfl⟩ := List.cons.inj hgap
    exact .inl (hblanks c (by simp))

/-- One more word in front of those that a line has: `gap` holds the mark that introduces it, and `after` the
blanks behind it. -/
theorem piece (h : Layout offset number (front ++ (gap ++ chars ++ after)) rest l) (hnumber : l'.number = number)
    (hcontents : l'.contents = w :: l.contents) (hnote : ∀ v ∈ l.note, v ∈ l'.note)
    (hcomment : ∀ v ∈ l.comment, v ∈ l'.comment)
    (hw : w = ⟨String.ofList chars, positionOn offset number (front ++ gap) chars⟩)
    (hgap : gap = [] ∨ ∃ mark blanks, gap = mark :: blanks ∧ (∀ c ∈ blanks, isBlank c = true) ∧
      (mark = '|' ∧ w ∈ l'.note ∨ mark = '#' ∧ w ∈ l'.comment))
    (hafter : ∀ c ∈ after, isBlank c = true) :
    Layout offset number front (gap ++ chars ++ after ++ rest) l' where
  numbered := hnumber
  located := by
    rw [hcontents]
    refine List.forall_mem_cons.mpr ⟨⟨gap, after ++ rest, by simp [hw], by simp [hw]⟩, fun v hv => ?_⟩
    obtain ⟨before, behind, hrest, hposition⟩ := h.located v hv
    exact ⟨gap ++ chars ++ after ++ before, behind, by simp [hrest], by simpa using hposition⟩
  ascending := by
    rw [hcontents]
    refine .cons (fun v hv => ?_) h.ascending
    have hstart := h.start_le hv
    rw [hw, positionOn]
    simp only [byteLength_append] at hstart ⊢
    omega
  outside := by
    intro before c behind hrest hout
    rw [hcontents] at hout
    obtain ⟨hself, hothers⟩ := List.forall_mem_cons.mp hout
    rcases append_eq_cons hrest with ⟨more, hpiece, rfl⟩ | ⟨inside, rfl, hlater⟩
    · rcases append_eq_cons hpiece with ⟨more, hmarked, rfl⟩ | ⟨inside, -, hblanks⟩
      · rcases append_eq_cons hmarked with ⟨more, rfl, rfl⟩ | ⟨inside, rfl, rfl⟩
        · obtain hnil | ⟨mark, blanks, hmark, hblanks, hword⟩ := hgap
          · simp at hnil
          · rw [hmark] at hw
            obtain hblank | ⟨rfl, hintroduces⟩ :=
              mark_or_blank hmark.symm hblanks hw (after ++ rest)
            · exact .inl hblank
            · rw [← List.append_assoc] at hintroduces
              rcases hword with ⟨rfl, hnote⟩ | ⟨rfl, hcomment⟩
              · exact .inr (.inl ⟨w, hnote, hintroduces⟩)
              · exact .inr (.inr ⟨w, hcomment, hintroduces⟩)
        · -- The character is one of the word.
          rw [hw, positionOn] at hself
          simp only [byteLength_append, byteLength] at hself
          have := c.utf8Size_pos
          omega
      · exact .inl (hafter c (by simp [hblanks]))
    · have hbefore : front ++ (gap ++ chars ++ after) ++ inside = front ++ (gap ++ chars ++ after ++ inside) := by
        simp only [List.append_assoc]
      have hskipped := h.outside inside c behind hlater (by simpa only [hbefore] using hothers)
      rw [hbefore] at hskipped
      refine hskipped.imp_right fun hmarks => hmarks.imp ?_ ?_
      · exact Exists.imp fun v => And.imp_left (hnote v)
      · exact Exists.imp fun v => And.imp_left (hcomment v)

end Layout

-- ---------------------------------------------------------------------------
-- Cutting a line
-- ---------------------------------------------------------------------------

theorem cut_hash (cs : List Char) : cut '#' cs = (.comment, cs.length) := by simp [cut, isSpacing]

theorem cut_bar (cs : List Char) : cut '|' cs = (.note, noteLength '|' cs) := by simp [cut, isSpacing]

theorem cut_spacing (h : isSpacing c = true) (cs : List Char) : cut c cs = (.spacing, 0) := by simp [cut, h]

theorem cut_word (hspace : isSpacing c = false) (hhash : c ≠ '#') (hbar : c ≠ '|') (cs : List Char) :
    ∃ final n, cut c cs = (.word final, n) := by
  rw [cut, if_neg (Bool.eq_false_iff.mp hspace), if_neg hhash, if_neg hbar]
  exact ⟨_, _, rfl⟩

theorem isBlank_of_isSpacing (h : isSpacing c = true) : isBlank c = true := by
  rw [isSpacing, Bool.or_eq_true, decide_eq_true_eq, decide_eq_true_eq] at h
  rcases h with rfl | rfl <;> decide

/-- A blank in front. -/
theorem Layout.skipped (h : Layout offset number (front ++ [c]) rest l) (hc : isBlank c = true) :
    Layout offset number front (c :: rest) l where
  numbered := h.numbered
  located w hw := by
    obtain ⟨before, behind, hrest, hposition⟩ := h.located w hw
    exact ⟨c :: before, behind, by simp [hrest], by simpa using hposition⟩
  ascending := h.ascending
  outside := by
    intro before d behind hrest hout
    cases before with
    | nil => exact .inl ((List.cons.inj hrest).1 ▸ hc)
    | cons e before =>
      obtain ⟨rfl, hlater⟩ := List.cons.inj hrest
      have hfront : front ++ c :: before = front ++ [c] ++ before := by simp
      rw [hfront] at hout ⊢
      exact h.outside before d behind hlater hout

/-- A mark and what it introduces. -/
theorem Layout.marked (h : Layout offset number (front ++ mark :: content) rest l) (hfree : '\n' ∉ mark :: content)
    (hw : w = .trimmed ((placeOn offset number front).after mark) content) (hnumber : l'.number = number)
    (hcontents : l'.contents = w :: l.contents) (hnote : ∀ v ∈ l.note, v ∈ l'.note)
    (hcomment : ∀ v ∈ l.comment, v ∈ l'.comment)
    (hword : mark = '|' ∧ w ∈ l'.note ∨ mark = '#' ∧ w ∈ l'.comment) :
    Layout offset number front (mark :: content ++ rest) l' := by
  obtain ⟨after, hafter, hcontent⟩ := blanks_around content
  have hall : mark :: content = mark :: content.takeWhile isBlank ++ stripWhile isBlank content ++ after :=
    congrArg (mark :: ·) hcontent
  have hplace : w = ⟨String.ofList (stripWhile isBlank content),
      positionOn offset number (front ++ mark :: content.takeWhile isBlank) (stripWhile isBlank content)⟩ := by
    rw [hall, List.append_assoc] at hfree
    obtain ⟨hgap, hchars⟩ := not_or.mp fun hmem => hfree (List.mem_append.mpr hmem)
    rw [← between_placeOn fun hmem => hchars (List.mem_append_left _ hmem), ← afterAll_placeOn hgap, hw]
    rfl
  rw [hall] at h ⊢
  exact h.piece hnumber hcontents hnote hcomment hplace
    (.inr ⟨mark, _, rfl, fun c hc => List.mem_takeWhile_imp hc, hword⟩) hafter

theorem Layout.word (h : Layout offset number (front ++ chars) rest l) (hfree : '\n' ∉ chars) :
    Layout offset number front (chars ++ rest)
      { l with words := .between (placeOn offset number front) chars :: l.words } := by
  have hplace : Word.between (placeOn offset number front) chars =
      ⟨String.ofList chars, positionOn offset number (front ++ []) chars⟩ := by
    rw [List.append_nil, between_placeOn hfree]
  have hpiece : Layout offset number (front ++ ([] ++ chars ++ [])) rest l := by simpa using h
  have hline : Layout offset number front ([] ++ chars ++ [] ++ rest)
      { l with words := .between (placeOn offset number front) chars :: l.words } :=
    hpiece.piece h.numbered rfl (fun _ hv => hv) (fun _ hv => hv) hplace (.inl rfl) nofun
  simpa using hline

/-- A note with what stands behind it, which is no word and no other note. -/
theorem Layout.note (h : Layout offset number (front ++ '|' :: content) rest l) (hfree : '\n' ∉ '|' :: content)
    (hwords : l.words = []) (hnote : l.note = none) :
    Layout offset number front ('|' :: content ++ rest)
      { l with note := some (.trimmed ((placeOn offset number front).after '|') content) } := by
  refine h.marked hfree rfl h.numbered ?_ ?_ (fun _ hv => hv) (.inl ⟨rfl, rfl⟩)
  · simp only [Line.contents, hwords, hnote]
    rfl
  · rw [hnote]
    nofun

theorem Layout.comment (hfree : '\n' ∉ '#' :: content) :
    Layout offset number front ('#' :: content)
      { number, comment := some (.trimmed ((placeOn offset number front).after '#') content) } := by
  have hlast : Layout offset number (front ++ '#' :: content) [] { number } := .nil
  rw [← List.append_nil ('#' :: content)]
  exact hlast.marked hfree rfl rfl rfl nofun nofun (.inr ⟨rfl, rfl⟩)

theorem assemble_comment (place : Place) (cs : List Char) :
    assemble place (tiles cut ('#' :: cs)) =
      ({ number := (place.afterAll ('#' :: cs)).location.line, comment := some (.trimmed (place.after '#') cs) }, []) := by
  rw [tiles_cons, cut_hash, List.take_length, List.drop_length, tiles]
  rfl

/-- No word stands behind a note, and no other note. -/
theorem assemble_behind_note (place : Place) (previous : Char) (cs : List Char) :
    (assemble place (tiles cut (cs.drop (noteLength previous cs)))).1.words = [] ∧
      (assemble place (tiles cut (cs.drop (noteLength previous cs)))).1.note = none := by
  rcases drop_noteLength previous cs with hnil | ⟨rest, hrest⟩
  · rw [hnil, tiles]
    exact ⟨rfl, rfl⟩
  · rw [hrest, assemble_comment]
    exact ⟨rfl, rfl⟩

theorem layout_tiles (offset number : Nat) (front : List Char) (hfree : '\n' ∉ cs) :
    Layout offset number front cs (assemble (placeOn offset number front) (tiles cut cs)).1 := by
  induction cs using tiles_induction cut generalizing front with
  | nil =>
    rw [tiles_nil]
    exact .nil
  | cons c cs ih =>
    have htake (k : Nat) : '\n' ∉ c :: cs.take k := fun hmem =>
      hfree ((List.cons_sublist_cons.mpr (List.take_sublist k cs)).mem hmem)
    -- The line that the tiles behind the first one make up.
    have hrest := ih (front ++ c :: cs.take (cut c cs).2) fun hmem =>
      hfree (List.mem_cons_of_mem _ (List.mem_of_mem_drop hmem))
    rw [← afterAll_placeOn (htake _)] at hrest
    by_cases hspace : isSpacing c = true
    · rw [cut_spacing hspace] at hrest
      rw [tiles_cons, cut_spacing hspace]
      exact hrest.skipped (isBlank_of_isSpacing hspace)
    by_cases hhash : c = '#'
    · subst hhash
      rw [assemble_comment, afterAll_placeOn hfree]
      exact .comment hfree
    by_cases hbar : c = '|'
    · subst hbar
      obtain ⟨hwords, hnote⟩ := assemble_behind_note
        ((placeOn offset number front).afterAll ('|' :: cs.take (noteLength '|' cs))) '|' cs
      rw [cut_bar] at hrest
      have hline := hrest.note (htake _) hwords hnote
      rw [List.cons_append, List.take_append_drop] at hline
      rw [tiles_cons, cut_bar]
      exact hline
    obtain ⟨final, n, hcut⟩ := cut_word (Bool.eq_false_iff.mpr hspace) hhash hbar cs
    rw [hcut] at hrest
    have hline := hrest.word (htake n)
    rw [List.cons_append, List.take_append_drop] at hline
    rw [tiles_cons, hcut]
    exact hline

-- ---------------------------------------------------------------------------
-- Whole texts
-- ---------------------------------------------------------------------------

/-- Blanks behind everything that is read. -/
theorem Layout.append (h : Layout offset number front rest l) (hblank : ∀ c ∈ blanks, isBlank c = true) :
    Layout offset number front (rest ++ blanks) l where
  numbered := h.numbered
  located w hw := by
    obtain ⟨before, behind, hrest, hposition⟩ := h.located w hw
    exact ⟨before, behind ++ blanks, by simp [hrest], hposition⟩
  ascending := h.ascending
  outside := by
    intro before c behind hrest hout
    rcases append_eq_cons hrest with ⟨more, hinside, rfl⟩ | ⟨inside, -, hbehind⟩
    · have hlonger : ∀ mark w offset, Introduces mark w offset (c :: more) →
          Introduces mark w offset (c :: (more ++ blanks)) :=
        fun mark w offset ⟨gap, others, hsame, hrest⟩ =>
          ⟨gap, others ++ blanks, by rw [← List.cons_append, hsame, List.append_assoc], hrest⟩
      refine (h.outside before c more hinside hout).imp_right fun hmarks => hmarks.imp ?_ ?_
      · exact fun ⟨w, hw, hintroduces⟩ => ⟨w, hw, hlonger _ _ _ hintroduces⟩
      · exact fun ⟨w, hw, hintroduces⟩ => ⟨w, hw, hlonger _ _ _ hintroduces⟩
    · exact .inl (hblank c (by simp [hbehind]))

/-- A carriage return at the end of the line is not read. -/
theorem layout_readLine (offset number : Nat) (hfree : '\n' ∉ chars) :
    Layout offset number [] chars (readLine ⟨offset, ⟨number, 1⟩⟩ chars).1 := by
  have hread (content : List Char) (hcontent : '\n' ∉ content) (indent : Nat) : Layout offset number [] content
      { (assemble ⟨offset, ⟨number, 1⟩⟩ (tiles cut content)).1 with indent } := by
    have hline := layout_tiles offset number [] hcontent
    exact ⟨hline.numbered, hline.located, hline.ascending, hline.outside⟩
  rw [readLine]
  dsimp only
  cases hdrop : dropTail? ['\r'] chars with
  | none => exact hread chars hfree _
  | some content =>
    obtain rfl := dropTail?_eq_some.mp hdrop
    have hcontent : '\n' ∉ content := fun hmem => hfree (List.mem_append_left _ hmem)
    exact (hread content hcontent _).append (List.forall_mem_singleton.mpr rfl)

theorem afterAll_feed (hfree : '\n' ∉ chars) (offset number : Nat) :
    Place.afterAll ⟨offset, ⟨number, 1⟩⟩ (chars ++ ['\n']) =
      ⟨offset + byteLength (chars ++ ['\n']), ⟨number + 1, 1⟩⟩ := by
  rw [Place.afterAll, List.foldl_append]
  show Place.after (Place.afterAll _ chars) '\n' = _
  rw [afterAll_line hfree, Place.after, if_pos rfl, byteLength_append, ← Nat.add_assoc]
  rfl

theorem layout_readLinesFrom (offset number : Nat) (hfree : ∀ chars ∈ lines, '\n' ∉ chars) :
    (readLinesFrom ⟨offset, ⟨number, 1⟩⟩ lines).1.length = lines.length ∧ ∀ i chars l, lines[i]? = some chars →
      (readLinesFrom ⟨offset, ⟨number, 1⟩⟩ lines).1[i]? = some l →
        Layout (offset + byteLength ((lines.take i).flatMap (· ++ ['\n']))) (number + i) [] chars l := by
  induction lines generalizing offset number with
  | nil => exact ⟨rfl, by simp⟩
  | cons first lines ih =>
    obtain ⟨hfirst, hmore⟩ := List.forall_mem_cons.mp hfree
    obtain ⟨hlength, hlayout⟩ := ih (offset + byteLength (first ++ ['\n'])) (number + 1) hmore
    have hread : (readLinesFrom ⟨offset, ⟨number, 1⟩⟩ (first :: lines)).1 =
        (readLine ⟨offset, ⟨number, 1⟩⟩ first).1 ::
          (readLinesFrom ⟨offset + byteLength (first ++ ['\n']), ⟨number + 1, 1⟩⟩ lines).1 := by
      rw [← afterAll_feed hfirst]
      rfl
    rw [hread]
    refine ⟨by rw [List.length_cons, hlength, List.length_cons], fun i chars l hchars hl => ?_⟩
    cases i with
    | zero =>
      obtain rfl : first = chars := Option.some.inj hchars
      obtain rfl := Option.some.inj hl
      exact layout_readLine offset number hfirst
    | succ i =>
      have hline := hlayout i chars l hchars hl
      rw [List.take_succ_cons, List.flatMap_cons, byteLength_append, ← Nat.add_assoc, Nat.add_comm i, ← Nat.add_assoc]
      exact hline

/-- The bytes of what is read on a line of a text are those of its own text. -/
theorem Layout.slice_eq (h : Layout (byteLength before) number [] chars l) (hw : w ∈ l.contents) (after : List Char) :
    slice w.position.offset.start w.position.offset.stop (before ++ chars ++ after) = w.text.toList := by
  obtain ⟨inside, behind, rfl, hposition⟩ := h.located w hw
  have hstart : w.position.offset.start = byteLength (before ++ inside) := by
    rw [hposition, byteLength_append]
    rfl
  have hstop : w.position.offset.stop = byteLength (before ++ inside ++ w.text.toList) := by
    rw [hposition, List.append_assoc, byteLength_append]
    rfl
  have hplace : before ++ (inside ++ w.text.toList ++ behind) ++ after =
      before ++ inside ++ w.text.toList ++ (behind ++ after) := by
    simp only [List.append_assoc]
  rw [hstart, hstop, hplace, slice_append]

/-- A text has one line for every piece between its line feeds. A line is laid out over its piece, and the
bytes of whatever is read on it are those of its text. -/
theorem readLines_layout (text : String) : ∃ lines, lines ≠ [] ∧ text.toList = ['\n'].intercalate lines ∧
    (∀ chars ∈ lines, '\n' ∉ chars) ∧ (readLines text).1.length = lines.length ∧
    ∀ i chars l, lines[i]? = some chars → (readLines text).1[i]? = some l →
      Layout (byteLength ((lines.take i).flatMap (· ++ ['\n']))) (1 + i) [] chars l ∧
      ∀ w ∈ l.contents, slice w.position.offset.start w.position.offset.stop text.toList = w.text.toList := by
  have htext := intercalate_splitAt '\n' text.toList
  have hfree : ∀ chars ∈ Text.splitAt '\n' text.toList, '\n' ∉ chars :=
    fun chars hchars => not_mem_of_mem_pieces hchars (decide_eq_true rfl)
  obtain ⟨hlength, hlayout⟩ := layout_readLinesFrom 0 1 hfree
  refine ⟨Text.splitAt '\n' text.toList, pieces_ne_nil, htext.symm, hfree, hlength, fun i chars l hchars hl => ?_⟩
  have hline := hlayout i chars l hchars hl
  rw [Nat.zero_add] at hline
  refine ⟨hline, fun w hw => ?_⟩
  obtain ⟨after, hafter⟩ := intercalate_at hchars
  have hslice := hline.slice_eq hw after
  rwa [← hafter, htext] at hslice

end SchemaDialects.Markup
