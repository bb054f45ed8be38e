import SchemaDialects.Markup.Reader
import SchemaDialects.Proofs.Markup.Layout

/-!
# Schemas whose positions move

The reader hands positions on and never looks at one. So it commutes with every map of positions, line by line
(`State.line_moved`) and over all of them (`State.foldl_moved`), and neither the schema nor the number of
diagnostics depends on where the lines stand. The diagnostics that are there already do not matter either.
-/

namespace SchemaDialects

/-- The diagnostic with its position mapped. -/
def Diagnostic.moved (f : Position → Position) (d : Diagnostic) : Diagnostic := { d with position := f d.position }

@[simp] theorem Diagnostic.moved_position (d : Diagnostic) : (d.moved f).position = f d.position := rfl

theorem Diagnostic.moved_congr {d : Diagnostic} (h : f d.position = g d.position) : d.moved f = d.moved g :=
  congrArg (Diagnostic.mk d.level d.kind d.message) h

/-- The position in a text with `n` more bytes in front. -/
def Position.plus (n : Nat) (p : Position) : Position :=
  { p with offset := ⟨p.offset.start + n, p.offset.stop + n⟩ }

namespace Place

/-- The place in a text with `n` more bytes in front. -/
def plus (n : Nat) (p : Place) : Place := { p with offset := p.offset + n }

theorem after_plus (p : Place) (c : Char) : (p.plus n).after c = (p.after c).plus n := by
  rw [after, after, plus, plus, Nat.add_right_comm]

theorem afterAll_plus (p : Place) (cs : List Char) : (p.plus n).afterAll cs = (p.afterAll cs).plus n := by
  induction cs generalizing p with
  | nil => rfl
  | cons c cs ih => exact (congrArg (afterAll · cs) (p.after_plus c)).trans (ih (p.after c))

theorem upTo_plus (p q : Place) : (p.plus n).upTo (q.plus n) = (p.upTo q).plus n := rfl

end Place

namespace Markup

variable {f : Position → Position} {more : List Diagnostic}

-- ---------------------------------------------------------------------------
-- Lines
-- ---------------------------------------------------------------------------

theorem Problem.diagnostic_moved (p : Problem) (position : Position) :
    (p.diagnostic position).moved f = p.diagnostic (f position) := rfl

def Word.moved (f : Position → Position) (w : Word) : Word := { w with position := f w.position }

@[simp] theorem Word.moved_text (w : Word) : (w.moved f).text = w.text := rfl

@[simp] theorem Word.moved_position (w : Word) : (w.moved f).position = f w.position := rfl

@[simp] theorem Word.moved_is (w : Word) (keyword : String) : (w.moved f).is keyword = w.is keyword := rfl

namespace Line

/-- The line with the positions of its words mapped. -/
def moved (f : Position → Position) (l : Line) : Line where
  number := l.number
  indent := l.indent
  words := l.words.map (.moved f)
  note := l.note.map (.moved f)
  comment := l.comment.map (.moved f)

theorem contents_moved (l : Line) : (l.moved f).contents = l.contents.map (.moved f) := by
  simp [contents, moved, Option.toList_map]

theorem position_moved (l : Line) : (l.moved f).position = .merge (l.contents.map (f ·.position)) := by
  rw [position, ← contents, contents_moved, List.map_map]
  rfl

theorem moved_congr {l : Line} (h : ∀ w ∈ l.contents, f w.position = g w.position) : l.moved f = l.moved g := by
  have hword : ∀ w ∈ l.contents, w.moved f = w.moved g := fun w hw => congrArg (Word.mk w.text) (h w hw)
  simp only [contents, List.mem_append, Option.mem_toList] at hword
  unfold moved
  congr 1
  · exact List.map_congr_left fun w hw => hword w (.inl (.inl hw))
  · exact Option.map_congr fun w hw => hword w (.inl (.inr hw))
  · exact Option.map_congr fun w hw => hword w (.inr hw)

theorem moved_eq_self {l : Line} (h : ∀ w ∈ l.contents, f w.position = w.position) : l.moved f = l := by
  have hid : Word.moved id = id := rfl
  have hself : l.moved id = l := by simp [moved, hid]
  exact (moved_congr h).trans hself

@[simp] theorem moved_indent (l : Line) : (l.moved f).indent = l.indent := rfl

@[simp] theorem moved_words (l : Line) : (l.moved f).words = l.words.map (.moved f) := rfl

@[simp] theorem isBlank_moved (l : Line) : (l.moved f).isBlank = l.isBlank := by
  simp [isBlank, moved]

@[simp] theorem isComment_moved (l : Line) : (l.moved f).isComment = l.isComment := by
  simp [isComment, moved]

/-- The position of the whole line is mapped as those of its words are. -/
def Carried (f : Position → Position) (l : Line) : Prop := (l.moved f).position = f l.position

end Line

@[simp] theorem noteText_moved (l : Line) : noteText (l.moved f) = noteText l := by
  simp [noteText, Line.moved, Function.comp_def]

@[simp] theorem commentExtra_moved (l : Line) : commentExtra (l.moved f) = commentExtra l := by
  cases h : l.comment <;> simp [commentExtra, Line.moved, h]

-- ---------------------------------------------------------------------------
-- More text in front
-- ---------------------------------------------------------------------------

theorem Word.between_plus (start : Place) (chars : List Char) :
    between (start.plus n) chars = (between start chars).moved (.plus n) := by
  rw [between, Place.afterAll_plus, Place.upTo_plus]
  rfl

theorem Word.trimmed_plus (start : Place) (chars : List Char) :
    trimmed (start.plus n) chars = (trimmed start chars).moved (.plus n) := by
  rw [trimmed, Place.afterAll_plus, between_plus]
  rfl

theorem openQuoteProblem_plus (start : Place) (chars : List Char) (q : Char) :
    openQuoteProblem (start.plus n) chars q = (openQuoteProblem start chars q).moved (.plus n) := by
  simp only [openQuoteProblem, Place.afterAll_plus, Place.upTo_plus]
  rfl

theorem wordProblems_plus (start : Place) (chars : List Char) (final : Nesting) :
    wordProblems (start.plus n) chars final = (wordProblems start chars final).map (.moved (.plus n)) := by
  rw [wordProblems, wordProblems, List.map_append, Place.afterAll_plus, Place.upTo_plus]
  congr 1
  · cases final.quote with
    | none => rfl
    | some q => exact congrArg ([·]) (openQuoteProblem_plus start chars q)
  · split <;> rfl

/-- What is read on a line, and the problems of its words. -/
theorem assemble_plus (place : Place) (tiles : List (Piece × List Char)) : assemble (place.plus n) tiles =
    ((assemble place tiles).1.moved (.plus n), (assemble place tiles).2.map (.moved (.plus n))) := by
  induction tiles generalizing place with
  | nil => rfl
  | cons tile tiles ih =>
    obtain ⟨piece, chars⟩ := tile
    rw [assemble, assemble, Place.afterAll_plus, ih]
    cases piece with
    | spacing => rfl
    | word final =>
      dsimp only
      rw [Word.between_plus, wordProblems_plus, List.map_append]
      rfl
    | note =>
      cases chars with
      | nil => rfl
      | cons mark content =>
        dsimp only
        rw [Place.after_plus, Word.trimmed_plus]
        rfl
    | comment =>
      cases chars with
      | nil => rfl
      | cons mark content =>
        dsimp only
        rw [Place.after_plus, Word.trimmed_plus]
        rfl

theorem readLine_plus (place : Place) (chars : List Char) : readLine (place.plus n) chars =
    ((readLine place chars).1.moved (.plus n), (readLine place chars).2.map (.moved (.plus n))) := by
  rw [readLine, assemble_plus]
  rfl

theorem readLinesFrom_plus (place : Place) (lines : List (List Char)) : readLinesFrom (place.plus n) lines =
    ((readLinesFrom place lines).1.map (.moved (.plus n)), (readLinesFrom place lines).2.map (.moved (.plus n))) := by
  induction lines generalizing place with
  | nil => rfl
  | cons chars lines ih =>
    rw [readLinesFrom, readLine_plus, Place.afterAll_plus, ih, readLinesFrom, List.map_append]
    rfl

-- ---------------------------------------------------------------------------
-- Attribute lines
-- ---------------------------------------------------------------------------

def Reference.moved (f : Position → Position) (r : Reference) : Reference := { r with position := f r.position }

namespace AttributeLine

def moved (f : Position → Position) (l : AttributeLine) : AttributeLine :=
  { l with typePosition := l.typePosition.map f, references := l.references.map (.moved f) }

/-- A read line, or a problem and where it is. -/
def movedResult (f : Position → Position) :
    Except (Problem × Position) AttributeLine → Except (Problem × Position) AttributeLine
  | .ok l => .ok (l.moved f)
  | .error (problem, position) => .error (problem, f position)

theorem apply_moved (l : AttributeLine) (m : Modifier) : (l.moved f).apply m = (l.apply m).moved f := by
  cases m <;> rfl

theorem refer_moved (l : AttributeLine) (r : Reference) :
    { l.moved f with references := (l.moved f).references ++ [r.moved f] } =
      ({ l with references := l.references ++ [r] } : AttributeLine).moved f := by
  simp [moved]

theorem applyAll_moved (space : Namespace) (l : AttributeLine) (words : List Word) :
    (l.moved f).applyAll space (words.map (.moved f)) = movedResult f (l.applyAll space words) := by
  induction l, words using applyAll.induct space with
  | case1 l => rfl
  | case2 l word rest hnone => simp [applyAll, hnone, movedResult]
  | case3 l word cardinalities href => simp [applyAll, href, movedResult]
  | case4 l word cardinalities href target rest reference ih =>
    rw [← refer_moved] at ih
    simp only [List.map_cons, applyAll, Word.moved_text, href]
    exact ih
  | case5 l word rest m hnot hm ih =>
    rw [← apply_moved] at ih
    rw [List.map_cons, applyAll, applyAll, Word.moved_text, hm]
    cases m with
    | reference cardinalities => exact absurd rfl (hnot cardinalities)
    | _ => exact ih

theorem read_moved (space : Namespace) (l : Line) (hl : l.Carried f) :
    read space (l.moved f) = movedResult f (read space l) := by
  unfold read
  cases hwords : l.words with
  | nil =>
    rw [Line.moved_words, hwords, hl]
    rfl
  | cons name rest =>
    cases rest with
    | nil => simp [hwords, movedResult, moved]
    | cons word more =>
      simp only [Line.moved_words, hwords, List.map_cons, Word.moved_text, noteText_moved, commentExtra_moved]
      split
      · exact applyAll_moved space { attr := _ } (word :: more)
      · exact applyAll_moved space (withType { attr := _ } word) more

end AttributeLine

-- ---------------------------------------------------------------------------
-- Schemas under construction
-- ---------------------------------------------------------------------------

def PendingRelation.moved (f : Position → Position) (p : PendingRelation) : PendingRelation :=
  { p with position := f p.position }

namespace State

/-- The schema with its positions mapped, and more diagnostics in front. -/
def moved (f : Position → Position) (more : List Diagnostic) (s : State) : State :=
  { s with
    pending := s.pending.map (.moved f)
    typeUses := s.typeUses.map fun (type, p) => (type, f p)
    diagnostics := more ++ s.diagnostics.map (.moved f) }

theorem report_moved (s : State) (p : Problem) (position : Position) :
    (s.moved f more).report p (f position) = (s.report p position).moved f more := by
  simp [report, moved, Problem.diagnostic_moved]

theorem reportEach_moved (s : State) (p : String → Problem) (words : List Word) :
    (s.moved f more).reportEach p (words.map (.moved f)) = (s.reportEach p words).moved f more := by
  simp [reportEach, moved, Problem.diagnostic_moved]

theorem addAttributeLine_moved (s : State) (id : EntityName) (parents : Parents) (indent : Nat) (l : AttributeLine) :
    (s.moved f more).addAttributeLine id parents indent (l.moved f) =
      (s.addAttributeLine id parents indent l).moved f more := by
  have hadd : addAttribute (parents.around indent).path (l.moved f) = addAttribute (parents.around indent).path l := rfl
  rw [addAttributeLine, hadd]
  cases htype : l.typePosition <;>
    simp [addAttributeLine, moved, AttributeLine.moved, PendingRelation.moved, Reference.moved, htype]

theorem indented_moved (s : State) (l : Line) (hl : l.Carried f) :
    (s.moved f more).indented (l.moved f) = (s.indented l).moved f more := by
  have hblock : (s.moved f more).block = s.block := rfl
  have hspace : (s.moved f more).space = s.space := rfl
  unfold indented
  rw [hblock, hspace, AttributeLine.read_moved _ _ hl]
  cases s.block with
  | closed =>
    rw [hl]
    exact s.report_moved _ _
  | skipped => rfl
  | entity id parents =>
    cases AttributeLine.read s.space l with
    | ok parsed => exact s.addAttributeLine_moved ..
    | error problem => exact s.report_moved ..

theorem openEntity_moved (s : State) (l : Line) (name : Word) (rest : List Word) :
    (s.moved f more).openEntity (l.moved f) (name.moved f) (rest.map (.moved f)) =
      (s.openEntity l name rest).moved f more := by
  unfold openEntity
  rw [reportEach_moved, noteText_moved, commentExtra_moved]
  dsimp only [Word.moved_position]
  rw [report_moved]
  rw [apply_ite (moved f more)]
  rfl

theorem relation_moved (s : State) (l : Line) (hl : l.Carried f) :
    (s.moved f more).relation (l.moved f) = (s.relation l).moved f more := by
  unfold relation
  rcases hwords : l.words with _ | ⟨first, _ | ⟨source, _ | ⟨operator, _ | ⟨target, _ | ⟨extra, words⟩⟩⟩⟩⟩
  case cons.cons.cons.cons.nil =>
    simp only [Line.moved_words, hwords, List.map_cons, List.map_nil, Word.moved_text, noteText_moved, commentExtra_moved]
    cases cardinalities? operator.text with
    | none => exact s.report_moved ..
    | some cardinalities =>
      dsimp only
      rw [apply_ite (moved f more)]
      congr 1
      · exact s.report_moved ..
      · rw [hl]
        simp [moved, PendingRelation.moved]
  all_goals
    rw [Line.moved_words, hwords, hl]
    exact s.report_moved ..

theorem type_moved (s : State) (l : Line) (name : Word) (rest : List Word) :
    (s.moved f more).type (l.moved f) (name.moved f) (rest.map (.moved f)) =
      (s.type l name rest).moved f more := by
  have hbody (t : NamedType) : withBody t (rest.map (.moved f)).head? = withBody t rest.head? := by
    cases rest <;> rfl
  unfold type
  rw [← List.map_drop, reportEach_moved, noteText_moved, commentExtra_moved]
  dsimp only [Word.moved_position]
  rw [report_moved, hbody]
  rw [apply_ite (moved f more)]
  rfl

theorem closed_moved (s : State) :
    { s.moved f more with block := .closed } = ({ s with block := .closed } : State).moved f more := rfl

theorem outermost_moved (s : State) (l : Line) (hl : l.Carried f) :
    (s.moved f more).outermost (l.moved f) = (s.outermost l).moved f more := by
  unfold outermost
  rw [closed_moved, Line.moved_words]
  generalize ({ s with block := .closed } : State) = s
  cases l.words with
  | nil =>
    rw [hl]
    exact s.report_moved ..
  | cons first rest =>
    rw [List.map_cons]
    dsimp only
    rw [Word.moved_is, Word.moved_is, Word.moved_is, List.length_map, List.isEmpty_map, relation_moved s l hl]
    split
    · cases rest <;> rfl
    split
    · rfl
    cases rest with
    | nil => exact s.openEntity_moved l first []
    | cons name rest =>
      rw [List.map_cons]
      dsimp only
      split
      · exact s.type_moved l name rest
      · exact s.openEntity_moved l first (name :: rest)

theorem line_moved (s : State) (l : Line) (hl : l.Carried f) :
    (s.moved f more).line (l.moved f) = (s.line l).moved f more := by
  unfold line
  rw [Line.isBlank_moved, Line.isComment_moved, Line.moved_indent, outermost_moved s l hl, indented_moved s l hl]
  split
  · rfl
  · split
    · rfl
    · split <;> rfl

theorem foldl_moved (s : State) {lines : List Line} (h : ∀ l ∈ lines, l.Carried f) :
    (lines.map (Line.moved f)).foldl State.line (s.moved f more) = (lines.foldl State.line s).moved f more := by
  induction lines generalizing s with
  | nil => rfl
  | cons l lines ih =>
    obtain ⟨hl, hlines⟩ := List.forall_mem_cons.mp h
    rw [List.map_cons, List.foldl_cons, line_moved s l hl, ih _ hlines, List.foldl_cons]

/-- The types that nobody knows, each where it is used. -/
def typeRemarks (s : State) : List Diagnostic :=
  (s.typeUses.filter fun (type, _) => !s.knowsType type).map fun (type, p) => (Problem.unknownType type).diagnostic p

/-- The entities that nobody knows, each where a relation names it. -/
def relationRemarks (s : State) : List Diagnostic :=
  s.pending.flatMap fun p => (s.relationProblems p).map fun problem => problem.diagnostic p.position

/-- Everything that is to be said about a schema, before it is put in order. -/
def remarks (s : State) : List Diagnostic := s.diagnostics ++ s.typeRemarks ++ s.relationRemarks

theorem diagnostics_finish (s : State) : s.finish.diagnostics = inOrder s.remarks := rfl

theorem typeRemarks_moved (s : State) : (s.moved f more).typeRemarks = s.typeRemarks.map (.moved f) := by
  have hknows : (s.moved f more).knowsType = s.knowsType := rfl
  have htypeUses : (s.moved f more).typeUses = s.typeUses.map fun (type, p) => (type, f p) := rfl
  simp only [typeRemarks, hknows, htypeUses, List.filter_map, List.map_map, Function.comp_def, Problem.diagnostic_moved]

theorem relationRemarks_moved (s : State) : (s.moved f more).relationRemarks = s.relationRemarks.map (.moved f) := by
  have hproblems (p : PendingRelation) : (s.moved f more).relationProblems (p.moved f) = s.relationProblems p := rfl
  have hpending : (s.moved f more).pending = s.pending.map (.moved f) := rfl
  simp only [relationRemarks, hpending, List.flatMap_map, hproblems, List.map_flatMap, List.map_map]
  rfl

theorem remarks_moved (s : State) : (s.moved f more).remarks = more ++ s.remarks.map (.moved f) := by
  rw [remarks, remarks, typeRemarks_moved, relationRemarks_moved, List.map_append, List.map_append,
    ← List.append_assoc, ← List.append_assoc]
  rfl

theorem value_finish_moved (s : State) : (s.moved f more).finish.value = s.finish.value := by
  have hresolve (p : PendingRelation) : (s.moved f more).resolve (p.moved f) = s.resolve p := rfl
  have hpending : (s.moved f more).pending = s.pending.map (.moved f) := rfl
  simp only [finish, hpending, List.map_map, Function.comp_def, hresolve]
  rfl

/-- A map that leaves the positions of all lines alone leaves those of the schema alone. -/
theorem moved_foldl {s : State} (hs : s.moved f [] = s) {lines : List Line} (hfixed : ∀ l ∈ lines, l.moved f = l)
    (h : ∀ l ∈ lines, l.Carried f) : (lines.foldl State.line s).moved f [] = lines.foldl State.line s := by
  have hlines : lines.map (Line.moved f) = lines := (List.map_congr_left hfixed).trans lines.map_id
  have hmoved : (lines.map (Line.moved f)).foldl State.line (s.moved f []) = _ := foldl_moved s h
  rw [hlines, hs] at hmoved
  exact hmoved.symm

theorem mem_remarks_of_moved {s : State} (hs : s.moved f [] = s) (hd : d ∈ s.remarks) : f d.position = d.position := by
  have hmap : s.remarks.map (.moved f) = s.remarks.map id := by
    rw [List.map_id]
    exact (remarks_moved s).symm.trans (congrArg remarks hs)
  exact congrArg Diagnostic.position (List.map_inj_left.mp hmap d hd)

end State

end Markup

end SchemaDialects
