import Mathlib.Order.Monotone.Basic
import SchemaDialects.Proofs.Markup.Alike
import SchemaDialects.Proofs.Markup.Rejected

/-!
# Indentation

What counts about the widths in front of the lines is their order and which of them are zero. So a schema does not
change when every width is replaced by its image under a strictly monotone map that keeps zero (`value_reindent`):
the reader sees its lines as sentences (`value_readSchema_sentences`), it compares their widths with those of the
parents it keeps, and the two runs stay related by the map line by line (`State.line_reindented`).
-/

namespace SchemaDialects.Markup

open Text

-- ---------------------------------------------------------------------------
-- Sentences
-- ---------------------------------------------------------------------------

/-- A line that says this and stands nowhere. -/
def Sentence.line (t : Sentence) : Line where
  number := 0
  indent := t.indent
  words := t.words.map (⟨·, .unknown⟩)
  note := t.note.map (⟨·, .unknown⟩)
  comment := t.comment.map (⟨·, .unknown⟩)

/-- Forgets a position. -/
def nowhere (_ : Position) : Position := .unknown

theorem line_sentence (l : Line) : l.sentence.line = { l.moved nowhere with number := 0 } := by
  simp only [Sentence.line, Line.sentence, List.map_map, Option.map_map]
  rfl

theorem carried_nowhere (l : Line) : l.Carried nowhere := by
  have hnone : (l.contents.map (nowhere ·.position)).filter Position.isValid = [] :=
    List.filter_eq_nil_iff.mpr (by simp [nowhere, Position.unknown, Position.isValid])
  rw [Line.Carried, Line.position_moved, Position.merge, hnone]
  rfl

theorem value_foldl_moved {lines : List Line} (f : Position → Position) (more : List Diagnostic)
    (h : ∀ l ∈ lines, l.Carried f) :
    ((lines.map (Line.moved f)).foldl State.line { diagnostics := more }).finish.value =
      (lines.foldl State.line {}).finish.value := by
  have hstart : ({ diagnostics := more } : State) = ({} : State).moved f more := by simp [State.moved]
  rw [hstart, State.foldl_moved _ h, State.value_finish_moved]

/-- The schema comes from what the lines say, wherever they stand and whatever was wrong with their words. -/
theorem value_readSchema_sentences (text : String) :
    (readSchema text).value = (((sentences text).map Sentence.line).foldl State.line {}).finish.value := by
  have hread : (readSchema text).value =
      ((readLines text).1.foldl State.line { diagnostics := (readLines text).2 }).finish.value := rfl
  have hself : (readLines text).1.map (Line.moved id) = (readLines text).1 := by
    rw [List.map_congr_left fun l _ => Line.moved_eq_self fun _ _ => rfl, List.map_id']
  have hproblems := value_foldl_moved id (readLines text).2 fun l (_ : l ∈ (readLines text).1) => l.position_moved
  have hplaces := value_foldl_moved nowhere [] fun l (_ : l ∈ (readLines text).1) => carried_nowhere l
  have hline (s : State) (l : Line) : s.line l.sentence.line = s.line (l.moved nowhere) := by
    rw [line_sentence]
    rfl
  rw [hself] at hproblems
  rw [hread, hproblems, ← hplaces, sentences, List.map_map, List.foldl_map, List.foldl_map]
  simp only [Function.comp_apply, hline]

-- ---------------------------------------------------------------------------
-- Parents
-- ---------------------------------------------------------------------------

section

variable {f : Nat → Nat}

/-- The parents with other indentations. -/
def Parents.reindented (f : Nat → Nat) (parents : Parents) : Parents := parents.map fun p => (f p.1, p.2)

def Block.reindented (f : Nat → Nat) : Block → Block
  | .entity id parents => .entity id (parents.reindented f)
  | block => block

def Sentence.reindented (f : Nat → Nat) (t : Sentence) : Sentence := { t with indent := f t.indent }

def Line.reindented (f : Nat → Nat) (l : Line) : Line := { l with indent := f l.indent }

theorem line_reindented (t : Sentence) : (t.reindented f).line = t.line.reindented f := rfl

theorem Parents.path_reindented (parents : Parents) : (parents.reindented f).path = parents.path := by
  cases parents <;> rfl

/-- The map keeps which parents a line is inside of. -/
theorem Parents.around_reindented (hf : StrictMono f) (parents : Parents) (indent : Nat) :
    (parents.reindented f).around (f indent) = (parents.around indent).reindented f := by
  rw [around, around, reindented, reindented, List.dropWhile_map]
  simp only [Function.comp_def, hf.le_iff_le]

namespace State

/-- The schema under construction whose open block has other indentations. -/
def reindented (f : Nat → Nat) (s : State) : State := { s with block := s.block.reindented f }

theorem addAttributeLine_reindented (hf : StrictMono f) (s : State) (id : EntityName) (parents : Parents) (indent : Nat)
    (l : AttributeLine) : (s.reindented f).addAttributeLine id (parents.reindented f) (f indent) l =
      (s.addAttributeLine id parents indent l).reindented f := by
  unfold addAttributeLine
  dsimp only
  rw [Parents.around_reindented hf, Parents.path_reindented]
  rfl

theorem indented_reindented (hf : StrictMono f) (s : State) (l : Line) :
    (s.reindented f).indented (l.reindented f) = (s.indented l).reindented f := by
  have hblock : (s.reindented f).block = s.block.reindented f := rfl
  have hread : AttributeLine.read (s.reindented f).space (l.reindented f) = AttributeLine.read s.space l := rfl
  unfold indented
  rw [hblock, hread]
  cases s.block with
  | closed => rfl
  | skipped => rfl
  | entity id parents =>
    cases AttributeLine.read s.space l with
    | ok parsed => exact addAttributeLine_reindented hf s id parents l.indent parsed
    | error problem => rfl

theorem relation_reindented (s : State) (l : Line) :
    (s.reindented f).relation (l.reindented f) = (s.relation l).reindented f := by
  have hwords : (l.reindented f).words = l.words := rfl
  unfold relation
  rw [hwords]
  rcases l.words with _ | ⟨first, _ | ⟨source, _ | ⟨operator, _ | ⟨target, _ | ⟨extra, words⟩⟩⟩⟩⟩
  case cons.cons.cons.cons.nil =>
    dsimp only
    cases cardinalities? operator.text with
    | none => rfl
    | some cardinalities =>
      dsimp only
      rw [apply_ite (reindented f)]
      rfl
  all_goals rfl

theorem type_reindented (s : State) (l : Line) (name : Word) (rest : List Word) :
    (s.reindented f).type (l.reindented f) name rest = (s.type l name rest).reindented f := by
  unfold type
  dsimp only
  rw [apply_ite (reindented f)]
  rfl

theorem openEntity_reindented (s : State) (l : Line) (name : Word) (rest : List Word) :
    (s.reindented f).openEntity (l.reindented f) name rest = (s.openEntity l name rest).reindented f := by
  unfold openEntity
  dsimp only
  rw [apply_ite (reindented f)]
  rfl

theorem outermost_reindented (s : State) (l : Line) :
    (s.reindented f).outermost (l.reindented f) = (s.outermost l).reindented f := by
  have hclosed : ({ s.reindented f with block := .closed } : State) =
      ({ s with block := .closed } : State).reindented f := rfl
  have hwords : (l.reindented f).words = l.words := rfl
  unfold outermost
  rw [hclosed, hwords]
  generalize ({ s with block := .closed } : State) = s
  cases l.words with
  | nil => rfl
  | cons first rest =>
    dsimp only
    split
    · rfl
    split
    · exact relation_reindented s l
    cases rest with
    | nil => exact openEntity_reindented s l first []
    | cons name rest =>
      dsimp only
      split
      · exact type_reindented s l name rest
      · exact openEntity_reindented s l first (name :: rest)

theorem line_reindented (hf : StrictMono f) (hzero : f 0 = 0) (s : State) (l : Line) :
    (s.reindented f).line (l.reindented f) = (s.line l).reindented f := by
  have hblank : (l.reindented f).isBlank = l.isBlank := rfl
  have hcomment : (l.reindented f).isComment = l.isComment := rfl
  have hindent : (l.reindented f).indent = 0 ↔ l.indent = 0 := by
    have hinjective := hf.injective.eq_iff (a := l.indent) (b := 0)
    rwa [hzero] at hinjective
  unfold line
  rw [hblank, hcomment, outermost_reindented, indented_reindented hf, if_congr hindent rfl rfl]
  split
  · rfl
  split
  · rfl
  split <;> rfl

theorem foldl_reindented (hf : StrictMono f) (hzero : f 0 = 0) (lines : List Line) (s : State) :
    (lines.map (Line.reindented f)).foldl line (s.reindented f) = (lines.foldl line s).reindented f := by
  induction lines generalizing s with
  | nil => rfl
  | cons l lines ih => rw [List.map_cons, List.foldl_cons, line_reindented hf hzero, ih, List.foldl_cons]

theorem finish_reindented (s : State) : (s.reindented f).finish = s.finish := rfl

end State

/-- The values of two texts are the same if their sentences differ in such a map of the indentations. -/
theorem value_of_sentences (hf : StrictMono f) (hzero : f 0 = 0) {text text' : String}
    (h : sentences text' = (sentences text).map (Sentence.reindented f)) :
    (readSchema text').value = (readSchema text).value := by
  have hlines : (sentences text').map Sentence.line =
      ((sentences text).map Sentence.line).map (Line.reindented f) := by
    rw [h, List.map_map, List.map_map]
    rfl
  have hrun := State.foldl_reindented hf hzero ((sentences text).map Sentence.line) {}
  have hstart : ({} : State).reindented f = {} := rfl
  rw [hstart] at hrun
  rw [value_readSchema_sentences, value_readSchema_sentences, hlines, hrun, State.finish_reindented]

-- ---------------------------------------------------------------------------
-- Lines
-- ---------------------------------------------------------------------------

/-- The line with as many spaces in front as the map has for its width. -/
def reindentLine (f : Nat → Nat) (chars : List Char) : List Char :=
  List.replicate (f (indentWidth chars)) ' ' ++ chars.dropWhile isSpacing

/-- The text with all its lines reindented. -/
def reindent (f : Nat → Nat) (text : String) : String :=
  String.ofList (['\n'].intercalate ((linesOf text).map (reindentLine f)))

/-- The characters of a line that count. -/
def contentOf (chars : List Char) : List Char := (dropTail? ['\r'] chars).getD chars

theorem contentOf_append (h : ∀ c ∈ lead, isSpacing c = true) (rest : List Char) :
    contentOf (lead ++ rest) = lead ++ contentOf rest := by
  rcases List.eq_nil_or_concat' rest with rfl | ⟨front, d, rfl⟩
  · have hlast : lead.getLast? ≠ some '\r' := fun hlast => absurd (h _ (List.mem_of_getLast? hlast)) (by decide)
    rw [List.append_nil, contentOf, dropTail?_eq_none hlast]
    exact (List.append_nil lead).symm
  · rw [← List.append_assoc]
    by_cases hd : d = '\r'
    · subst hd
      rw [contentOf, contentOf, dropTail?_append, dropTail?_append]
      rfl
    · have hlast (cs : List Char) : (cs ++ [d]).getLast? ≠ some '\r' := by simpa using hd
      rw [contentOf, contentOf, dropTail?_eq_none (hlast _), dropTail?_eq_none (hlast _)]
      exact List.append_assoc ..

theorem head?_contentOf (h : ∀ c ∈ chars.head?, isSpacing c = false) :
    ∀ c ∈ (contentOf chars).head?, isSpacing c = false := by
  rw [contentOf]
  cases hcut : dropTail? ['\r'] chars with
  | none => exact h
  | some front =>
    rw [dropTail?_eq_some.mp hcut] at h
    cases front with
    | nil => simp
    | cons d front => exact h

theorem indentWidth_append (h : ∀ c ∈ lead, isSpacing c = true) (hrest : ∀ c ∈ rest.head?, isSpacing c = false) :
    indentWidth (lead ++ rest) = indentWidth lead := by
  induction lead with
  | nil => exact indentWidth_replicate (k := 0) hrest
  | cons c lead ih => rw [List.cons_append, indentWidth, indentWidth, ih (List.forall_mem_cons.mp h).2]

/-- Blanks in front do not count but for their width. -/
theorem sentence_spacing (h : ∀ c ∈ lead, isSpacing c = true) (place : Place) (rest : List Char) :
    (assemble place (tiles cut (lead ++ rest))).1.sentence = (assemble place (tiles cut rest)).1.sentence := by
  induction lead generalizing place with
  | nil => rfl
  | cons c lead ih =>
    obtain ⟨hc, hlead⟩ := List.forall_mem_cons.mp h
    rw [List.cons_append, tiles_cons, cut_spacing hc, List.drop_zero, List.take_zero]
    exact (ih hlead (place.afterAll [c])).trans (sentence_assemble _ _ _)

/-- What a line says is what stands behind the spacing in front of it, and how wide that is. -/
theorem sentence_readLine_append (h : ∀ c ∈ lead, isSpacing c = true) (hrest : ∀ c ∈ rest.head?, isSpacing c = false) :
    (readLine {} (lead ++ rest)).1.sentence =
      { (assemble {} (tiles cut (contentOf rest))).1.sentence with indent := indentWidth lead } := by
  have hread : (readLine {} (lead ++ rest)).1.sentence =
      { (assemble {} (tiles cut (contentOf (lead ++ rest)))).1.sentence with
        indent := indentWidth (contentOf (lead ++ rest)) } := rfl
  rw [hread, contentOf_append h, sentence_spacing h, indentWidth_append h (head?_contentOf hrest)]

theorem sentence_reindentLine (chars : List Char) :
    (readLine {} (reindentLine f chars)).1.sentence = (readLine {} chars).1.sentence.reindented f := by
  have hlead : ∀ c ∈ chars.takeWhile isSpacing, isSpacing c = true := fun c hc => List.mem_takeWhile_imp hc
  have hrest : ∀ c ∈ (chars.dropWhile isSpacing).head?, isSpacing c = false := fun c hc => by
    have hhead := List.head?_dropWhile_not isSpacing chars
    rw [Option.mem_def.mp hc] at hhead
    simpa using hhead
  have hspaces : ∀ c ∈ List.replicate (f (indentWidth chars)) ' ', isSpacing c = true := fun c hc => by
    rw [List.eq_of_mem_replicate hc]
    rfl
  have hparts := List.takeWhile_append_dropWhile (p := isSpacing) (l := chars)
  have hwidth : indentWidth chars = indentWidth (chars.takeWhile isSpacing) := by
    conv_lhs => rw [← hparts]
    exact indentWidth_append hlead hrest
  have hwide (n : Nat) : indentWidth (List.replicate n ' ') = n := by
    rw [← List.append_nil (List.replicate n ' '), indentWidth_replicate (by simp)]
  rw [reindentLine, sentence_readLine_append hspaces hrest, hwide]
  conv_rhs => rw [← hparts, sentence_readLine_append hlead hrest, ← hwidth]
  rfl

/-- Every line says the same with another indentation. -/
theorem sentences_reindent (f : Nat → Nat) (text : String) :
    sentences (reindent f text) = (sentences text).map (Sentence.reindented f) := by
  have hfree : ∀ chars ∈ (linesOf text).map (reindentLine f), '\n' ∉ chars := by
    simp only [List.forall_mem_map, reindentLine, List.mem_append, not_or]
    refine fun chars hchars => ⟨fun hmem => ?_, fun hmem => ?_⟩
    · exact absurd (List.eq_of_mem_replicate hmem) (by decide)
    · exact free_linesOf text chars hchars ((List.dropWhile_suffix isSpacing).subset hmem)
  have hne : (linesOf text).map (reindentLine f) ≠ [] := fun hnil =>
    pieces_ne_nil (List.map_eq_nil_iff.mp hnil)
  have hlines : linesOf (reindent f text) = (linesOf text).map (reindentLine f) := by
    rw [linesOf, reindent, String.toList_ofList, splitAt_intercalate hne hfree]
  have hsentences (t : String) : sentences t = (linesOf t).map fun chars => (readLine {} chars).1.sentence :=
    sentences_readLinesFrom {} (linesOf t)
  rw [hsentences, hsentences, hlines, List.map_map, List.map_map]
  exact List.map_congr_left fun chars _ => sentence_reindentLine chars

end

/-- Only the order of the indentations counts, and which lines have none. -/
theorem value_reindent {f : Nat → Nat} (hf : StrictMono f) (hzero : f 0 = 0) (text : String) :
    ∃ db, (readSchema text).value = some db ∧ (readSchema (reindent f text)).value = some db :=
  ⟨_, rfl, value_of_sentences hf hzero (sentences_reindent f text)⟩

/-- Tabs, a dedent to a width that no line above has, and attributes nested below it. -/
def uneven : String := "users\n\tid int pk\n   home json\n\t   city text\n\t  zip text\n\nrel users(id) -> users\n"

theorem value_reindent_squares :
    StrictMono (fun n : Nat => n * n) ∧
      reindent (fun n => n * n) uneven =
        "users\n    id int pk\n         home json\n                         city text\n" ++
          "                zip text\n\nrel users(id) -> users\n" ∧
      ∃ db, (readSchema uneven).value = some db ∧ (readSchema (reindent (fun n => n * n) uneven)).value = some db :=
  have hsquare : StrictMono (fun n : Nat => n * n) := fun _ _ h => Nat.mul_self_lt_mul_self h
  ⟨hsquare, by decide +kernel, value_reindent hsquare rfl uneven⟩

end SchemaDialects.Markup
