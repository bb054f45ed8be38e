import SchemaDialects.Proofs.Diagram.Quotations
import SchemaDialects.Proofs.TextLaws

/-!
# Commands of a drawing

A DOT text is cut at its quotes (`cut`), then into statements at the semicolons and braces outside quotes, and the
statements are told apart by what stands between their strings. A line with one statement stands for its command,
wherever it is written (`tells_line`).
-/

namespace SchemaDialects.Diagram.Dot

open Text

-- ---------------------------------------------------------------------------
-- What a drawing shows
-- ---------------------------------------------------------------------------

structure DrawnNode where
  id : String
  /-- The fields of the record, as they are spelled. -/
  fields : List (List Char)

structure DrawnEdge where
  source : String
  target : String
  sourceText : String
  targetText : String
  label : Option String

structure Cluster where
  label : String := ""
  nodes : List DrawnNode := []

structure Drawing where
  clusters : List Cluster := []
  /-- The nodes outside clusters. -/
  nodes : List DrawnNode := []
  edges : List DrawnEdge := []

-- ---------------------------------------------------------------------------
-- Statements
-- ---------------------------------------------------------------------------

/-- What stands in front of a semicolon or brace. -/
structure Statement where
  body : List Piece
  mark : Char

def isStatementMark (c : Char) : Bool := c = ';' || c = '\x7b' || c = '\x7d'

/-- Cuts pieces into statements, without the blanks in front of them. Nothing may be left over at the end. -/
def statements (body : List Piece) : List Piece → Option (List Statement)
  | [] => if body = [] then some [] else none
  | .plain c :: ps =>
    if isStatementMark c then (⟨body, c⟩ :: ·) <$> statements [] ps
    else if isBlank c ∧ body = [] then statements [] ps
    else statements (body ++ [.plain c]) ps
  | .string s :: ps => statements (body ++ [.string s]) ps

/-- The text around the strings, each of which is one quote here. -/
def Statement.shape (s : Statement) : List Char :=
  s.body.map fun | .plain c => c | .string _ => '"'

def Statement.strings (s : Statement) : List (List Char) :=
  s.body.filterMap fun | .plain _ => none | .string spelled => some spelled

/-- What a statement asks for. -/
inductive Command
  | beginGraph
  | beginCluster
  | finish
  /-- A setting that draws nothing. -/
  | setting
  | title (label : String)
  | node (n : DrawnNode)
  | edge (e : DrawnEdge)

/-- The statements of a drawing by their shapes. -/
def Statement.command? (s : Statement) : Option Command :=
  match s.mark, s.strings with
  | '\x7b', [] =>
    if s.shape = "digraph schema ".toList then some .beginGraph
    else if "subgraph cluster_".toList.isPrefixOf s.shape then some .beginCluster
    else none
  | '\x7d', [] => if s.shape = [] then some .finish else none
  | ';', [] => if s.shape = "rankdir=LR".toList then some .setting else none
  | ';', [a] =>
    if s.shape = "label=\"".toList then some (.title (decode a))
    else if s.shape = "node [shape=record, fontname=\", fontsize=10]".toList then some .setting
    else if s.shape = "edge [fontname=\", fontsize=9]".toList then some .setting
    else none
  | ';', [id, label] =>
    if s.shape = "\" [label=\"]".toList then (fields? label).map fun fields => .node ⟨decode id, fields⟩ else none
  | ';', [a, b, c, d] =>
    if s.shape = "\" -> \" [taillabel=\", headlabel=\"]".toList then
      some (.edge ⟨decode a, decode b, decode c, decode d, none⟩)
    else none
  | ';', [a, b, c, d, e] =>
    if s.shape = "\" -> \" [taillabel=\", headlabel=\", label=\"]".toList then
      some (.edge ⟨decode a, decode b, decode c, decode d, some (decode e)⟩)
    else none
  | _, _ => none

/-- The commands of a text. -/
def commands? (cs : List Char) : Option (List Command) := do
  let pieces ← cut .outside cs
  let parts ← statements [] pieces
  parts.mapM Statement.command?

-- ---------------------------------------------------------------------------
-- Statements in a text
-- ---------------------------------------------------------------------------

/-- The text of a piece. -/
def Piece.chars : Piece → List Char
  | .plain c => [c]
  | .string spelled => '"' :: (spelled ++ ['"'])

def isInner (c : Char) : Bool := c ≠ '"' && !isStatementMark c

/-- A piece of the inside of a statement. -/
def Piece.Inner : Piece → Prop
  | .plain c => isInner c = true
  | .string spelled => Sealed spelled

/-- Characters as pieces. -/
def plainPieces (s : String) : List Piece := s.toList.map .plain

/-- Wherever a statement may begin, the text stands for these commands. -/
def Says (cs : List Char) (commands : List Command) : Prop :=
  ∀ rest, commands? (cs ++ rest) = (commands ++ ·) <$> commands? rest

section

variable {as bs cs indent : List Char} {body : List Piece} {ks ls : List Command}

theorem isInner_iff : isInner c = true ↔ c ≠ '"' ∧ isStatementMark c = false := by
  simp [isInner]

theorem cut_pieces (h : ∀ p ∈ body, p.Inner) (rest : List Char) :
    cut .outside (body.flatMap Piece.chars ++ rest) = (body ++ ·) <$> cut .outside rest := by
  induction body with
  | nil => simp
  | cons p body ih =>
    obtain ⟨hp, hbody⟩ := List.forall_mem_cons.mp h
    rw [List.flatMap_cons, List.append_assoc]
    cases p with
    | plain c =>
      rw [Piece.chars, List.singleton_append, cut, if_neg (isInner_iff.mp hp).1, ih hbody]
      simp [Function.comp_def]
    | string spelled =>
      rw [Piece.chars, List.cons_append, cut, if_pos rfl, List.append_assoc, hp, List.singleton_append, cut,
        if_pos rfl, ih hbody]
      simp [Function.comp_def]

theorem statements_pieces (h : ∀ p ∈ body, p.Inner)
    (hbegin : before ≠ [] ∨ ∀ c, body.head? = some (.plain c) → isBlank c = false) (more : List Piece) :
    statements before (body ++ more) = statements (before ++ body) more := by
  induction body generalizing before with
  | nil => simp
  | cons p body ih =>
    obtain ⟨hp, hbody⟩ := List.forall_mem_cons.mp h
    have hnext : statements (before ++ [p]) (body ++ more) = statements (before ++ p :: body) more := by
      rw [ih hbody (.inl (by simp)), List.append_assoc, List.singleton_append]
    rw [← hnext, List.cons_append]
    cases p with
    | plain c =>
      -- Only a blank in front of the whole statement would be dropped.
      have hinside : ¬ (isBlank c = true ∧ before = []) := by
        rintro ⟨hblank, rfl⟩
        exact Bool.false_ne_true ((hbegin.resolve_left (· rfl) c rfl).symm.trans hblank)
      rw [statements, (isInner_iff.mp hp).2, if_neg Bool.false_ne_true, if_neg hinside]
    | string spelled => rw [statements]

theorem Says.append (ha : Says as ks) (hb : Says bs ls) : Says (as ++ bs) (ks ++ ls) := by
  intro rest
  rw [List.append_assoc, ha, hb]
  simp [Function.comp_def]

theorem says_nil : Says [] [] := fun rest => by simp

/-- A kind of characters without quotes and marks. -/
theorem isInner_of {p : Char → Bool} (hp : ['"', ';', '\x7b', '\x7d'].any p = false) (h : p c = true) :
    isInner c = true := by
  have hother : c ∉ ['"', ';', '\x7b', '\x7d'] := fun hc => List.any_eq_false.mp hp c hc h
  simpa [isInner, isStatementMark, and_assoc] using hother

theorem says_blank (h : isBlank c = true) : Says [c] [] := by
  obtain ⟨hquote, hmark⟩ := isInner_iff.mp (isInner_of (p := isBlank) (by decide) h)
  intro rest
  rw [List.singleton_append, commands?, cut, if_neg hquote, commands?]
  cases cut .outside rest with
  | none => rfl
  | some pieces => simp [statements, h, hmark]

theorem says_blanks (h : ∀ c ∈ indent, isBlank c = true) : Says indent [] := by
  induction indent with
  | nil => exact says_nil
  | cons c indent ih =>
    obtain ⟨hc, hindent⟩ := List.forall_mem_cons.mp h
    exact (says_blank hc).append (ih hindent)

/-- A statement stands for its command. -/
theorem says_statement (hbody : ∀ p ∈ body, p.Inner) (hbegin : ∀ c, body.head? = some (.plain c) → isBlank c = false)
    (hmark : isStatementMark mark = true) (hcommand : Statement.command? ⟨body, mark⟩ = some k) :
    Says (body.flatMap Piece.chars ++ [mark]) [k] := by
  have hquote : mark ≠ '"' := by rintro rfl; exact absurd hmark (by decide)
  intro rest
  rw [List.append_assoc, commands?, cut_pieces hbody, List.singleton_append, cut, if_neg hquote, commands?]
  cases cut .outside rest with
  | none => rfl
  | some pieces =>
    simp only [Option.map_eq_map, Option.map_some, Option.bind_eq_bind, Option.bind_some]
    rw [statements_pieces hbody (.inr hbegin), List.nil_append, statements, if_pos hmark]
    cases statements [] pieces with
    | none => rfl
    | some parts =>
      simp only [Option.map_eq_map, Option.map_some, Option.bind_some, List.mapM_cons, hcommand]
      cases parts.mapM Statement.command? <;> rfl

end

-- ---------------------------------------------------------------------------
-- Lines of commands
-- ---------------------------------------------------------------------------

/-- Lines stand for commands. -/
def Tells (lines : List String) (commands : List Command) : Prop :=
  Says (lines.flatMap (·.toList ++ ['\n'])) commands

section

variable {ks ls : List Command} {lines more : List String}

theorem Tells.append (h : Tells lines ks) (hmore : Tells more ls) : Tells (lines ++ more) (ks ++ ls) := by
  rw [Tells, List.flatMap_append]
  exact Says.append h hmore

theorem tells_nil : Tells [] [] := says_nil

theorem Tells.flatMap {f : α → List String} {k : α → List Command} {l : List α} (h : ∀ a ∈ l, Tells (f a) (k a)) :
    Tells (l.flatMap f) (l.flatMap k) := by
  induction l with
  | nil => exact tells_nil
  | cons a l ih =>
    obtain ⟨ha, hl⟩ := List.forall_mem_cons.mp h
    exact ha.append (ih hl)

theorem Tells.map {f : α → String} {k : α → Command} {l : List α} (h : ∀ a ∈ l, Tells [f a] [k a]) :
    Tells (l.map f) (l.map k) := by
  rw [List.map_eq_flatMap, List.map_eq_flatMap]
  exact Tells.flatMap h

/-- A line with one statement behind blanks. -/
theorem tells_line {line : String} (indent : String) (body : List Piece) (mark : Char)
    (hline : line.toList = indent.toList ++ (body.flatMap Piece.chars ++ [mark]))
    (hindent : indent.toList.all isBlank = true)
    (hbody : ∀ p ∈ body, p.Inner) (hbegin : ∀ c, body.head? = some (.plain c) → isBlank c = false)
    (hmark : isStatementMark mark = true) (hcommand : Statement.command? ⟨body, mark⟩ = some k) :
    Tells [line] [k] := by
  have hsays := (says_blanks (List.all_eq_true.mp hindent)).append ((says_statement hbody hbegin hmark hcommand).append
    (says_blank (by decide : isBlank '\n' = true)))
  rw [Tells, List.flatMap_singleton, hline]
  simpa using hsays

theorem tells_empty : Tells [""] [] := says_blank (by decide)

theorem inner_plainPieces {s : String} (h : s.toList.all isInner = true) : ∀ p ∈ plainPieces s, p.Inner :=
  List.forall_mem_map.mpr (List.all_eq_true.mp h)

/-- A string and the text behind it. -/
theorem inner_string {spelled : List Char} {s : String} (hspelled : Sealed spelled)
    (h : s.toList.all isInner = true) : ∀ p ∈ .string spelled :: plainPieces s, p.Inner :=
  List.forall_mem_cons.mpr ⟨hspelled, inner_plainPieces h⟩

theorem inner_append {front back : List Piece} (hfront : ∀ p ∈ front, p.Inner) (hback : ∀ p ∈ back, p.Inner) :
    ∀ p ∈ front ++ back, p.Inner :=
  List.forall_mem_append.mpr ⟨hfront, hback⟩

end

end SchemaDialects.Diagram.Dot
