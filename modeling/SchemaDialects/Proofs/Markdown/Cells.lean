import SchemaDialects.Dialect
import SchemaDialects.Proofs.TextLaws

/-!
# Tables read back

A Markdown text is read line by line, and a line as a row of a pipe table: its cells stand between the bars that no
backslash escapes. Cells are written as they are, so a row is read back as one row with its own cells exactly if no
cell holds a line break or such a bar (`rowLine_iff`). `columns_four_cells_iff`: what this means for the tables of a
whole document.
-/

namespace SchemaDialects.Markdown

open Text
open Diagram (Column Detail Graph Node)

-- ---------------------------------------------------------------------------
-- Reading rows
-- ---------------------------------------------------------------------------

def isLineBreak (c : Char) : Bool := c = '\n' || c = '\r'

/-- Cuts a text into lines. A carriage return and a line feed behind it end one line. -/
def linesFrom (line : List Char) : List Char → List (List Char)
  | [] => if line = [] then [] else [line]
  | c :: cs =>
    if c = '\r' ∧ cs.head? = some '\n' then linesFrom line cs
    else if isLineBreak c then line :: linesFrom [] cs
    else linesFrom (line ++ [c]) cs

/-- Whether a character escapes the next one. -/
def isEscape (escaped : Bool) (c : Char) : Bool := c = '\\' && !escaped

/-- Cuts a line at the bars that are not escaped. -/
def segmentsFrom (segment : List Char) (escaped : Bool) : List Char → List (List Char)
  | [] => [segment]
  | c :: cs =>
    if c = '|' ∧ escaped = false then segment :: segmentsFrom [] false cs
    else segmentsFrom (segment ++ [c]) (isEscape escaped c) cs

/-- The cells of a row. Bars at its two ends are its borders. -/
def cells (line : List Char) : List (List Char) :=
  let segments := segmentsFrom [] false line
  let segments := if segments.head? = some [] then segments.tail else segments
  if segments.getLast? = some [] then segments.dropLast else segments

/-- The rows of a text, each with its cells. -/
def rows (text : String) : List (List (List Char)) := (linesFrom [] text.toList).map cells

/-- The number of bars that are not escaped. -/
def bareBars (escaped : Bool) : List Char → Nat
  | [] => 0
  | c :: cs => (if c = '|' ∧ escaped = false then 1 else 0) + bareBars (isEscape escaped c) cs

/-- A text that is one cell, wherever it is written. -/
structure Fits (cell : String) : Prop where
  unbroken : ∀ c ∈ cell.toList, isLineBreak c = false
  unbarred : bareBars false cell.toList = 0

theorem fits_iff {cell : String} : Fits cell ↔ cell.toList.any isLineBreak = false ∧ bareBars false cell.toList = 0 := by
  simp only [List.any_eq_false, Bool.not_eq_true]
  exact ⟨fun h => ⟨h.unbroken, h.unbarred⟩, fun h => ⟨h.1, h.2⟩⟩

instance (cell : String) : Decidable (Fits cell) := decidable_of_iff' _ fits_iff

-- ---------------------------------------------------------------------------
-- Bars
-- ---------------------------------------------------------------------------

section

variable {as bs cs line segment : List Char} {escaped : Bool}

/-- Whether the character behind a text is escaped. -/
def escapedAfter (escaped : Bool) (cs : List Char) : Bool := cs.foldl isEscape escaped

theorem escapedAfter_concat (h : c ≠ '\\') : escapedAfter escaped (cs ++ [c]) = false := by
  simp [escapedAfter, isEscape, h]

theorem segmentsFrom_append_bar (h : escapedAfter escaped as = false) :
    segmentsFrom segment escaped (as ++ '|' :: bs) = segmentsFrom segment escaped as ++ segmentsFrom [] false bs := by
  induction as generalizing segment escaped with
  | nil =>
    obtain rfl : escaped = false := h
    simp [segmentsFrom]
  | cons a as ih =>
    rw [List.cons_append, segmentsFrom, segmentsFrom]
    split
    · rename_i hbar
      obtain ⟨rfl, rfl⟩ := hbar
      rw [@ih [] false h, List.cons_append]
    · exact ih h

theorem length_segmentsFrom : (segmentsFrom segment escaped cs).length = bareBars escaped cs + 1 := by
  induction cs generalizing segment escaped with
  | nil => rfl
  | cons c cs ih =>
    rw [segmentsFrom, bareBars]
    split
    · rename_i hbar
      obtain ⟨rfl, rfl⟩ := hbar
      rw [List.length_cons, ih, Nat.add_comm 1]
      rfl
    · rw [ih, Nat.zero_add]

theorem bareBars_append :
    bareBars escaped (as ++ bs) = bareBars escaped as + bareBars (escapedAfter escaped as) bs := by
  induction as generalizing escaped with
  | nil => simp [bareBars, escapedAfter]
  | cons a as ih =>
    rw [List.cons_append, bareBars, bareBars, ih, Nat.add_assoc]
    rfl

theorem bareBars_eq_zero (h : '|' ∉ cs) : bareBars escaped cs = 0 := by
  induction cs generalizing escaped with
  | nil => rfl
  | cons c cs ih =>
    obtain ⟨hc, hcs⟩ := List.ne_and_not_mem_of_not_mem_cons h
    rw [bareBars, ih hcs, if_neg fun hbar => hc hbar.1.symm]

/-- A line with borders, and with the same character on both sides of each cell. -/
def framed (edge : Char) (parts : List String) : List Char :=
  '|' :: parts.flatMap fun part => edge :: part.toList ++ [edge, '|']

theorem cells_framed (hedge : edge = ' ' ∨ edge = '-') (parts : List String) :
    cells (framed edge parts) = parts.flatMap fun part => segmentsFrom [] false (edge :: part.toList ++ [edge]) := by
  have hslash : edge ≠ '\\' := by rcases hedge with rfl | rfl <;> decide
  have hparts : segmentsFrom [] false (parts.flatMap fun part => edge :: part.toList ++ [edge, '|']) =
      (parts.flatMap fun part => segmentsFrom [] false (edge :: part.toList ++ [edge])) ++ [[]] := by
    induction parts with
    | nil => rfl
    | cons part parts ih =>
      have hpart : ∀ rest,
          edge :: part.toList ++ [edge, '|'] ++ rest = edge :: part.toList ++ [edge] ++ '|' :: rest := by simp
      rw [List.flatMap_cons, hpart, segmentsFrom_append_bar (escapedAfter_concat hslash), ih, List.flatMap_cons,
        List.append_assoc]
  have hline : segmentsFrom [] false (framed edge parts) =
      [] :: segmentsFrom [] false (parts.flatMap fun part => edge :: part.toList ++ [edge, '|']) := by
    rw [framed, segmentsFrom, if_pos (And.intro rfl rfl)]
  simp only [cells, hline, hparts, List.head?_cons, List.tail_cons, if_true, List.getLast?_concat, List.dropLast_concat]

/-- Bars in the parts are the only cells too many. -/
theorem length_cells_framed_iff (hedge : edge = ' ' ∨ edge = '-') (parts : List String) :
    (cells (framed edge parts)).length = parts.length ↔ ∀ part ∈ parts, bareBars false part.toList = 0 := by
  have hslash : isEscape false edge = false := by rcases hedge with rfl | rfl <;> rfl
  have hbar : '|' ≠ edge := by rcases hedge with rfl | rfl <;> decide
  have hpart : ∀ part : List Char,
      (segmentsFrom [] false (edge :: part ++ [edge])).length = bareBars false part + 1 := by
    intro part
    have hend : bareBars (escapedAfter false part) [edge] = 0 := bareBars_eq_zero (by simpa using hbar)
    rw [length_segmentsFrom, List.cons_append, bareBars, if_neg fun h => hbar h.1.symm, Nat.zero_add, hslash,
      bareBars_append, hend, Nat.add_zero]
  rw [cells_framed hedge]
  have hle : ∀ parts : List String, parts.length ≤
      (parts.flatMap fun part => segmentsFrom [] false (edge :: part.toList ++ [edge])).length := by
    intro parts
    induction parts with
    | nil => exact Nat.le_refl _
    | cons part parts ih =>
      rw [List.flatMap_cons, List.length_append, hpart, List.length_cons]
      omega
  induction parts with
  | nil => simp
  | cons part parts ih =>
    rw [List.forall_mem_cons, List.flatMap_cons, List.length_append, hpart, List.length_cons]
    refine Iff.trans ?_ (and_congr Iff.rfl ih)
    have := hle parts
    omega

end

-- ---------------------------------------------------------------------------
-- Lines
-- ---------------------------------------------------------------------------

section

variable {as bs cs line : List Char}

theorem linesFrom_append_feed :
    linesFrom line (as ++ '\n' :: bs) = linesFrom line (as ++ ['\n']) ++ linesFrom [] bs := by
  induction as generalizing line with
  | nil => simp [linesFrom, isLineBreak]
  | cons a as ih =>
    have hhead : (as ++ '\n' :: bs).head? = (as ++ ['\n']).head? := by cases as <;> rfl
    rw [List.cons_append, List.cons_append, linesFrom, linesFrom, hhead]
    split
    · exact ih
    · split
      · rw [ih, List.cons_append]
      · exact ih

theorem linesFrom_unbroken (h : ∀ c ∈ cs, isLineBreak c = false) :
    linesFrom line (cs ++ ['\n']) = [line ++ cs] := by
  induction cs generalizing line with
  | nil => simp [linesFrom, isLineBreak]
  | cons c cs ih =>
    obtain ⟨hc, hcs⟩ := List.forall_mem_cons.mp h
    have hreturn : c ≠ '\r' := by rintro rfl; exact absurd hc (by decide)
    rw [List.cons_append, linesFrom, if_neg fun h => hreturn h.1, hc, if_neg Bool.false_ne_true, ih hcs,
      List.append_assoc, List.singleton_append]

theorem linesFrom_ne_nil (h : cs ≠ []) : linesFrom line cs ≠ [] := by
  induction cs generalizing line with
  | nil => exact absurd rfl h
  | cons c cs ih =>
    rw [linesFrom]
    split
    · rename_i hpair
      exact ih fun hnil => by simp [hnil] at hpair
    · split
      · exact List.cons_ne_nil _ _
      · cases cs with
        | nil => simp [linesFrom]
        | cons d cs => exact ih (List.cons_ne_nil d cs)

/-- A break in front of something else makes a further line. -/
theorem two_le_linesFrom (h : ∃ c ∈ as, isLineBreak c = true) (hb : isLineBreak b = false) :
    2 ≤ (linesFrom line (as ++ b :: bs)).length := by
  induction as generalizing line with
  | nil => simp at h
  | cons a as ih =>
    have hlater : isLineBreak a = true ∨ ∃ c ∈ as, isLineBreak c = true := by simpa using h
    rw [List.cons_append, linesFrom]
    split
    · -- The line feed behind the carriage return is a break as well, and what stands behind it is not lost.
      rename_i hpair
      refine ih ?_
      cases as with
      | nil =>
        obtain rfl := Option.some.inj hpair.2
        exact absurd hb (by decide)
      | cons d as =>
        obtain rfl := Option.some.inj hpair.2
        exact ⟨'\n', List.mem_cons_self, rfl⟩
    · split
      · have hmore : linesFrom [] (as ++ b :: bs) ≠ [] := linesFrom_ne_nil (by simp)
        have := List.length_pos_iff.mpr hmore
        rw [List.length_cons]
        omega
      · rename_i hbreak
        exact ih (hlater.resolve_left hbreak)

end

-- ---------------------------------------------------------------------------
-- Rows that are written
-- ---------------------------------------------------------------------------

/-- The rows that are read of lines. -/
def rowsOf (lines : List String) : List (List (List Char)) := rows (ofLines lines)

theorem rowsOf_cons (line : String) (lines : List String) : rowsOf (line :: lines) = rowsOf [line] ++ rowsOf lines := by
  simp only [rowsOf, rows, toList_ofLines, List.flatMap_cons, List.flatMap_nil, List.append_nil, List.append_assoc,
    List.singleton_append]
  rw [linesFrom_append_feed, List.map_append]

theorem rowsOf_append (lines more : List String) : rowsOf (lines ++ more) = rowsOf lines ++ rowsOf more := by
  induction lines with
  | nil => rfl
  | cons line lines ih => rw [List.cons_append, rowsOf_cons, ih, rowsOf_cons line lines, List.append_assoc]

theorem rowsOf_flatMap (f : α → List String) (l : List α) : rowsOf (l.flatMap f) = l.flatMap fun a => rowsOf (f a) := by
  induction l with
  | nil => rfl
  | cons a l ih => rw [List.flatMap_cons, rowsOf_append, ih, List.flatMap_cons]

section

variable {edge : Char} {part line : String} {parts : List String}

theorem linesFrom_framed (hedge : edge = ' ' ∨ edge = '-')
    (h : ∀ part ∈ parts, ∀ c ∈ part.toList, isLineBreak c = false) :
    linesFrom [] (framed edge parts ++ ['\n']) = [framed edge parts] := by
  have hunbroken : isLineBreak edge = false := by rcases hedge with rfl | rfl <;> rfl
  refine linesFrom_unbroken (List.forall_mem_cons.mpr ⟨rfl, fun c hc => ?_⟩)
  obtain ⟨part, hpart, hc⟩ := List.mem_flatMap.mp hc
  rcases List.mem_cons.mp hc with rfl | hc
  · exact hunbroken
  · rcases List.mem_append.mp hc with hc | hc
    · exact h part hpart c hc
    · rcases List.mem_cons.mp hc with rfl | hc
      · exact hunbroken
      · rw [List.mem_singleton.mp hc]
        rfl

theorem two_le_linesFrom_framed (hedge : edge = ' ' ∨ edge = '-') (hpart : part ∈ parts) (hc : c ∈ part.toList)
    (hbreak : isLineBreak c = true) : 2 ≤ (linesFrom [] (framed edge parts ++ ['\n'])).length := by
  have hunbroken : isLineBreak edge = false := by rcases hedge with rfl | rfl <;> rfl
  obtain ⟨before, after, rfl⟩ := List.append_of_mem hpart
  have hsplit : framed edge (before ++ part :: after) ++ ['\n'] =
      framed edge before ++ edge :: part.toList ++ edge :: (framed edge after ++ ['\n']) := by
    simp [framed]
  rw [hsplit]
  exact two_le_linesFrom ⟨c, by simp [hc], hbreak⟩ hunbroken

/-- A line with borders is one row with as many cells as were written, exactly if these fit. -/
theorem rowsOf_framed_iff (hedge : edge = ' ' ∨ edge = '-') (hline : line.toList = framed edge parts) :
    (∃ row, rowsOf [line] = [row] ∧ row.length = parts.length) ↔ ∀ part ∈ parts, Fits part := by
  have hrows : rowsOf [line] = (linesFrom [] (framed edge parts ++ ['\n'])).map cells := by
    rw [rowsOf, rows, toList_ofLines, List.flatMap_singleton, hline]
  rw [hrows]
  constructor
  · rintro ⟨row, hrow, hlength⟩
    have hunbroken : ∀ part ∈ parts, ∀ c ∈ part.toList, isLineBreak c = false := by
      intro part hpart c hc
      refine Bool.eq_false_iff.mpr fun hbreak => ?_
      have htwo := two_le_linesFrom_framed hedge hpart hc hbreak
      rw [← List.length_map cells, hrow, List.length_singleton] at htwo
      omega
    rw [linesFrom_framed hedge hunbroken] at hrow
    obtain rfl := List.singleton_inj.mp hrow
    have hunbarred := (length_cells_framed_iff hedge parts).mp hlength
    exact fun part hpart => ⟨hunbroken part hpart, hunbarred part hpart⟩
  · intro h
    rw [linesFrom_framed hedge fun part hpart => (h part hpart).unbroken]
    exact ⟨_, rfl, (length_cells_framed_iff hedge parts).mpr fun part hpart => (h part hpart).unbarred⟩

end

/-- The separators of a line as borders. -/
theorem framed_eq (edge : Char) (first : String) (parts : List String) :
    framed edge (first :: parts) =
      ['|', edge] ++ [edge, '|', edge].intercalate ((first :: parts).map String.toList) ++ [edge, '|'] := by
  induction parts generalizing first with
  | nil => simp [framed, List.intercalate_singleton]
  | cons second parts ih =>
    have hsecond : framed edge (first :: second :: parts) =
        '|' :: edge :: first.toList ++ edge :: framed edge (second :: parts) := by
      simp [framed]
    rw [hsecond, ih second]
    simp only [List.map_cons, List.intercalate_cons_cons]
    simp

theorem toList_rowLine {widths : List Nat} {row : Row} (h : List.zipWith pad row widths ≠ []) :
    (rowLine widths row).toList = framed ' ' (List.zipWith pad row widths) := by
  obtain ⟨first, parts, hparts⟩ := List.exists_cons_of_ne_nil h
  rw [rowLine, hparts, framed_eq]
  simp only [String.toList_append, String.toList_intercalate]
  rfl

-- ---------------------------------------------------------------------------
-- Rows of a table
-- ---------------------------------------------------------------------------

theorem length_columnWidths {first : Row} {rest : List Row} (h : ∀ row ∈ rest, row.length = first.length) :
    (columnWidths (first :: rest)).length = first.length := by
  have hfold : ∀ (lists : List (List Nat)) (widths : List Nat), (∀ l ∈ lists, l.length = widths.length) →
      (lists.foldl (List.zipWith max) widths).length = widths.length := by
    intro lists
    induction lists with
    | nil => exact fun _ _ => rfl
    | cons l lists ih =>
      intro widths hlists
      obtain ⟨hl, hlists⟩ := List.forall_mem_cons.mp hlists
      have hzip : (List.zipWith max widths l).length = widths.length := by rw [List.length_zipWith, hl, Nat.min_self]
      rw [List.foldl_cons, ih _ (by rwa [hzip]), hzip]
  rw [columnWidths, List.map_cons]
  refine (hfold _ _ ?_).trans (List.length_map _)
  simpa using h

theorem fits_pad {cell : String} {width : Nat} : Fits (pad cell width) ↔ Fits cell := by
  have hlist : (pad cell width).toList = cell.toList ++ List.replicate (width - displayWidth cell) ' ' := by
    simp [pad, spaces]
  have hbars : bareBars false (pad cell width).toList = bareBars false cell.toList := by
    have hpadding : ∀ n escaped, bareBars escaped (List.replicate n ' ') = 0 := fun n escaped =>
      bareBars_eq_zero (by simp)
    rw [hlist, bareBars_append, hpadding, Nat.add_zero]
  constructor
  · intro h
    exact ⟨fun c hc => h.unbroken c (by simp [hlist, hc]), hbars ▸ h.unbarred⟩
  · intro h
    refine ⟨fun c hc => ?_, hbars.trans h.unbarred⟩
    rcases List.mem_append.mp (hlist ▸ hc) with hc | hc
    · exact h.unbroken c hc
    · rw [List.eq_of_mem_replicate hc]
      rfl

theorem forall_zipWith_pad {row : Row} {widths : List Nat} (h : widths.length = row.length) :
    (∀ cell ∈ List.zipWith pad row widths, Fits cell) ↔ ∀ cell ∈ row, Fits cell := by
  induction row generalizing widths with
  | nil => simp
  | cons cell row ih =>
    obtain ⟨width, widths, rfl⟩ := List.exists_cons_of_length_eq_add_one h
    rw [List.zipWith_cons_cons, List.forall_mem_cons, List.forall_mem_cons, fits_pad, ih (Nat.succ.inj h)]

/-- A row is read back as one row with its cells exactly if these fit, whatever the widths. -/
theorem rowLine_iff {row : Row} {widths : List Nat} (hne : row ≠ []) (h : widths.length = row.length) :
    (∃ read, rowsOf [rowLine widths row] = [read] ∧ read.length = row.length) ↔ ∀ cell ∈ row, Fits cell := by
  have hlength : (List.zipWith pad row widths).length = row.length := by rw [List.length_zipWith, h, Nat.min_self]
  have hpadded : List.zipWith pad row widths ≠ [] :=
    List.ne_nil_of_length_pos (hlength ▸ List.length_pos_iff.mpr hne)
  rw [← forall_zipWith_pad h, ← rowsOf_framed_iff (.inl rfl) (toList_rowLine hpadded), hlength]

theorem ruleLine_row {widths : List Nat} (h : widths ≠ []) :
    ∃ read, rowsOf [ruleLine widths] = [read] ∧ read.length = widths.length := by
  have hline : (ruleLine widths).toList = framed '-' (widths.map fun n => String.ofList (List.replicate n '-')) := by
    obtain ⟨first, rest, rfl⟩ := List.exists_cons_of_ne_nil h
    rw [ruleLine, List.map_cons, framed_eq]
    simp only [String.toList_append, String.toList_intercalate]
    rfl
  have hrow := (rowsOf_framed_iff (.inr rfl) hline).mpr ?_
  · rwa [List.length_map] at hrow
  · refine List.forall_mem_map.mpr fun n _ => ⟨fun c hc => ?_, bareBars_eq_zero ?_⟩
    · rw [String.toList_ofList] at hc
      rw [List.eq_of_mem_replicate hc]
      rfl
    · simp

-- ---------------------------------------------------------------------------
-- Tables of attributes
-- ---------------------------------------------------------------------------

/-- The widths of an entity's table. -/
def tableWidths (n : Node) : List Nat := columnWidths (attributeHeader :: n.columns.map columnRow)

/-- The rows that are read of a column's line. -/
def columnRows (n : Node) (c : Column) : List (List (List Char)) := rowsOf [rowLine (tableWidths n) (columnRow c)]

theorem fits_constraints (c : Column) : Fits (constraints c) := by
  rw [constraints]
  cases c.inKey <;> cases c.isReference <;> cases c.nullable <;> decide

theorem length_tableWidths (n : Node) : (tableWidths n).length = 4 :=
  @length_columnWidths attributeHeader _ (List.forall_mem_map.mpr fun _ _ => rfl)

theorem columnRows_iff (n : Node) (c : Column) :
    (∃ row, columnRows n c = [row] ∧ row.length = 4) ↔ Fits c.name ∧ Fits c.type ∧ Fits (c.doc.getD "") := by
  rw [columnRows]
  refine (@rowLine_iff (columnRow c) _ (List.cons_ne_nil _ _) (length_tableWidths n)).trans ?_
  simp [columnRow, fits_constraints]

theorem tableRows (n : Node) : ∃ header rule,
    rowsOf (tableLines attributeHeader (n.columns.map columnRow)) = header :: rule :: n.columns.flatMap (columnRows n) ∧
      header.length = 4 ∧ rule.length = 4 := by
  have hwidths : tableWidths n ≠ [] := List.ne_nil_of_length_eq_add_one (length_tableWidths n)
  obtain ⟨header, hheader, hfour⟩ :=
    (@rowLine_iff attributeHeader _ (List.cons_ne_nil _ _) (length_tableWidths n)).mpr (by decide)
  obtain ⟨rule, hrule, hlength⟩ := ruleLine_row hwidths
  have hlines : tableLines attributeHeader (n.columns.map columnRow) = rowLine (tableWidths n) attributeHeader ::
      ruleLine (tableWidths n) :: n.columns.flatMap fun c => [rowLine (tableWidths n) (columnRow c)] := by
    rw [← List.map_eq_flatMap, tableLines, List.map_map]
    rfl
  refine ⟨header, rule, ?_, hfour, hlength.trans (length_tableWidths n)⟩
  rw [hlines, rowsOf_cons, hheader, rowsOf_cons, hrule, rowsOf_flatMap]
  rfl

/-- The rows that are read of the lines about an entity. -/
def entityRows (n : Node) : List (List (List Char)) := rowsOf (entityLines n)

theorem exists_chapter (heading : String) (content : List String) :
    ∃ front, chapter heading content = front ++ content := by
  unfold chapter
  split
  · rename_i hempty
    rw [List.isEmpty_iff.mp hempty]
    exact ⟨[], rfl⟩
  · exact ⟨_, rfl⟩

/-- The lines about the entities stand together. -/
theorem exists_writeSchema (db : Database) (detail : Detail) : ∃ front back,
    writeSchema db detail = ofLines (front ++ (Graph.ofDatabase db detail).nodes.flatMap entityLines ++ back) := by
  obtain ⟨front, hfront⟩ := exists_chapter "Entities" ((Graph.ofDatabase db detail).nodes.flatMap entityLines)
  simp only [writeSchema, hfront, ← List.append_assoc ["# " ++ title db] front]
  simp only [List.append_assoc _ (chapter "Types" _)]
  exact ⟨_, _, rfl⟩

/-- Behind some lines about the whole schema, each entity has its lines, and if it has columns, these end with its
table: the header and the rule with four cells, then the columns. A column is one row of four cells exactly if its
name, its type and its doc hold no line break and no bar that is not behind a backslash. -/
theorem columns_four_cells_iff (db : Database) (detail : Detail) :
    ∃ text front back, Dialect.write .markdown db detail = .ok text ∧
      rows text = front ++ (Graph.ofDatabase db detail).nodes.flatMap entityRows ++ back ∧
      ∀ n ∈ (Graph.ofDatabase db detail).nodes, n.columns ≠ [] →
        ∃ above header rule, entityRows n = above ++ header :: rule :: n.columns.flatMap (columnRows n) ∧
          header.length = 4 ∧ rule.length = 4 ∧
          ∀ c ∈ n.columns, (∃ row, columnRows n c = [row] ∧ row.length = 4) ↔
            Fits c.name ∧ Fits c.type ∧ Fits (c.doc.getD "") := by
  obtain ⟨front, back, htext⟩ := exists_writeSchema db detail
  refine ⟨_, rowsOf front, rowsOf back, rfl, ?_, ?_⟩
  · rw [htext, ← rowsOf, rowsOf_append, rowsOf_append, rowsOf_flatMap]
    rfl
  · intro n hn hcolumns
    obtain ⟨header, rule, htable, hheader, hrule⟩ := tableRows n
    have hempty : n.columns.isEmpty = false := by simpa using hcolumns
    have hrows : entityRows n =
        rowsOf (["", "### " ++ n.label] ++ n.doc.toList.flatMap (fun doc => ["", doc]) ++ [""]) ++
          rowsOf (tableLines attributeHeader (n.columns.map columnRow)) := by
      rw [entityRows, entityLines, hempty, if_neg Bool.false_ne_true, ← rowsOf_append, List.append_assoc _ [""],
        List.singleton_append]
    exact ⟨_, header, rule, by rw [hrows, htable], hheader, hrule, fun c _ => columnRows_iff n c⟩

/-- A bar in the doc of an attribute cuts its cell in two. -/
theorem doc_cut_in_two :
    let attr : Attribute := { name := "a", type := "int", doc := some "x | y" }
    let db : Database := { entities := [{ name := "t", attrs := [attr] }] }
    ∃ n ∈ (Graph.ofDatabase db .all).nodes, ∃ c ∈ n.columns, (columnRows n c).map List.length = [5] := by
  decide +kernel

end SchemaDialects.Markdown
