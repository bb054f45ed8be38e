import SchemaDialects.Proofs.Sql.Adjoining
import SchemaDialects.Proofs.Sql.FrameScripts

/-!
# Statements of two scripts

The statements of two scripts with a semicolon on a line between them are those of the first and then
those of the second, wherever either of them is malformed (`readStatements_separated`), unless the first
ends with a token that makes the grammar step over the next one. Each script is put into a frame of its
own: the first is followed by the semicolon, the second by the end.
-/

namespace SchemaDialects.Sql

open Text

-- ---------------------------------------------------------------------------
-- Frames of texts
-- ---------------------------------------------------------------------------

/-- The same pieces at two places have the same tokens. -/
theorem placed_alike {F : Frame} (before behind : List Char) {place place' : Place}
    (hscript : F.script = before ++ ps.flatMap (·.2) ++ behind) (hplace : place.offset = byteLength before)
    (hplace' : place'.offset = byteLength F.front + place.offset) :
    List.Forall₂ F.Alike (placed place ps) (placed place' ps) := by
  induction ps generalizing before place place' with
  | nil => exact .nil
  | cons p ps ih =>
    obtain ⟨piece, chars⟩ := p
    have hstop : (place.afterAll chars).offset = byteLength (before ++ chars) := by
      rw [offset_afterAll, hplace, byteLength_append]
    have hstop' : (place'.afterAll chars).offset = byteLength F.front + (place.afterAll chars).offset := by
      rw [offset_afterAll, offset_afterAll, hplace', Nat.add_assoc]
    have hall : F.script = (before ++ chars) ++ ps.flatMap (·.2) ++ behind := by
      rw [hscript, List.flatMap_cons]
      simp only [List.append_assoc]
    have hmore := ih (before ++ chars) hall hstop hstop'
    cases piece with
    | gap => exact hmore
    | problem problem => exact hmore
    | token lexeme =>
      refine .cons ⟨rfl, hplace', hstop', ⟨before, chars ++ ps.flatMap (·.2) ++ behind, ?_, hplace⟩, ?_⟩ hmore
      · rw [hall]
        simp only [List.append_assoc]
      · show (place.afterAll chars).offset ≤ byteLength F.script
        rw [hstop, hall, List.append_assoc, byteLength_append (before ++ chars)]
        exact Nat.le_add_right _ _

theorem related_of_alike {F : Frame} (h : List.Forall₂ F.Alike us us')
    (hfinish : ∀ t ∈ us, t.lexeme ≠ .finish)
    (hlast : ∀ t ∈ us.getLast?, t.lexeme.takesNext = true → F.rest = []) :
    F.Related (us ++ [F.last]) (us' ++ F.next :: F.rest) := by
  induction h with
  | nil => exact .ended
  | @cons t t' us us' ht hus ih =>
    obtain ⟨hfirst, hmore⟩ := List.forall_mem_cons.mp hfinish
    refine .token ht hfirst (fun htakes hend => hlast t ?_ htakes) (ih hmore fun u hu => hlast u ?_)
    · obtain rfl : us = [] := by simpa using hend
      rfl
    · cases us with
      | nil => nomatch hu
      | cons v us => rwa [List.getLast?_cons_cons]

-- ---------------------------------------------------------------------------
-- Two scripts
-- ---------------------------------------------------------------------------

/-- What stands between two scripts. -/
def separator : List Char := ['\n', ';', '\n']

/-- The place behind some text at the beginning of a script. -/
def placeAfter (cs : List Char) : Place := ({} : Place).afterAll cs

/-- The tokens of a text, without the end of the script. -/
def placedTokens (cs : List Char) : List Token := placed {} (tiles cut cs)

/-- The semicolon between two scripts. -/
def separatorToken (first : List Char) : Token :=
  ⟨.semicolon, ";", (placeAfter (first ++ ['\n'])).upTo (placeAfter (first ++ ['\n', ';']))⟩

/-- The tokens of the second script, where they stand behind the first one. -/
def secondTokens (first second : List Char) : List Token :=
  placed (placeAfter (first ++ separator)) (tiles cut second)

/-- The end of both. -/
def bothEnd (first second : List Char) : Token :=
  finishAt (placeAfter (first ++ separator ++ second))

/-- The first script is followed by a semicolon. -/
def firstFrame (first second : List Char) : Frame where
  script := first
  front := []
  back := separator ++ second
  last := finishAt (placeAfter first)
  next := separatorToken first
  rest := secondTokens first second ++ [bothEnd first second]
  last_finish := rfl
  next_ends := rfl

/-- The second script ends where both end. -/
def secondFrame (first second : List Char) : Frame where
  script := second
  front := first ++ separator
  back := []
  last := finishAt (placeAfter second)
  next := bothEnd first second
  rest := []
  last_finish := rfl
  next_ends := rfl

theorem whole_firstFrame (first second : List Char) :
    (firstFrame first second).whole = first ++ separator ++ second := by
  rw [List.append_assoc]
  rfl

theorem whole_secondFrame (first second : List Char) :
    (secondFrame first second).whole = first ++ separator ++ second :=
  List.append_nil _

theorem placeAfter_append (cs ds : List Char) : (placeAfter cs).afterAll ds = placeAfter (cs ++ ds) :=
  (afterAll_append {} cs ds).symm

theorem placed_separator (place : Place) (cs : List Char) :
    placed place (tiles cut (';' :: '\n' :: cs)) =
      ⟨.semicolon, ";", place.upTo (place.afterAll [';'])⟩ ::
        placed (place.afterAll [';', '\n']) (tiles cut cs) := by
  have hsemicolon : ∀ cs, cut ';' cs = (.token .semicolon, 0) := fun cs => by simp [cut, isBlank]
  have hfeed : ∀ cs, cut '\n' cs = (.gap, 0) := fun cs => by simp [cut, isBlank]
  rw [tiles_cons, hsemicolon, List.drop_zero, tiles_cons, hfeed, List.drop_zero]
  rfl

theorem tokenize_separated {A B : String} (h : (tokenize A).2 = []) :
    (tokenize (A ++ "\n;\n" ++ B)).1 = placedTokens A.toList ++ separatorToken A.toList ::
      (secondTokens A.toList B.toList ++ [bothEnd A.toList B.toList]) := by
  have hreadable : Readable (tiles cut A.toList) := readable_of_locate h
  have hchars : (A ++ "\n;\n" ++ B).toList = A.toList ++ separator ++ B.toList := by
    rw [String.toList_append, String.toList_append]
    rfl
  have htokens : placed {} (tiles cut (A.toList ++ separator ++ B.toList)) =
      placedTokens A.toList ++ separatorToken A.toList :: secondTokens A.toList B.toList := by
    have hfeed := placed_feed hreadable {} (';' :: '\n' :: B.toList)
    have hmark : (placeAfter (A.toList ++ ['\n'])).afterAll [';'] =
        placeAfter (A.toList ++ ['\n', ';']) := by
      rw [placeAfter_append, List.append_assoc, List.singleton_append]
    have hline : (placeAfter (A.toList ++ ['\n'])).afterAll [';', '\n'] =
        placeAfter (A.toList ++ separator) := by
      rw [placeAfter_append, List.append_assoc, List.singleton_append]
      rfl
    rw [placed_separator] at hfeed
    rw [separatorToken, secondTokens, ← hmark, ← hline, List.append_assoc]
    exact hfeed
  rw [tokenize_eq, hchars, htokens, List.append_assoc, List.cons_append]
  rfl

theorem placedTokens_ne_finish (cs : List Char) : ∀ t ∈ placedTokens cs, t.lexeme ≠ .finish :=
  placed_ne_finish (tiles_ne_finish cs) {}

theorem tokenize_placed (A : String) :
    (tokenize A).1 = placedTokens A.toList ++ [finishAt (placeAfter A.toList)] := tokenize_eq A

theorem first_related (first second : List Char)
    (hlast : ∀ t ∈ (placedTokens first).getLast?, t.lexeme.takesNext = false) :
    (firstFrame first second).Related (placedTokens first ++ [finishAt (placeAfter first)])
      (placedTokens first ++ separatorToken first ::
        (secondTokens first second ++ [bothEnd first second])) := by
  refine related_of_alike (F := firstFrame first second) ?_ (placedTokens_ne_finish first)
    fun t ht htakes => ?_
  · refine placed_alike [] [] ?_ rfl rfl
    rw [flatMap_tiles, List.append_nil]
    rfl
  · rw [hlast t ht] at htakes
    contradiction

theorem second_related (first second : List Char) :
    (secondFrame first second).Related (placedTokens second ++ [finishAt (placeAfter second)])
      (secondTokens first second ++ [bothEnd first second]) := by
  refine related_of_alike (F := secondFrame first second) ?_ (placedTokens_ne_finish second) fun _ _ _ => rfl
  refine placed_alike [] [] ?_ rfl ?_
  · rw [flatMap_tiles, List.append_nil]
    rfl
  · show (placeAfter (first ++ separator)).offset = byteLength (first ++ separator) + 0
    rw [placeAfter, offset_afterAll, Nat.add_zero, Nat.zero_add]

/-- No value means no statements. -/
theorem getD_readStatements (script : String) :
    (readStatements script).value.getD [] = (statements script.toList (tokenize script).1).1 := by
  unfold readStatements
  dsimp only
  split
  · next h => exact (List.isEmpty_iff.mp (Bool.and_eq_true_iff.mp h).1).symm
  · rfl

/-- The statements of the second script, whatever number of semicolons stands in front of them. -/
theorem statements_second (first second : List Char) (semicolons : List Token)
    (hsemicolons : ∀ t ∈ semicolons, t.lexeme = .semicolon) :
    (statements (first ++ separator ++ second)
        (semicolons ++ (secondTokens first second ++ [bothEnd first second]))).1.map Statement.bare =
      (statements second (placedTokens second ++ [finishAt (placeAfter second)])).1.map Statement.bare := by
  have hrun := Frame.statements_related [] (second_related first second) (fun semicolons h => by
    rw [Frame.statements_finish _ semicolons h rfl]
    rfl) semicolons hsemicolons
  rwa [List.append_nil, whole_secondFrame] at hrun

/-- One statement never takes what belongs to the next one, unless its script ends in the middle of something
that takes one token more. -/
theorem readStatements_separated {A B : String} (hA : (tokenize A).2 = [])
    (hlast : ∀ t ∈ (tokenize A).1.dropLast.getLast?, t.lexeme.takesNext = false) :
    ((readStatements (A ++ "\n;\n" ++ B)).value.getD []).map Statement.bare =
      ((readStatements A).value.getD []).map Statement.bare ++
        ((readStatements B).value.getD []).map Statement.bare := by
  have hchars : (A ++ "\n;\n" ++ B).toList = A.toList ++ separator ++ B.toList := by
    rw [String.toList_append, String.toList_append]
    rfl
  rw [tokenize_placed, List.dropLast_concat] at hlast
  rw [getD_readStatements, getD_readStatements, getD_readStatements, hchars, tokenize_separated hA,
    tokenize_placed, tokenize_placed]
  have hrun := Frame.statements_related _ (first_related A.toList B.toList hlast) (fun semicolons h => by
    have hmore : ∀ t ∈ semicolons ++ [separatorToken A.toList], t.lexeme = .semicolon := by
      intro t ht
      rcases List.mem_append.mp ht with ht | ht
      · exact h t ht
      · rw [List.mem_singleton.mp ht]
        rfl
    have hsecond := statements_second A.toList B.toList _ hmore
    rw [← List.append_cons] at hsecond
    rw [whole_firstFrame]
    exact hsecond) [] (by simp)
  rwa [whole_firstFrame] at hrun

/-- The first script is malformed and ends with a comment. -/
theorem readStatements_separated_sample :
    (tokenize "SELECT FROM t; SELECT a FROM t ORDER BY a NULLS LAST -- sorted").2 = [] ∧
      ((readStatements ("SELECT FROM t; SELECT a FROM t ORDER BY a NULLS LAST -- sorted" ++ "\n;\n" ++
          "CREATE TABLE; SELECT b FROM u")).value.getD []).map Statement.bare =
        ((readStatements "SELECT FROM t; SELECT a FROM t ORDER BY a NULLS LAST -- sorted").value.getD []).map
            Statement.bare ++
          ((readStatements "CREATE TABLE; SELECT b FROM u").value.getD []).map Statement.bare :=
  ⟨by decide +kernel, readStatements_separated (by decide +kernel) (by decide +kernel)⟩

/-- The order of nulls is a token behind NULLS, whatever it is. So the semicolon is taken for it and the next
statement is passed over. -/
theorem readStatements_swallowed :
    (tokenize "SELECT a FROM t ORDER BY a NULLS").2 = [] ∧ (tokenize "SELECT b FROM u").2 = [] ∧
      ((readStatements ("SELECT a FROM t ORDER BY a NULLS" ++ "\n;\n" ++ "SELECT b FROM u")).value.getD []).map
          Statement.bare ≠
        ((readStatements "SELECT a FROM t ORDER BY a NULLS").value.getD []).map Statement.bare ++
          ((readStatements "SELECT b FROM u").value.getD []).map Statement.bare :=
  ⟨by decide +kernel, by decide +kernel, fun h => absurd (congrArg List.length h) (by decide +kernel)⟩

end SchemaDialects.Sql
