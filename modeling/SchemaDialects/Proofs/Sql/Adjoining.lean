import SchemaDialects.Proofs.Sql.Expressions
import SchemaDialects.Text.Bytes

/-!
# Tokens of adjoining texts

A text that is read without problems has the same tokens if other lines follow it (`placed_feed`): what
reaches the end of its last line is at most a comment. The tokens of these lines are moved.
-/

namespace SchemaDialects.Sql

open Text

-- ---------------------------------------------------------------------------
-- Comments
-- ---------------------------------------------------------------------------

theorem blockCommentLength?_append (h : blockCommentLength? cs = some n) (rest : List Char) :
    blockCommentLength? (cs ++ rest) = some n ∧ n ≤ cs.length := by
  induction cs using blockCommentLength?.induct generalizing n with
  | case1 => simp [blockCommentLength?] at h
  | case2 cs =>
    obtain rfl : 2 = n := by simpa [blockCommentLength?] using h
    simp [blockCommentLength?]
  | case3 c cs hne ih =>
    rw [blockCommentLength?] at h
    · obtain ⟨k, hk, rfl⟩ := Option.map_eq_some_iff.mp h
      obtain ⟨hmore, hle⟩ := ih hk
      have hne' : ∀ ds, c = '*' → cs ++ rest = '/' :: ds → False := by
        intro ds hc hcs
        cases cs with
        | nil => simp [blockCommentLength?] at hk
        | cons d cs => exact hne cs hc (by rw [(List.cons.inj hcs).1])
      rw [List.cons_append, blockCommentLength?, hmore]
      · exact ⟨rfl, Nat.succ_le_succ hle⟩
      · exact hne'
    · exact hne

/-- A comment to the end of the line ends within the text or takes the line feed behind it. -/
theorem lineCommentLength_feed (cs rest : List Char) :
    (lineCommentLength (cs ++ '\n' :: rest) = lineCommentLength cs ∧ lineCommentLength cs ≤ cs.length) ∨
      (lineCommentLength cs = cs.length ∧ lineCommentLength (cs ++ '\n' :: rest) = cs.length + 1) := by
  induction cs with
  | nil => exact .inr ⟨rfl, rfl⟩
  | cons c cs ih =>
    rw [List.cons_append, lineCommentLength, lineCommentLength, List.length_cons]
    split
    · exact .inl ⟨rfl, by omega⟩
    · rcases ih with ⟨hsame, hle⟩ | ⟨hall, hmore⟩
      · exact .inl ⟨by rw [hsame], by omega⟩
      · exact .inr ⟨by rw [hall], by rw [hmore]⟩

/-- Whether something is there that is not the end of the script. -/
def Piece.shows : Piece → Bool
  | .gap => false
  | .token lexeme => lexeme ≠ .finish
  | .problem _ => true

theorem cutQuoted_shows (hform : ∀ text, form text ≠ .finish) :
    (cutQuoted content form problem cs).1.shows = true := by
  cases content with
  | none => rfl
  | some p => exact decide_eq_true (hform _)

theorem wordLexeme_ne_finish (text : String) : wordLexeme text ≠ .finish := by
  unfold wordLexeme
  split <;> exact Lexeme.noConfusion

/-- Between tokens there are only blanks and comments. -/
theorem cut_shows (hblank : ¬isBlank c = true) (hcomment : ¬(c = '-' ∧ cs.head? = some '-' ∨ c = '#'))
    (hblock : ¬(c = '/' ∧ cs.head? = some '*')) : (cut c cs).1.shows = true := by
  simp only [cut, if_neg hblank, if_neg hcomment, if_neg hblock]
  repeat' refine iteInduction (motive := fun p : Piece × Nat => p.1.shows = true) (fun _ => ?_) fun _ => ?_
  all_goals
    first
    | rfl
    | exact cutQuoted_shows fun _ => Lexeme.noConfusion
    | exact decide_eq_true (wordLexeme_ne_finish _)

theorem cut_gap (h : (cut c cs).1 = .gap) : isBlank c = true ∨ (c = '-' ∧ cs.head? = some '-' ∨ c = '#') ∨
    (c = '/' ∧ cs.head? = some '*') := by
  by_contra hnone
  obtain ⟨hblank, hmark⟩ := not_or.mp hnone
  obtain ⟨hcomment, hblock⟩ := not_or.mp hmark
  have hshows := cut_shows hblank hcomment hblock
  rw [h] at hshows
  contradiction

theorem cut_ne_finish (c : Char) (cs : List Char) : (cut c cs).1 ≠ .token .finish := by
  intro h
  obtain ⟨body, rest, -, hforms, -⟩ := forms_of_cut (Prod.ext h rfl)
  generalize hfinish : Lexeme.finish = lexeme at hforms
  cases hforms with
  | word => exact wordLexeme_ne_finish _ hfinish.symm
  | _ => cases hfinish

/-- A piece is the same before a line feed, or it is a comment that takes it. -/
theorem cut_feed (h : ∀ problem, (cut c cs).1 ≠ .problem problem) (rest : List Char) :
    (cut c (cs ++ '\n' :: rest) = cut c cs ∧ (cut c cs).2 ≤ cs.length) ∨
      (cut c cs = (.gap, cs.length) ∧ cut c (cs ++ '\n' :: rest) = (.gap, cs.length + 1)) := by
  cases hpiece : (cut c cs).1 with
  | problem problem => exact absurd hpiece (h problem)
  | token lexeme =>
    have hclose : Closes ('\n' :: rest) := by simp [Closes]
    have hcut : cut c cs = (.token lexeme, (cut c cs).2) := Prod.ext hpiece rfl
    obtain ⟨hmore, hle⟩ := cut_append hcut (hclose.bounds c)
    exact .inl ⟨hmore.trans hcut.symm, hle⟩
  | gap =>
    by_cases hblank : isBlank c = true
    · have hcut : ∀ ds, cut c ds = (.gap, 0) := fun ds => by simp [cut, hblank]
      rw [hcut, hcut]
      exact .inl ⟨rfl, Nat.zero_le _⟩
    rcases (cut_gap hpiece).resolve_left hblank with hcomment | hblock
    · have hcut : ∀ ds, (c = '-' ∧ ds.head? = some '-' ∨ c = '#') → cut c ds = (.gap, lineCommentLength ds) :=
        fun ds hds => by simp [cut, hblank, hds]
      have hmore : c = '-' ∧ (cs ++ '\n' :: rest).head? = some '-' ∨ c = '#' := by
        rcases hcomment with ⟨hc, hhead⟩ | hc
        · exact .inl ⟨hc, by rw [List.head?_append, hhead]; rfl⟩
        · exact .inr hc
      rw [hcut _ hcomment, hcut _ hmore]
      rcases lineCommentLength_feed cs rest with ⟨hsame, hle⟩ | ⟨hall, hlong⟩
      · exact .inl ⟨by rw [hsame], hle⟩
      · exact .inr ⟨by rw [hall], by rw [hlong]⟩
    · obtain ⟨rfl, hhead⟩ := hblock
      obtain ⟨ds, rfl⟩ : ∃ ds, cs = '*' :: ds := by
        cases cs with
        | nil => contradiction
        | cons d ds => exact ⟨ds, by rw [Option.some.inj hhead]⟩
      have hcut : ∀ {ds n}, blockCommentLength? ds = some n → cut '/' ('*' :: ds) = (.gap, n + 1) :=
        fun hn => by simp [cut, isBlank, hn]
      cases hn : blockCommentLength? ds with
      | none => exact absurd hpiece (by simp [cut, isBlank, hn])
      | some n =>
        obtain ⟨hmore, hle⟩ := blockCommentLength?_append hn ('\n' :: rest)
        rw [List.cons_append, hcut hn, hcut hmore]
        exact .inl ⟨rfl, Nat.succ_le_succ hle⟩

-- ---------------------------------------------------------------------------
-- Tokens at their places
-- ---------------------------------------------------------------------------

/-- The tokens among pieces that begin at a place. -/
def placed (place : Place) : List (Piece × List Char) → List Token
  | [] => []
  | (piece, chars) :: ps =>
    let stop := place.afterAll chars
    let behind := placed stop ps
    match piece with
    | .token lexeme => ⟨lexeme, String.ofList chars, place.upTo stop⟩ :: behind
    | _ => behind

def finishAt (place : Place) : Token := ⟨.finish, "", place.upTo place⟩

theorem afterAll_append (place : Place) (cs ds : List Char) :
    place.afterAll (cs ++ ds) = (place.afterAll cs).afterAll ds :=
  List.foldl_append ..

theorem offset_afterAll (place : Place) (cs : List Char) :
    (place.afterAll cs).offset = place.offset + byteLength cs := by
  induction cs generalizing place with
  | nil => rfl
  | cons c cs ih =>
    show ((place.after c).afterAll cs).offset = _
    rw [ih, byteLength, ← Nat.add_assoc]
    rfl

theorem locate_eq (place : Place) (ps : List (Piece × List Char)) :
    (locate place ps).1 = placed place ps ++ [finishAt (place.afterAll (ps.flatMap (·.2)))] := by
  induction ps generalizing place with
  | nil => rfl
  | cons p ps ih =>
    obtain ⟨piece, chars⟩ := p
    have hmore := ih (place.afterAll chars)
    rw [← afterAll_append] at hmore
    cases piece with
    | token lexeme => exact congrArg (List.cons _) hmore
    | gap => exact hmore
    | problem problem => exact hmore

theorem tokenize_eq (script : String) : (tokenize script).1 =
    placed {} (tiles cut script.toList) ++ [finishAt (({} : Place).afterAll script.toList)] := by
  rw [tokenize, locate_eq, flatMap_tiles]

theorem readable_of_locate (h : (locate place ps).2 = []) : Readable ps := by
  induction ps generalizing place with
  | nil => simp [Readable]
  | cons p ps ih =>
    obtain ⟨piece, chars⟩ := p
    cases piece with
    | token lexeme => exact List.forall_mem_cons.mpr ⟨by simp, ih h⟩
    | gap => exact List.forall_mem_cons.mpr ⟨by simp, ih h⟩
    | problem problem => exact absurd h (List.cons_ne_nil _ _)

/-- What a line feed follows is cut as it is without it. -/
theorem placed_feed (h : Readable (tiles cut cs)) (place : Place) (rest : List Char) :
    placed place (tiles cut (cs ++ '\n' :: rest)) =
      placed place (tiles cut cs) ++ placed (place.afterAll (cs ++ ['\n'])) (tiles cut rest) := by
  induction cs using tiles_induction cut generalizing place with
  | nil =>
    have hfeed : cut '\n' rest = (.gap, 0) := by simp [cut, isBlank]
    rw [tiles_nil, List.nil_append, tiles_cons, hfeed]
    rfl
  | cons c cs ih =>
    rw [tiles_cons] at h ⊢
    obtain ⟨hfirst, hmore⟩ := List.forall_mem_cons.mp h
    rw [List.cons_append, tiles_cons]
    rcases cut_feed hfirst rest with ⟨hsame, hle⟩ | ⟨hall, hlong⟩
    · have hbehind := ih hmore (place.afterAll (c :: cs.take (cut c cs).2))
      rw [← afterAll_append, List.cons_append, ← List.append_assoc, List.take_append_drop] at hbehind
      rw [hsame, List.take_append_of_le_length hle, List.drop_append_of_le_length hle]
      cases hpiece : (cut c cs).1 with
      | token lexeme => exact congrArg (List.cons _) hbehind
      | gap => exact hbehind
      | problem problem => exact absurd hpiece (hfirst problem)
    · have htake : (cs ++ '\n' :: rest).take (cs.length + 1) = cs ++ ['\n'] := by
        rw [List.append_cons]
        exact List.take_left' (by rw [List.length_append]; rfl)
      have hdrop : (cs ++ '\n' :: rest).drop (cs.length + 1) = rest := by
        rw [List.append_cons]
        exact List.drop_left' (by rw [List.length_append]; rfl)
      rw [hall, hlong, htake, hdrop, List.drop_length, tiles_nil]
      rfl

theorem mem_of_mem_placed (h : t ∈ placed place ps) : (.token t.lexeme, t.text.toList) ∈ ps := by
  induction ps generalizing place with
  | nil => cases h
  | cons p ps ih =>
    obtain ⟨piece, chars⟩ := p
    cases piece with
    | gap => exact List.mem_cons_of_mem _ (ih h)
    | problem problem => exact List.mem_cons_of_mem _ (ih h)
    | token lexeme =>
      rcases List.mem_cons.mp h with rfl | h
      · rw [String.toList_ofList]
        exact List.mem_cons_self
      · exact List.mem_cons_of_mem _ (ih h)

theorem placed_ne_finish (h : ∀ p ∈ ps, p.1 ≠ .token .finish) (place : Place) :
    ∀ t ∈ placed place ps, t.lexeme ≠ .finish :=
  fun _ ht hfinish => h _ (mem_of_mem_placed ht) (congrArg Piece.token hfinish)

theorem tiles_ne_finish (cs : List Char) : ∀ p ∈ tiles cut cs, p.1 ≠ .token .finish := by
  intro p hp
  obtain ⟨c, rest, -, rfl⟩ := mem_tiles hp
  exact cut_ne_finish c rest

end SchemaDialects.Sql
