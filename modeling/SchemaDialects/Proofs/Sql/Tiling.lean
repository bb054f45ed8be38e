import Mathlib.Data.List.Induction
import SchemaDialects.Proofs.Sql.Adjoining

/-!
# How tokens lie in a script

`tokenize_tiles`: every byte of a script is in exactly one token, reported problem, blank or comment, and
positions are what the characters before them make of them. The pieces into which the script is cut
follow one another (`located`), so that offset, line and column of a piece come from what stands before
it; what is neither token nor problem is a blank or a comment because of how pieces are cut
(`isGap_cut`).
-/

namespace SchemaDialects

/-- Whether a byte lies in the span. -/
def Span.covers (s : Span) (offset : Nat) : Bool := s.start ≤ offset && offset < s.stop

namespace Sql

open Text

-- ---------------------------------------------------------------------------
-- Positions
-- ---------------------------------------------------------------------------

/-- Line and column behind some characters: a line for every line feed, a column for every character
behind the last one. -/
def locationBehind (before : List Char) : Location where
  line := 1 + before.count '\n'
  column := 1 + (before.reverse.takeWhile (· ≠ '\n')).length

/-- The position of characters that stand behind others. -/
def positionBehind (before chars : List Char) : Position where
  offset := ⟨byteLength before, byteLength (before ++ chars)⟩
  start := locationBehind before
  stop := locationBehind (before ++ chars)

/-- The characters stand in the script at this position. -/
def StandsAt (script chars : List Char) (p : Position) : Prop :=
  ∃ before after, script = before ++ chars ++ after ∧ p = positionBehind before chars

theorem afterAll_start (before : List Char) :
    ({} : Place).afterAll before = ⟨byteLength before, locationBehind before⟩ := by
  induction before using List.reverseRecOn with
  | nil => rfl
  | append_singleton before c ih =>
    rw [afterAll_append, ih, byteLength_append]
    show Place.after _ c = _
    by_cases hc : c = '\n'
    · subst hc
      simp [Place.after, locationBehind, byteLength, Nat.add_comm]
    · simp [Place.after, locationBehind, byteLength, hc, Nat.add_comm]

theorem upTo_start (before chars : List Char) :
    (({} : Place).afterAll before).upTo (({} : Place).afterAll (before ++ chars)) =
      positionBehind before chars := by
  rw [afterAll_start, afterAll_start]
  rfl

theorem byteLength_toList (s : String) : byteLength s.toList = s.utf8ByteSize := by
  suffices h : ∀ cs, byteLength cs = (String.ofList cs).utf8ByteSize by
    rw [h, String.ofList_toList]
  intro cs
  induction cs with
  | nil => rfl
  | cons c cs ih =>
    rw [String.ofList_cons, String.utf8ByteSize_append, String.utf8ByteSize_singleton, byteLength, ih]

-- ---------------------------------------------------------------------------
-- Blanks and comments
-- ---------------------------------------------------------------------------

/-- What may stand between tokens: a blank, or a comment that ends where it can. The second list is the
rest of the script. -/
inductive IsGap : List Char → List Char → Prop
  | blank (h : isBlank c = true) : IsGap [c] after
  | line (hmark : mark ∈ [['-', '-'], ['#']]) (hbody : '\n' ∉ body) : IsGap (mark ++ body ++ ['\n']) after
  | lastLine (hmark : mark ∈ [['-', '-'], ['#']]) (hbody : '\n' ∉ body) : IsGap (mark ++ body) []
  | block (hbody : ¬['*', '/'] <:+: body ++ ['*']) : IsGap (['/', '*'] ++ body ++ ['*', '/']) after

theorem lineCommentLength_cases (cs : List Char) :
    (∃ body rest, cs = body ++ '\n' :: rest ∧ '\n' ∉ body ∧ lineCommentLength cs = body.length + 1) ∨
      ('\n' ∉ cs ∧ lineCommentLength cs = cs.length) := by
  induction cs with
  | nil => exact .inr ⟨List.not_mem_nil, rfl⟩
  | cons c cs ih =>
    rw [lineCommentLength]
    split
    · rename_i hc
      exact .inl ⟨[], cs, by rw [hc]; rfl, List.not_mem_nil, rfl⟩
    · rename_i hc
      rcases ih with ⟨body, rest, rfl, hbody, hlength⟩ | ⟨hnone, hlength⟩
      · exact .inl ⟨c :: body, rest, rfl, by simp [hbody, Ne.symm hc], by rw [hlength]; rfl⟩
      · exact .inr ⟨by simp [hnone, Ne.symm hc], by rw [hlength]; rfl⟩

theorem blockCommentLength?_eq_some (h : blockCommentLength? cs = some n) :
    ∃ body rest, cs = body ++ ['*', '/'] ++ rest ∧ ¬['*', '/'] <:+: body ++ ['*'] ∧ n = body.length + 2 := by
  induction cs using blockCommentLength?.induct generalizing n with
  | case1 => simp [blockCommentLength?] at h
  | case2 cs =>
    obtain rfl : 2 = n := by simpa [blockCommentLength?] using h
    exact ⟨[], cs, rfl, by decide, rfl⟩
  | case3 c cs hne ih =>
    rw [blockCommentLength?] at h
    · obtain ⟨k, hk, rfl⟩ := Option.map_eq_some_iff.mp h
      obtain ⟨body, rest, rfl, hbody, rfl⟩ := ih hk
      refine ⟨c :: body, rest, rfl, fun hclose => ?_, rfl⟩
      rcases List.infix_cons_iff.mp hclose with hfront | hmore
      · obtain ⟨hc, hbody⟩ := List.cons_prefix_cons.mp hfront
        cases body with
        | nil => simp at hbody
        | cons d body => exact hne _ hc.symm (by rw [(List.cons_prefix_cons.mp hbody).1]; rfl)
      · exact hbody hmore
    · exact hne

theorem isGap_lineComment (hmark : mark ∈ [['-', '-'], ['#']]) (cs : List Char) :
    IsGap (mark ++ cs.take (lineCommentLength cs)) (cs.drop (lineCommentLength cs)) := by
  rcases lineCommentLength_cases cs with ⟨body, rest, rfl, hbody, hlength⟩ | ⟨hnone, hlength⟩
  · rw [hlength, List.append_cons, List.take_left' (by simp), List.drop_left' (by simp), ← List.append_assoc]
    exact .line hmark hbody
  · rw [hlength, List.take_length, List.drop_length]
    exact .lastLine hmark hnone

/-- What is neither a token nor a problem is a blank or a comment. -/
theorem isGap_cut (h : (cut c cs).1 = .gap) : IsGap (c :: cs.take (cut c cs).2) (cs.drop (cut c cs).2) := by
  by_cases hblank : isBlank c = true
  · have hcut : cut c cs = (.gap, 0) := by simp [cut, hblank]
    rw [hcut]
    exact .blank hblank
  rcases (cut_gap h).resolve_left hblank with hcomment | ⟨rfl, hhead⟩
  · have hcut : cut c cs = (.gap, lineCommentLength cs) := by simp [cut, hblank, hcomment]
    rw [hcut]
    rcases hcomment with ⟨rfl, hhead⟩ | rfl
    · obtain ⟨ds, rfl⟩ := List.head?_eq_some_iff.mp hhead
      have hlength : lineCommentLength ('-' :: ds) = lineCommentLength ds + 1 := by simp [lineCommentLength]
      rw [hlength]
      exact isGap_lineComment (List.mem_cons_self : ['-', '-'] ∈ [['-', '-'], ['#']]) ds
    · exact isGap_lineComment (by simp : ['#'] ∈ [['-', '-'], ['#']]) cs
  · obtain ⟨ds, rfl⟩ := List.head?_eq_some_iff.mp hhead
    cases hn : blockCommentLength? ds with
    | none => exact absurd h (by simp [cut, isBlank, hn])
    | some n =>
      have hcut : cut '/' ('*' :: ds) = (.gap, n + 1) := by simp [cut, isBlank, hn]
      obtain ⟨body, rest, rfl, hbody, rfl⟩ := blockCommentLength?_eq_some hn
      rw [hcut, List.take_succ_cons, List.drop_succ_cons, List.take_left' (by simp), List.drop_left' (by simp)]
      exact .block hbody

-- ---------------------------------------------------------------------------
-- Pieces in their order
-- ---------------------------------------------------------------------------

/-- A piece with the characters around it. -/
structure Located where
  piece : Piece
  before : List Char
  chars : List Char
  after : List Char

namespace Located

def position (l : Located) : Position := positionBehind l.before l.chars

def token? (l : Located) : Option Token :=
  l.piece.lexeme?.map fun lexeme => ⟨lexeme, String.ofList l.chars, l.position⟩

def problem? (l : Located) : Option Diagnostic :=
  match l.piece with
  | .problem p => some ⟨.error, p.kind, p.message, l.position⟩
  | _ => none

def gap? (l : Located) : Option Span :=
  match l.piece with
  | .gap => some l.position.offset
  | _ => none

end Located

/-- Pieces that begin behind some characters. -/
def located (before : List Char) : List (Piece × List Char) → List Located
  | [] => []
  | (piece, chars) :: ps => ⟨piece, before, chars, ps.flatMap (·.2)⟩ :: located (before ++ chars) ps

theorem locate_located (before : List Char) (ps : List (Piece × List Char)) :
    locate (({} : Place).afterAll before) ps =
      ((located before ps).filterMap Located.token? ++
        [finishAt (({} : Place).afterAll (before ++ ps.flatMap (·.2)))],
      (located before ps).filterMap Located.problem?) := by
  induction ps generalizing before with
  | nil => simp [locate, located, finishAt]
  | cons p ps ih =>
    obtain ⟨piece, chars⟩ := p
    have hmore := ih (before ++ chars)
    rw [locate, located, ← afterAll_append, hmore, upTo_start, List.flatMap_cons, ← List.append_assoc]
    cases piece <;> rfl

theorem located_sound (before : List Char) (ps : List (Piece × List Char)) :
    ∀ l ∈ located before ps, before ++ ps.flatMap (·.2) = l.before ++ l.chars ++ l.after := by
  induction ps generalizing before with
  | nil => nofun
  | cons p ps ih =>
    obtain ⟨piece, chars⟩ := p
    refine List.forall_mem_cons.mpr ⟨by simp, fun l hl => ?_⟩
    rw [← ih _ l hl]
    simp

theorem before_of_mem_located (h : l ∈ located before ps) : before <+: l.before := by
  induction ps generalizing before with
  | nil => cases h
  | cons p ps ih =>
    rcases List.mem_cons.mp h with rfl | h
    · exact List.prefix_rfl
    · exact (List.prefix_append before p.2).trans (ih h)

theorem located_pairwise (before : List Char) (ps : List (Piece × List Char)) :
    (located before ps).Pairwise fun a b => a.before ++ a.chars <+: b.before := by
  induction ps generalizing before with
  | nil => exact .nil
  | cons p ps ih => exact .cons (fun _ hb => before_of_mem_located hb) (ih _)

/-- A piece of a script is cut from what begins with it. -/
theorem cut_of_mem_located (h : l ∈ located before (tiles cut cs)) : ∃ c ds,
    l.piece = (cut c ds).1 ∧ l.chars = c :: ds.take (cut c ds).2 ∧ l.after = ds.drop (cut c ds).2 := by
  induction cs using tiles_induction cut generalizing before with
  | nil =>
    rw [tiles_nil] at h
    cases h
  | cons c cs ih =>
    rw [tiles_cons] at h
    rcases List.mem_cons.mp h with rfl | h
    · exact ⟨c, cs, rfl, rfl, flatMap_tiles ..⟩
    · exact ih h

-- ---------------------------------------------------------------------------
-- Bytes
-- ---------------------------------------------------------------------------

theorem byteLength_le_of_prefix (h : before <+: after) : byteLength before ≤ byteLength after := by
  obtain ⟨more, rfl⟩ := h
  rw [byteLength_append]
  exact Nat.le_add_right _ _

theorem byteLength_pos (h : cs ≠ []) : 0 < byteLength cs := by
  obtain ⟨c, cs, rfl⟩ := List.exists_cons_of_ne_nil h
  have := c.utf8Size_pos
  rw [byteLength]
  omega

/-- Pieces that follow one another share no byte and leave none out. -/
theorem countP_located (before : List Char) (ps : List (Piece × List Char)) (offset : Nat) :
    ((located before ps).map (·.position.offset)).countP (·.covers offset) =
      if byteLength before ≤ offset ∧ offset < byteLength (before ++ ps.flatMap (·.2)) then 1 else 0 := by
  induction ps generalizing before with
  | nil =>
    rw [List.flatMap_nil, List.append_nil, if_neg (by omega)]
    rfl
  | cons p ps ih =>
    obtain ⟨piece, chars⟩ := p
    have hfirst := byteLength_le_of_prefix (List.prefix_append before chars)
    have hmore := byteLength_le_of_prefix (List.prefix_append (before ++ chars) (ps.flatMap (·.2)))
    rw [located, List.map_cons, List.countP_cons, ih, List.flatMap_cons, ← List.append_assoc]
    simp only [Span.covers, Located.position, positionBehind, Bool.and_eq_true]
    grind

/-- Every piece is a token, a problem or a gap. -/
theorem countP_split (ls : List Located) (p : Span → Bool) :
    ((ls.filterMap Located.token?).map (·.position.offset) ++
      (ls.filterMap Located.problem?).map (·.position.offset) ++ ls.filterMap Located.gap?).countP p =
      (ls.map (·.position.offset)).countP p := by
  induction ls with
  | nil => rfl
  | cons l ls ih =>
    obtain ⟨piece, before, chars, after⟩ := l
    rw [List.countP_append, List.countP_append] at ih ⊢
    rw [List.map_cons, List.countP_cons, ← ih]
    cases piece <;>
      simp only [List.filterMap_cons, Located.token?, Located.problem?, Located.gap?, Piece.lexeme?,
        Located.position, Option.map, List.map_cons, List.countP_cons] <;>
      grind

-- ---------------------------------------------------------------------------
-- Scripts
-- ---------------------------------------------------------------------------

/-- Tokens, problems and gaps lie in a script without overlapping and leave nothing of it out. -/
structure IsTiling (script : List Char) (tokens : List Token) (problems : List Diagnostic)
    (gaps : List Span) : Prop where
  token : ∀ t ∈ tokens, t.lexeme ≠ .finish ∧ t.position.offset.start < t.position.offset.stop ∧
    StandsAt script t.text.toList t.position
  ascending : tokens.Pairwise fun a b => a.position.offset.stop ≤ b.position.offset.start
  problem : ∀ d ∈ problems, d.level = .error ∧ ∃ chars, StandsAt script chars d.position
  gap : ∀ g ∈ gaps, ∃ before chars after, script = before ++ chars ++ after ∧ IsGap chars after ∧
    g = (positionBehind before chars).offset
  covered : ∀ offset < byteLength script,
    (tokens.map (·.position.offset) ++ problems.map (·.position.offset) ++ gaps).countP (·.covers offset) = 1

theorem mem_tiles_of_mem_located (h : l ∈ located before ps) : (l.piece, l.chars) ∈ ps := by
  induction ps generalizing before with
  | nil => cases h
  | cons p ps ih =>
    rcases List.mem_cons.mp h with rfl | h
    · exact List.mem_cons_self
    · exact List.mem_cons_of_mem _ (ih h)

theorem isTiling_located (script : List Char) :
    IsTiling script ((located [] (tiles cut script)).filterMap Located.token?)
      ((located [] (tiles cut script)).filterMap Located.problem?)
      ((located [] (tiles cut script)).filterMap Located.gap?) := by
  have hsound : ∀ l ∈ located [] (tiles cut script), script = l.before ++ l.chars ++ l.after := by
    have h := located_sound [] (tiles cut script)
    rwa [List.nil_append, flatMap_tiles] at h
  refine { token := ?_, ascending := ?_, problem := ?_, gap := ?_, covered := ?_ }
  · intro t ht
    obtain ⟨l, hl, hlt⟩ := List.mem_filterMap.mp ht
    obtain ⟨lexeme, hlexeme, rfl⟩ := Option.map_eq_some_iff.mp hlt
    have hpiece : l.piece = .token lexeme := by
      cases hl : l.piece <;> simp_all [Piece.lexeme?]
    refine ⟨fun hfinish => ?_, ?_, l.before, l.after, ?_, ?_⟩
    · exact tiles_ne_finish script _ (mem_tiles_of_mem_located hl) (hfinish ▸ hpiece)
    · have hpos : 0 < byteLength l.chars := byteLength_pos (ne_nil_of_mem_tiles (mem_tiles_of_mem_located hl))
      show byteLength l.before < byteLength (l.before ++ l.chars)
      rw [byteLength_append]
      omega
    · simpa using hsound l hl
    · simp [Located.position]
  · refine List.Pairwise.filterMap _ (fun a b hab t ht u hu => ?_) (located_pairwise [] _)
    obtain ⟨_, _, rfl⟩ := Option.map_eq_some_iff.mp ht
    obtain ⟨_, _, rfl⟩ := Option.map_eq_some_iff.mp hu
    exact byteLength_le_of_prefix hab
  · intro d hd
    obtain ⟨l, hl, hld⟩ := List.mem_filterMap.mp hd
    unfold Located.problem? at hld
    split at hld
    · obtain rfl := Option.some.inj hld
      exact ⟨rfl, l.chars, l.before, l.after, hsound l hl, rfl⟩
    · cases hld
  · intro g hg
    obtain ⟨l, hl, hlg⟩ := List.mem_filterMap.mp hg
    unfold Located.gap? at hlg
    split at hlg
    · rename_i hpiece
      obtain rfl := Option.some.inj hlg
      obtain ⟨c, ds, hcut, hchars, hafter⟩ := cut_of_mem_located hl
      refine ⟨l.before, l.chars, l.after, hsound l hl, ?_, rfl⟩
      rw [hchars, hafter]
      exact isGap_cut (hcut.symm.trans hpiece)
    · cases hlg
  · intro offset hoffset
    rw [countP_split, countP_located, flatMap_tiles, if_pos ⟨Nat.zero_le _, hoffset⟩]

/-- Reading a script gives tokens and, behind them, its end. Every byte of the script is in exactly one
token, reported problem, blank or comment; tokens ascend and say where they stand. -/
theorem tokenize_tiles (script : String) : ∃ front gaps,
    (tokenize script).1 = front ++ [⟨.finish, "", ⟨⟨script.utf8ByteSize, script.utf8ByteSize⟩,
      locationBehind script.toList, locationBehind script.toList⟩⟩] ∧
    IsTiling script.toList front (tokenize script).2 gaps := by
  have htokens := locate_located [] (tiles cut script.toList)
  rw [List.nil_append, flatMap_tiles, afterAll_start script.toList, byteLength_toList] at htokens
  change tokenize script = _ at htokens
  rw [htokens]
  exact ⟨_, _, rfl, isTiling_located script.toList⟩

end Sql

end SchemaDialects
