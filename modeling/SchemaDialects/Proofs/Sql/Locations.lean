import SchemaDialects.Proofs.Positions
import SchemaDialects.Proofs.Sql.Extent
import SchemaDialects.Proofs.Sql.Tiling

/-!
# Where statements stand

`readStatements_located`: the statements of a script stand apart and in their order. Each one begins at the first
token or behind a semicolon, ends where the tokens do that it covers, and is the text between if it is kept as text.
A problem of the grammar is at a token of the statement that is being read, or at the end of the script. Where a
statement begins is told by `beginnings`; `Statement.Lies` tells which tokens it covers, and the positions of
tokens ascend (`tokenize_ascends`), so that the position of some of them comes from the first and the last.
-/

namespace SchemaDialects

-- ---------------------------------------------------------------------------
-- Ascending positions
-- ---------------------------------------------------------------------------

namespace Position

/-- The start is in front of the stop. -/
structure Sound (p : Position) : Prop where
  lines : 0 < p.start.line ∧ 0 < p.stop.line
  offset : p.offset.start ≤ p.offset.stop
  location : p.start.atMost p.stop = true

theorem Sound.isValid {p : Position} (h : p.Sound) : p.isValid = true := by
  simp [Position.isValid, h.lines, h.offset]

/-- The first position ends before the second one starts. -/
structure Before (p q : Position) : Prop where
  offset : p.offset.stop ≤ q.offset.start
  location : p.stop.atMost q.start = true

/-- From the start of the first position to the stop of the second one. -/
def spanning (p q : Position) : Position := ⟨⟨p.offset.start, q.offset.stop⟩, p.start, q.stop⟩

theorem Sound.spanning {p q : Position} (hp : p.Sound) (hq : q.Sound) (h : p.Before q) : (p.spanning q).Sound where
  lines := ⟨hp.lines.1, hq.lines.2⟩
  offset := Nat.le_trans hp.offset (Nat.le_trans h.offset hq.offset)
  location := Location.atMost_trans hp.location (Location.atMost_trans h.location hq.location)

theorem join_of_before {p q : Position} (hp : p.Sound) (hq : q.Sound) (h : p.Before q) : p.join q = p.spanning q := by
  have hstart := Location.atMost_trans hp.location h.location
  have hstop := Location.atMost_trans h.location hq.location
  rw [join, Location.earlier, Location.later, if_pos hstart, if_pos hstop,
    Nat.min_eq_left (Nat.le_trans hp.offset h.offset), Nat.max_eq_right (Nat.le_trans h.offset hq.offset)]
  rfl

theorem foldl_join {p : Position} {ps : List Position} (hp : p.Sound) (hps : ∀ q ∈ ps, q.Sound)
    (hascending : (p :: ps).Pairwise Before) (hlast : (p :: ps).getLast? = some last) :
    ps.foldl join p = p.spanning last ∧ (p.spanning last).Sound := by
  induction ps generalizing p with
  | nil =>
    obtain rfl := Option.some.inj hlast
    exact ⟨rfl, hp⟩
  | cons q ps ih =>
    obtain ⟨hq, hmore⟩ := List.forall_mem_cons.mp hps
    obtain ⟨hfirst, hascending⟩ := List.pairwise_cons.mp hascending
    obtain ⟨hbefore, -⟩ := List.forall_mem_cons.mp hfirst
    obtain ⟨hbehind, hothers⟩ := List.pairwise_cons.mp hascending
    rw [List.foldl_cons, join_of_before hp hq hbefore]
    cases ps with
    | nil =>
      obtain rfl := Option.some.inj hlast
      exact ⟨rfl, hp.spanning hq hbefore⟩
    | cons r ps =>
      rw [List.getLast?_cons_cons] at hlast
      have hwider : (p.spanning q :: r :: ps).Pairwise Before :=
        .cons (fun r hr => ⟨(hbehind r hr).offset, (hbehind r hr).location⟩) hothers
      exact ih (hp.spanning hq hbefore) hmore hwider (by rwa [List.getLast?_cons_cons] at hlast ⊢)

/-- Positions that ascend are merged into what lies between the first and the last of them. -/
theorem merge_ascending {p : Position} {ps : List Position} (hsound : ∀ q ∈ p :: ps, q.Sound)
    (hascending : (p :: ps).Pairwise Before) (hlast : (p :: ps).getLast? = some last) :
    merge (p :: ps) = p.spanning last ∧ (p.spanning last).Sound := by
  have hall : (p :: ps).filter isValid = p :: ps := List.filter_eq_self.mpr fun q hq => (hsound q hq).isValid
  obtain ⟨hp, hps⟩ := List.forall_mem_cons.mp hsound
  rw [merge, hall]
  exact foldl_join hp hps hascending hlast

end Position

namespace Sql

open Production Text

-- ---------------------------------------------------------------------------
-- The positions of tokens
-- ---------------------------------------------------------------------------

theorem locationBehind_mono (h : before <+: after) : (locationBehind before).atMost (locationBehind after) = true := by
  obtain ⟨more, rfl⟩ := h
  induction more using List.reverseRecOn with
  | nil => simp [Location.atMost_iff]
  | append_singleton more c ih =>
    refine Location.atMost_trans ih ?_
    have hplace := afterAll_start (before ++ (more ++ [c]))
    rw [← List.append_assoc, afterAll_append, afterAll_start] at hplace
    have hlocation : _ = locationBehind (before ++ more ++ [c]) := congrArg Place.location hplace
    rw [← List.append_assoc, ← hlocation, Location.atMost_iff]
    by_cases hc : c = '\n'
    · simp [Place.afterAll, Place.after, hc]
    · simp [Place.afterAll, Place.after, hc]

theorem positionBehind_sound (before chars : List Char) : (positionBehind before chars).Sound where
  lines := ⟨Nat.add_pos_left Nat.one_pos _, Nat.add_pos_left Nat.one_pos _⟩
  offset := byteLength_le_of_prefix (List.prefix_append _ _)
  location := locationBehind_mono (List.prefix_append _ _)

theorem positionBehind_before (h : before ++ chars <+: after) :
    (positionBehind before chars).Before (positionBehind after others) where
  offset := byteLength_le_of_prefix h
  location := locationBehind_mono h

/-- The tokens of a script, the end included, ascend. -/
theorem tokenize_ascends (script : String) : Ended (tokenize script).1 ∧
    (∀ t ∈ (tokenize script).1, t.position.Sound) ∧
    (tokenize script).1.Pairwise fun t u => t.position.Before u.position := by
  have htokens := locate_located [] (tiles cut script.toList)
  have hsound := located_sound [] (tiles cut script.toList)
  rw [List.nil_append, flatMap_tiles] at htokens hsound
  change tokenize script = _ at htokens
  rw [htokens]
  have hposition : ∀ t ∈ (located [] (tiles cut script.toList)).filterMap Located.token?,
      ∃ l ∈ located [] (tiles cut script.toList), t.position = l.position := by
    intro t ht
    obtain ⟨l, hl, hlt⟩ := List.mem_filterMap.mp ht
    obtain ⟨lexeme, -, rfl⟩ := Option.map_eq_some_iff.mp hlt
    exact ⟨l, hl, rfl⟩
  have hend : (finishAt (({} : Place).afterAll script.toList)).position = positionBehind script.toList [] := by
    rw [afterAll_start, positionBehind, List.append_nil]
    rfl
  refine ⟨⟨_, List.getLast?_concat, rfl⟩, fun t ht => ?_, List.pairwise_append.mpr ⟨?_, List.pairwise_singleton _ _, fun t ht u hu => ?_⟩⟩
  · rcases List.mem_append.mp ht with ht | ht
    · obtain ⟨l, -, hl⟩ := hposition t ht
      rw [hl]
      exact positionBehind_sound _ _
    · rw [List.mem_singleton.mp ht, hend]
      exact positionBehind_sound _ _
  · refine List.Pairwise.filterMap _ (fun a b hab t ht u hu => ?_) (located_pairwise [] _)
    obtain ⟨_, _, rfl⟩ := Option.map_eq_some_iff.mp ht
    obtain ⟨_, _, rfl⟩ := Option.map_eq_some_iff.mp hu
    exact positionBehind_before hab
  · obtain ⟨l, hl, hposition⟩ := hposition t ht
    rw [List.mem_singleton.mp hu, hposition, hend]
    exact positionBehind_before ⟨l.after, (hsound l hl).symm⟩

-- ---------------------------------------------------------------------------
-- Where statements begin
-- ---------------------------------------------------------------------------

/-- What is left of a script where its statements begin, one after the other. -/
def beginnings (script : List Char) (ts : List Token) : List (List Token) :=
  let begun := skipSemicolons ts
  if headIs (· = .finish) begun then []
  else
    let rest := (readStatement script begun).2.2
    begun :: if rest.length < ts.length then beginnings script rest else []
termination_by ts.length

/-- Reading a script is reading a statement wherever one begins. -/
theorem statements_eq (script : List Char) (ts : List Token) : statements script ts =
    ((beginnings script ts).flatMap fun begun => (readStatement script begun).1,
      (beginnings script ts).flatMap fun begun => (readStatement script begun).2.1) := by
  induction hn : ts.length using Nat.strongRecOn generalizing ts with
  | ind n ih =>
    subst hn
    rw [statements, beginnings]
    dsimp only
    split
    · rfl
    · split
      · next hless => rw [ih _ hless _ rfl, List.flatMap_cons, List.flatMap_cons]
      · rw [List.flatMap_cons, List.flatMap_cons, List.flatMap_nil, List.flatMap_nil, List.append_nil, List.append_nil]

/-- A statement begins at the first of all tokens or behind a semicolon, and is not over at once. -/
structure Begins (all begun : List Token) : Prop where
  ended : Ended begun
  behind : ∃ front, all = front ++ begun ∧ (front = [] ∨ ∃ t ∈ front.getLast?, t.lexeme = .semicolon)
  starts : headIs Lexeme.endsStatement begun = false

theorem skipSemicolons_split (hts : Ended ts) : ∃ semicolons, ts = semicolons ++ skipSemicolons ts ∧
    (∀ t ∈ semicolons, t.lexeme = .semicolon) ∧ Ended (skipSemicolons ts) ∧
    headIs (· = .semicolon) (skipSemicolons ts) = false := by
  induction ts with
  | nil => exact absurd rfl hts.ne_nil
  | cons t ts ih =>
    rw [skipSemicolons]
    split
    · next ht =>
      obtain ⟨semicolons, hsplit, hall, hskip⟩ := ih (hts.behind (by simp [ht]))
      exact ⟨t :: semicolons, by rw [List.cons_append, ← hsplit], List.forall_mem_cons.mpr ⟨ht, hall⟩, hskip⟩
    · next ht => exact ⟨[], rfl, List.forall_mem_nil _, hts, decide_eq_false ht⟩

/-- The tokens that are left at the beginning of a script and behind a statement. -/
def Between (all ts : List Token) : Prop := ts <:+ all ∧ (ts = all ∨ headIs Lexeme.endsStatement ts = true)

theorem begins_skipSemicolons (hts : Ended ts) (hbetween : Between all ts)
    (hfinish : headIs (· = .finish) (skipSemicolons ts) = false) : Begins all (skipSemicolons ts) := by
  obtain ⟨semicolons, hsplit, hall, hended, hsemicolon⟩ := skipSemicolons_split hts
  have hstarts : headIs Lexeme.endsStatement (skipSemicolons ts) = false := by
    rw [Frame.headIs_endsStatement, hsemicolon, hfinish]
    rfl
  refine ⟨hended, ?_, hstarts⟩
  obtain ⟨⟨front, rfl⟩, hplace⟩ := hbetween
  rcases List.eq_nil_or_concat semicolons with rfl | ⟨before, t, rfl⟩
  · rw [List.nil_append] at hsplit
    have hfirst : ts = front ++ ts := hplace.resolve_right (by rw [hsplit, hstarts]; nofun)
    exact ⟨[], by rw [← hfirst, ← hsplit, List.nil_append], .inl rfl⟩
  · refine ⟨front ++ before.concat t, by rw [List.append_assoc, ← hsplit], .inr ⟨t, ?_, hall t (by simp)⟩⟩
    simp

-- ---------------------------------------------------------------------------
-- One statement
-- ---------------------------------------------------------------------------

theorem Statement.Leaves.suffix {st : Statement} (h : st.Leaves script covered behind rest) : rest <:+ behind := by
  cases st with
  | createTable => exact h.2 ▸ statementEnd_suffix behind
  | update => exact h.2 ▸ statementEnd_suffix behind
  | unmodelled => exact h.2.2 ▸ List.suffix_rfl
  | _ =>
    obtain rfl : rest = behind := h
    exact List.suffix_rfl

/-- What comes of reading where a statement begins. -/
structure Reads (script : List Char) (begun : List Token) (found : List Statement) (problems : List Diagnostic)
    (rest : List Token) : Prop where
  ended : Ended rest
  ends : headIs Lexeme.endsStatement rest = true
  part : rest <:+ begun
  single : found = [] ∨ ∃ st, found = [st]
  lies : ∀ st ∈ found, ∃ left, statement script begun = .ok st left ∧ st.Lies script begun left ∧ rest <:+ left
  places : ∀ d ∈ problems, ∃ t ∈ begun, d.position = t.position

theorem place_of_part (hs : Ended s) (hpart : s <:+ ts) (hplace : position = (s.headD endToken).position) :
    ∃ t ∈ ts, position = t.position := by
  obtain ⟨t, s, rfl⟩ := List.exists_cons_of_ne_nil hs.ne_nil
  exact ⟨t, hpart.subset List.mem_cons_self, hplace⟩

theorem readStatement_reads (hts : Ended ts) (hstarts : headIs Lexeme.endsStatement ts = false) :
    Reads script ts (readStatement script ts).1 (readStatement script ts).2.1 (readStatement script ts).2.2 := by
  have hleaves := (statement_runs script hts hstarts).leaves hts
  unfold readStatement
  cases hrun : statement script ts with
  | error problem rest =>
    rw [hrun] at hleaves
    cases hleaves with
    | error hs hpart hplace =>
      exact {
        ended := hs.statementEnd
        ends := Frame.headIs_statementEnd rest
        part := (statementEnd_suffix rest).trans hpart
        single := .inl rfl
        lies := nofun
        places := List.forall_mem_singleton.mpr (place_of_part hs hpart hplace) }
  | ok st rest =>
    rw [hrun] at hleaves
    cases hleaves with
    | ok hs hpart =>
      have hlies (left : List Token) (hleft : left <:+ rest) : ∀ st' ∈ [st], ∃ left', statement script ts = .ok st' left' ∧
          st'.Lies script ts left' ∧ left <:+ left' :=
        List.forall_mem_singleton.mpr ⟨rest, hrun, statement_lies hts hstarts hrun, hleft⟩
      dsimp only
      split
      · next hends => exact ⟨hs, hends, hpart, .inr ⟨st, rfl⟩, hlies rest List.suffix_rfl, nofun⟩
      · exact {
          ended := hs.statementEnd
          ends := Frame.headIs_statementEnd rest
          part := (statementEnd_suffix rest).trans hpart
          single := .inr ⟨st, rfl⟩
          lies := hlies _ (statementEnd_suffix rest)
          places := List.forall_mem_singleton.mpr (place_of_part hs hpart rfl) }

theorem Reads.between (h : Reads script begun found problems rest) (hpart : begun <:+ all) : Between all rest :=
  ⟨h.part.trans hpart, .inr h.ends⟩

theorem beginnings_begin (script : List Char) (hts : Ended ts) (hbetween : Between all ts) :
    (∀ begun ∈ beginnings script ts, Begins all begun ∧ begun <:+ ts) ∧
      (beginnings script ts).Pairwise fun begun later => later <:+ (readStatement script begun).2.2 := by
  induction hn : ts.length using Nat.strongRecOn generalizing ts with
  | ind n ih =>
    subst hn
    rw [beginnings]
    dsimp only
    split
    · exact ⟨nofun, .nil⟩
    · next hfinish =>
      obtain ⟨semicolons, hsplit, -⟩ := skipSemicolons_split hts
      have hskip : skipSemicolons ts <:+ ts := ⟨semicolons, hsplit.symm⟩
      have hbegins := begins_skipSemicolons hts hbetween (Bool.eq_false_iff.mpr hfinish)
      have hreads : Reads script _ _ _ _ := readStatement_reads hbegins.ended hbegins.starts
      split
      · next hless =>
        obtain ⟨hall, hpairwise⟩ := ih _ hless hreads.ended (hreads.between (hskip.trans hbetween.1)) rfl
        refine ⟨List.forall_mem_cons.mpr ⟨⟨hbegins, hskip⟩, fun begun hbegun => ?_⟩, .cons ?_ hpairwise⟩
        · exact ⟨(hall begun hbegun).1, (hall begun hbegun).2.trans (hreads.part.trans hskip)⟩
        · exact fun begun hbegun => (hall begun hbegun).2
      · exact ⟨List.forall_mem_singleton.mpr ⟨hbegins, hskip⟩, List.pairwise_singleton _ _⟩

-- ---------------------------------------------------------------------------
-- Whole scripts
-- ---------------------------------------------------------------------------

/-- Where a statement is read, the tokens that it covers and those `behind` them. It stands from the first of those it
covers to the last one. -/
structure Extent (script : List Char) (begun : List Token) (st : Statement) (left covered behind : List Token)
    (first last : Token) : Prop where
  read : statement script begun = .ok st left
  split : begun = covered ++ behind
  begins : covered.head? = some first
  ends : covered.getLast? = some last
  position : st.position = first.position.spanning last.position
  leaves : st.Leaves script covered behind left

/-- How the statements of a script lie among its tokens, and where the problems of the grammar are. -/
structure LaidOut (script : List Char) (ts : List Token) (found : List Statement) (problems : List Diagnostic) :
    Prop where
  valid : ∀ st ∈ found, st.position.isValid = true
  ascending : found.Pairwise fun st later => st.position.offset.stop ≤ later.position.offset.start
  extent : ∀ st ∈ found, ∃ begun ∈ beginnings script ts, Begins ts begun ∧
    ∃ left covered behind first last, Extent script begun st left covered behind first last
  text : ∀ u, .unmodelled u ∈ found →
    u.text = String.ofList (slice u.position.offset.start u.position.offset.stop script)
  place : ∀ d ∈ problems, ∃ begun ∈ beginnings script ts, Begins ts begun ∧
    d ∈ (readStatement script begun).2.1 ∧ ∃ first ∈ begun.head?, ∃ t ∈ begun, d.position = t.position ∧
    first.position.offset.start ≤ d.position.offset.start

/-- Tokens with the positions that they have in a script. -/
structure Ascending (ts : List Token) : Prop where
  sound : ∀ t ∈ ts, t.position.Sound
  pairwise : ts.Pairwise fun t u => t.position.Before u.position

theorem Ascending.suffix (h : Ascending ts) (hpart : s <:+ ts) : Ascending s :=
  ⟨fun t ht => h.sound t (hpart.subset ht), h.pairwise.sublist hpart.sublist⟩

theorem Ascending.front (h : Ascending ts) (hpart : s <+: ts) : Ascending s :=
  ⟨fun t ht => h.sound t (hpart.subset ht), h.pairwise.sublist hpart.sublist⟩

theorem Ascending.start_le (h : Ascending (t :: ts)) (hu : u ∈ t :: ts) :
    t.position.offset.start ≤ u.position.offset.start := by
  rcases List.mem_cons.mp hu with rfl | hu
  · exact Nat.le_refl _
  · exact Nat.le_trans (h.sound t List.mem_cons_self).offset ((List.pairwise_cons.mp h.pairwise).1 u hu).offset

/-- Ascending tokens stand from the start of the first of them to the stop of the last one. -/
theorem Ascending.tokensPosition (h : Ascending ts) (hne : ts ≠ []) : ∃ first last, ts.head? = some first ∧
    ts.getLast? = some last ∧ tokensPosition ts = first.position.spanning last.position ∧
    (first.position.spanning last.position).Sound := by
  obtain ⟨t, ts, rfl⟩ := List.exists_cons_of_ne_nil hne
  have hlast : (t :: ts).getLast? = some ((t :: ts).getLast hne) := List.getLast?_eq_some_getLast hne
  have hmap : (t.position :: ts.map (·.position)).getLast? = some ((t :: ts).getLast hne).position := by
    rw [← List.map_cons, List.getLast?_map, hlast]
    rfl
  obtain ⟨hmerge, hsound⟩ := Position.merge_ascending
    (by rw [← List.map_cons]; exact List.forall_mem_map.mpr h.sound)
    (by rw [← List.map_cons]; exact List.pairwise_map.mpr h.pairwise) hmap
  exact ⟨t, _, rfl, hlast, hmerge, hsound⟩

/-- What is read where a statement begins lies in front of what is left then. -/
theorem Reads.extent (h : Reads script begun found problems rest) (hascending : Ascending begun) (hst : st ∈ found) :
    ∃ left covered behind first last, Extent script begun st left covered behind first last ∧ st.position.Sound ∧
      rest <:+ behind := by
  obtain ⟨left, hrun, ⟨covered, behind, hsplit, hne, -, hposition, hleaves⟩, hrest⟩ := h.lies st hst
  obtain ⟨first, last, hfirst, hlast, hspan, hsound⟩ := (hascending.front ⟨behind, hsplit.symm⟩).tokensPosition hne
  refine ⟨left, covered, behind, first, last, ⟨hrun, hsplit, hfirst, hlast, hposition.trans hspan, hleaves⟩, ?_,
    hrest.trans hleaves.suffix⟩
  rw [hposition, hspan]
  exact hsound

theorem Extent.text {u : Unmodelled} (h : Extent script begun (.unmodelled u) left covered behind first last) :
    u.text = String.ofList (slice u.position.offset.start u.position.offset.stop script) := by
  have hposition : u.position = first.position.spanning last.position := h.position
  rw [h.leaves.1, hposition, sourceText, h.begins, h.ends]
  rfl

/-- A statement ends before whatever begins behind the tokens that it covers. -/
theorem Extent.stop_le (h : Extent script begun st left covered behind first last) (hascending : Ascending begun)
    (hlater : Extent script begun' later left' covered' behind' first' last') (hpart : begun' <:+ behind) :
    st.position.offset.stop ≤ later.position.offset.start := by
  have hlast := List.mem_of_getLast? h.ends
  have hfirst : first' ∈ behind :=
    hpart.subset (hlater.split ▸ List.mem_append_left _ (List.mem_of_head? hlater.begins))
  rw [h.position, hlater.position]
  exact ((List.pairwise_append.mp (h.split ▸ hascending.pairwise)).2.2 last hlast first' hfirst).offset

theorem Ascending.laidOut (hended : Ended ts) (h : Ascending ts) :
    LaidOut script ts (statements script ts).1 (statements script ts).2 := by
  obtain ⟨hbegin, hpairwise⟩ := beginnings_begin script hended ⟨List.suffix_rfl, .inl rfl⟩
  have hreads (begun : List Token) (hbegun : begun ∈ beginnings script ts) : Reads script begun _ _ _ :=
    readStatement_reads (hbegin begun hbegun).1.ended (hbegin begun hbegun).1.starts
  have hascends (begun : List Token) (hbegun : begun ∈ beginnings script ts) : Ascending begun :=
    h.suffix (hbegin begun hbegun).2
  rw [statements_eq]
  refine { valid := ?_, ascending := ?_, extent := ?_, text := ?_, place := ?_ }
  · intro st hst
    obtain ⟨begun, hbegun, hst⟩ := List.mem_flatMap.mp hst
    obtain ⟨_, _, _, _, _, -, hsound, -⟩ := (hreads begun hbegun).extent (hascends begun hbegun) hst
    exact hsound.isValid
  · refine List.pairwise_flatMap.mpr ⟨fun begun hbegun => ?_, hpairwise.imp_of_mem fun hbegun hmore hpart st hst later hlater => ?_⟩
    · rcases (hreads begun hbegun).single with hnone | ⟨st, hone⟩
      · rw [hnone]
        exact .nil
      · rw [hone]
        exact List.pairwise_singleton _ _
    · obtain ⟨_, _, _, _, _, hextent, -, hrest⟩ := (hreads _ hbegun).extent (hascends _ hbegun) hst
      obtain ⟨_, _, _, _, _, hextent', -, -⟩ := (hreads _ hmore).extent (hascends _ hmore) hlater
      exact hextent.stop_le (hascends _ hbegun) hextent' (hpart.trans hrest)
  · intro st hst
    obtain ⟨begun, hbegun, hst⟩ := List.mem_flatMap.mp hst
    obtain ⟨left, covered, behind, first, last, hextent, -⟩ := (hreads begun hbegun).extent (hascends begun hbegun) hst
    exact ⟨begun, hbegun, (hbegin begun hbegun).1, left, covered, behind, first, last, hextent⟩
  · intro u hu
    obtain ⟨begun, hbegun, hu⟩ := List.mem_flatMap.mp hu
    obtain ⟨_, _, _, _, _, hextent, -⟩ := (hreads begun hbegun).extent (hascends begun hbegun) hu
    exact hextent.text
  · intro d hd
    obtain ⟨begun, hbegun, hd⟩ := List.mem_flatMap.mp hd
    obtain ⟨t, ht, hplace⟩ := (hreads begun hbegun).places d hd
    obtain ⟨first, more, rfl⟩ := List.exists_cons_of_ne_nil (hbegin begun hbegun).1.ended.ne_nil
    refine ⟨_, hbegun, (hbegin _ hbegun).1, hd, first, rfl, t, ht, hplace, ?_⟩
    rw [hplace]
    exact (hascends _ hbegun).start_le ht

/-- The statements of a script stand apart and in their order: each one from the first to the last of the tokens
that it covers. The problems of the grammar are at tokens of the statements that are being read. -/
theorem readStatements_located (script : String) : ∃ found problems,
    (readStatements script).value.getD [] = found ∧
    (readStatements script).diagnostics = (tokenize script).2 ++ problems ∧
    LaidOut script.toList (tokenize script).1 found problems := by
  obtain ⟨hended, hsound, hpairwise⟩ := tokenize_ascends script
  refine ⟨_, _, ?_, ?_, Ascending.laidOut hended ⟨hsound, hpairwise⟩⟩
  · unfold readStatements
    dsimp only
    split
    · next hnone => exact (List.isEmpty_iff.mp (Bool.and_eq_true_iff.mp hnone).1).symm
    · rfl
  · unfold readStatements
    dsimp only
    split
    · rfl
    · rfl

end Sql

end SchemaDialects
