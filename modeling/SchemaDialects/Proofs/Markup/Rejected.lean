import Mathlib.Data.List.Sort
import SchemaDialects.Proofs.Markup.Grounded
import SchemaDialects.Proofs.Markup.Layout
import SchemaDialects.Proofs.Markup.Moving
import SchemaDialects.Proofs.Positions

/-!
# Lines that are rejected

An attribute line that cannot be read, or that stands in no block, has no effect but a diagnostic
(`readSchema_withLine`): a comment in its place gives the same schema, and the same diagnostics except for those
about the line. Behind it the text moves by the difference of the lengths, and everything else stays in place.
-/

namespace SchemaDialects

-- ---------------------------------------------------------------------------
-- Sorted lists
-- ---------------------------------------------------------------------------

section Sorting

variable {α : Type} {le : α → α → Bool} (htrans : ∀ a b c, le a b = true → le b c = true → le a c = true)
  (htotal : ∀ a b, (le a b || le b a) = true)
include htrans htotal

/-- One more item in front of a list goes before all that are not before it. -/
theorem mergeSort_cons_filter (a : α) (l : List α) : (a :: l).mergeSort le =
    (l.mergeSort le).filter (!le a ·) ++ a :: (l.mergeSort le).filter (le a ·) := by
  obtain ⟨front, back, hsorted, hrest, hfront⟩ := List.mergeSort_cons htrans htotal a l
  have hback : ∀ b ∈ back, le a b = true := by
    have hpairwise := List.pairwise_mergeSort htrans htotal (a :: l)
    rw [hsorted, List.pairwise_append, List.pairwise_cons] at hpairwise
    exact hpairwise.2.1.1
  have hfirst : (front ++ back).filter (!le a ·) = front := by
    rw [List.filter_append, List.filter_eq_self.mpr hfront, List.filter_eq_nil_iff.mpr (by simpa using hback),
      List.append_nil]
  have hlast : (front ++ back).filter (le a ·) = back := by
    rw [List.filter_append, List.filter_eq_self.mpr hback, List.filter_eq_nil_iff.mpr (by simpa using hfront),
      List.nil_append]
  rw [hsorted, hrest, hfirst, hlast]

/-- Items that are left out have no part in the order of the others. -/
theorem filter_mergeSort (keep : α → Bool) (l : List α) :
    (l.mergeSort le).filter keep = (l.filter keep).mergeSort le := by
  induction l with
  | nil => simp
  | cons a l ih =>
    by_cases ha : keep a = true
    · have hcomm (p : α → Bool) (m : List α) : (m.filter p).filter keep = (m.filter keep).filter p := by
        rw [List.filter_filter, List.filter_filter]
        exact List.filter_congr fun b _ => Bool.and_comm ..
      rw [mergeSort_cons_filter htrans htotal, List.filter_append, List.filter_cons_of_pos ha, hcomm, hcomm, ih,
        List.filter_cons_of_pos ha, mergeSort_cons_filter htrans htotal]
    · obtain ⟨front, back, hsorted, hrest, -⟩ := List.mergeSort_cons htrans htotal a l
      rw [hsorted, List.filter_append, List.filter_cons_of_neg ha, ← List.filter_append, ← hrest, ih,
        List.filter_cons_of_neg ha]

end Sorting

-- ---------------------------------------------------------------------------
-- Positions in front of a line and behind it
-- ---------------------------------------------------------------------------

namespace Position

theorem join_plus (p q : Position) : (p.plus n).join (q.plus n) = (p.join q).plus n := by
  simp [join, plus, Nat.add_min_add_right, Nat.add_max_add_right]

/-- In a text whose line `number` is `n` bytes longer, everything behind this line stands `n` bytes further back. -/
def plusBehind (number n : Nat) (p : Position) : Position :=
  if number < p.start.line then p.plus n else p

@[simp] theorem plusBehind_line (p : Position) : (p.plusBehind number n).start.line = p.start.line := by
  unfold plusBehind
  split <;> rfl

theorem plusBehind_of_lt {p : Position} (h : number < p.start.line) : p.plusBehind number n = p.plus n := if_pos h

theorem plusBehind_of_le {p : Position} (h : p.start.line ≤ number) : p.plusBehind number n = p :=
  if_neg (Nat.not_lt.mpr h)

theorem isValid_plus (p : Position) : (p.plus n).isValid = p.isValid := by
  have hoffset : decide (p.offset.start + n ≤ p.offset.stop + n) = decide (p.offset.start ≤ p.offset.stop) :=
    decide_eq_decide.mpr Nat.add_le_add_iff_right
  exact congrArg (decide (0 < p.start.line) && decide (0 < p.stop.line) && ·) hoffset

theorem line_earlier (a b : Location) : (a.earlier b).line = min a.line b.line := by
  unfold Location.earlier Location.atMost
  split
  · rename_i h
    simp only [Bool.or_eq_true, decide_eq_true_eq, Bool.and_eq_true, beq_iff_eq] at h
    omega
  · rename_i h
    simp only [Bool.or_eq_true, decide_eq_true_eq, Bool.and_eq_true, beq_iff_eq] at h
    omega

theorem line_join (p q : Position) : (p.join q).start.line = min p.start.line q.start.line :=
  line_earlier p.start q.start

theorem merge_plusBehind {ps : List Position} (h : ∀ p ∈ ps, number < p.start.line) :
    merge (ps.map (plusBehind number n)) = (merge ps).plusBehind number n := by
  have hplus : ps.map (plusBehind number n) = ps.map (plus n) :=
    List.map_congr_left fun p hp => plusBehind_of_lt (h p hp)
  have hfilter : (ps.map (plus n)).filter isValid = (ps.filter isValid).map (plus n) := by
    rw [List.filter_map]
    exact congrArg _ (List.filter_congr fun p _ => p.isValid_plus)
  have hvalid : ∀ p ∈ ps.filter isValid, number < p.start.line := fun p hp => h p (List.mem_filter.mp hp).1
  rw [hplus]
  unfold merge
  rw [hfilter]
  cases hps : ps.filter isValid with
  | nil => exact (plusBehind_of_le (Nat.zero_le _)).symm
  | cons p qs =>
    obtain ⟨hp, hqs⟩ := List.forall_mem_cons.mp (hps ▸ hvalid)
    have hline : number < (qs.foldl join p).start.line := by
      refine foldl_join_rec (fun p q hp hq => ?_) hp hqs
      rw [line_join]
      exact Nat.lt_min.mpr ⟨hp, hq⟩
    rw [plusBehind_of_lt hline, List.map_cons]
    dsimp only
    rw [List.foldl_map]
    exact List.foldl_hom (plus n) fun p q => join_plus p q

theorem line_merge {ps : List Position} (hne : ps ≠ []) (h : ∀ p ∈ ps, p.start.line = number ∧ p.isValid = true) :
    (merge ps).start.line = number := by
  have hvalid : ps.filter isValid = ps := List.filter_eq_self.mpr fun p hp => (h p hp).2
  unfold merge
  rw [hvalid]
  cases ps with
  | nil => exact absurd rfl hne
  | cons p qs =>
    obtain ⟨hp, hqs⟩ := List.forall_mem_cons.mp h
    refine foldl_join_rec (P := (·.start.line = number)) (fun p q hp hq => ?_) hp.1 fun q hq => (hqs q hq).1
    rw [line_join, hp, hq, Nat.min_self]

/-- The position stands in front of line `number`, which begins at the byte `start`, or behind this line. -/
def Beside (number start : Nat) (p : Position) : Prop :=
  p.start.line < number ∧ p.offset.start ≤ start ∨ number < p.start.line ∧ start < p.offset.start

instance (p : Position) : Decidable (p.Beside number first) :=
  inferInstanceAs (Decidable (_ < _ ∧ _ ≤ _ ∨ _ < _ ∧ _ < _))

theorem beside_unknown (hnumber : 0 < number) : unknown.Beside number first := .inl ⟨hnumber, Nat.zero_le _⟩

theorem Beside.join {p q : Position} (hp : p.Beside number first) (hq : q.Beside number first) :
    (p.join q).Beside number first := by
  have hoffset : (p.join q).offset.start = min p.offset.start q.offset.start := rfl
  unfold Beside at *
  rw [line_join, hoffset]
  omega

theorem Beside.merge (hnumber : 0 < number) (h : ∀ p ∈ ps, p.Beside number first) :
    (Position.merge ps).Beside number first :=
  merge_rec (beside_unknown hnumber) (fun _ _ => .join) h

end Position

namespace Markup

open Text

-- ---------------------------------------------------------------------------
-- Where the parts of a line stand
-- ---------------------------------------------------------------------------

theorem upTo_placeOn (front chars : List Char) :
    (placeOn offset number front).upTo (placeOn offset number (front ++ chars)) = positionOn offset number front chars := by
  rw [placeOn, placeOn, Place.upTo, positionOn, List.length_append, Nat.add_assoc]

/-- The problems of a word are about its last characters. -/
theorem position_wordProblems (hfree : '\n' ∉ chars) (hd : d ∈ wordProblems (placeOn offset number front) chars final) :
    ∃ before inside, front ++ chars = before ++ inside ∧ d.position = positionOn offset number before inside := by
  rcases List.mem_append.mp hd with hquote | hdepth
  · obtain ⟨q, -, rfl⟩ := List.mem_map.mp hquote
    obtain ⟨k, hk⟩ : ∃ k, (openQuoteProblem (placeOn offset number front) chars q).position =
        ((placeOn offset number front).afterAll (chars.take k)).upTo ((placeOn offset number front).afterAll chars) :=
      ⟨_, rfl⟩
    refine ⟨front ++ chars.take k, chars.drop k, by simp, ?_⟩
    have htake : '\n' ∉ chars.take k := fun hmem => hfree (List.mem_of_mem_take hmem)
    rw [hk, ← upTo_placeOn, List.append_assoc, List.take_append_drop, afterAll_placeOn htake, afterAll_placeOn hfree]
  · split at hdepth
    · cases hdepth
    · obtain rfl := List.mem_singleton.mp hdepth
      refine ⟨front, chars, rfl, ?_⟩
      rw [← upTo_placeOn, ← afterAll_placeOn hfree]
      rfl

theorem position_assemble {tiles : List (Piece × List Char)} (hfree : ∀ tile ∈ tiles, '\n' ∉ tile.2)
    (hd : d ∈ (assemble (placeOn offset number front) tiles).2) :
    ∃ before inside behind, front ++ tiles.flatMap (·.2) = before ++ inside ++ behind ∧
      d.position = positionOn offset number before inside := by
  induction tiles generalizing front with
  | nil => cases hd
  | cons tile tiles ih =>
    obtain ⟨piece, chars⟩ := tile
    obtain ⟨hchars, htiles⟩ := List.forall_mem_cons.mp hfree
    have hrest : d ∈ (assemble ((placeOn offset number front).afterAll chars) tiles).2 → ∃ before inside behind,
        front ++ ((piece, chars) :: tiles).flatMap (·.2) = before ++ inside ++ behind ∧
          d.position = positionOn offset number before inside := by
      intro hd
      rw [afterAll_placeOn hchars] at hd
      simpa using ih htiles hd
    rw [assemble] at hd
    cases piece with
    | spacing => exact hrest hd
    | word final =>
      rcases List.mem_append.mp hd with hword | hd
      · obtain ⟨before, inside, hfront, hposition⟩ := position_wordProblems hchars hword
        exact ⟨before, inside, tiles.flatMap (·.2), by simp [← hfront], hposition⟩
      · exact hrest hd
    | note => cases chars <;> exact hrest hd
    | comment => cases chars <;> exact hrest hd

/-- What holds of all positions on the lines that are read, and of those of the problems. -/
structure Standing (P : Position → Prop) (parts : List Line × List Diagnostic) : Prop where
  words : ∀ l ∈ parts.1, ∀ w ∈ l.contents, P w.position
  problems : ∀ d ∈ parts.2, P d.position

theorem Standing.imp (h : Standing P parts) (hpq : ∀ p, P p → Q p) : Standing Q parts where
  words l hl w hw := hpq _ (h.words l hl w hw)
  problems d hd := hpq _ (h.problems d hd)

/-- Some of the characters of a line that begins `offset` bytes from the beginning stand there. -/
def OnLine (offset number : Nat) (chars : List Char) (p : Position) : Prop :=
  ∃ before inside behind, chars = before ++ inside ++ behind ∧ p = positionOn offset number before inside

theorem standing_readLine (offset number : Nat) (hfree : '\n' ∉ chars) : Standing (OnLine offset number chars)
    ([(readLine ⟨offset, ⟨number, 1⟩⟩ chars).1], (readLine ⟨offset, ⟨number, 1⟩⟩ chars).2) where
  words := by
    refine List.forall_mem_singleton.mpr fun w hw => ?_
    obtain ⟨before, behind, hchars, hposition⟩ := (layout_readLine offset number hfree).located w hw
    exact ⟨before, w.text.toList, behind, hchars, hposition⟩
  problems d hd := by
    obtain ⟨rest, hrest⟩ : ∃ rest, chars = (dropTail? ['\r'] chars).getD chars ++ rest := by
      cases hdrop : dropTail? ['\r'] chars with
      | none => exact ⟨[], (List.append_nil _).symm⟩
      | some content => exact ⟨['\r'], dropTail?_eq_some.mp hdrop⟩
    have htiles : ∀ tile ∈ tiles cut ((dropTail? ['\r'] chars).getD chars), '\n' ∉ tile.2 := fun tile htile hmem => by
      have hinside := List.mem_flatMap.mpr ⟨tile, htile, hmem⟩
      rw [flatMap_tiles] at hinside
      exact hfree (hrest ▸ List.mem_append_left rest hinside)
    obtain ⟨before, inside, behind, hcontent, hposition⟩ : ∃ before inside behind,
        [] ++ (tiles cut _).flatMap (·.2) = before ++ inside ++ behind ∧
          d.position = positionOn offset number before inside := position_assemble htiles hd
    rw [flatMap_tiles, List.nil_append] at hcontent
    exact ⟨before, inside, behind ++ rest, by rw [← List.append_assoc, ← hcontent, ← hrest], hposition⟩

theorem OnLine.line (h : OnLine offset number chars p) : p.start.line = number := by
  obtain ⟨before, inside, behind, -, rfl⟩ := h
  rfl

theorem OnLine.isValid (h : OnLine offset number chars p) (hnumber : 0 < number) : p.isValid = true := by
  obtain ⟨before, inside, behind, -, rfl⟩ := h
  simp [Position.isValid, positionOn, hnumber, byteLength_append]

/-- What is said about a line that is not blank begins there. -/
theorem line_position {chars : List Char} (hfree : '\n' ∉ chars) (hnumber : 0 < number)
    (hblank : (readLine ⟨offset, ⟨number, 1⟩⟩ chars).1.isBlank = false) :
    (readLine ⟨offset, ⟨number, 1⟩⟩ chars).1.position.start.line = number := by
  have hwords := List.forall_mem_singleton.mp (standing_readLine offset number hfree).words
  refine Position.line_merge ?_ (List.forall_mem_map.mpr fun w hw =>
    ⟨(hwords w hw).line, (hwords w hw).isValid hnumber⟩)
  intro hnil
  rw [List.map_eq_nil_iff] at hnil
  simp only [List.append_eq_nil_iff, Option.toList_eq_nil_iff] at hnil
  rw [Line.isBlank, hnil.1.1, hnil.1.2, hnil.2] at hblank
  cases hblank

/-- The position stands from one place to another one. -/
structure Within (first last : Place) (p : Position) : Prop where
  line : first.location.line ≤ p.start.line ∧ p.start.line < last.location.line
  offset : first.offset ≤ p.offset.start ∧ p.offset.start < last.offset

theorem OnLine.within (h : OnLine offset number chars p) (hfirst : first.location.line ≤ number ∧ first.offset ≤ offset)
    (hlast : number < last.location.line ∧ offset + byteLength chars < last.offset) : Within first last p := by
  obtain ⟨before, inside, behind, rfl, rfl⟩ := h
  simp only [byteLength_append] at hlast
  constructor <;> simp only [positionOn] <;> omega

theorem standing_readLinesFrom {first last : Place} {offset number : Nat} (hfree : ∀ chars ∈ lines, '\n' ∉ chars)
    (hfirst : first.location.line ≤ number ∧ first.offset ≤ offset)
    (hlast : number + lines.length ≤ last.location.line ∧
      offset + byteLength (lines.flatMap (· ++ ['\n'])) ≤ last.offset) :
    Standing (Within first last) (readLinesFrom ⟨offset, ⟨number, 1⟩⟩ lines) := by
  induction lines generalizing offset number with
  | nil => exact ⟨nofun, nofun⟩
  | cons chars lines ih =>
    obtain ⟨hchars, hlines⟩ := List.forall_mem_cons.mp hfree
    have hfeed : byteLength (chars ++ ['\n']) = byteLength chars + 1 := byteLength_append ..
    rw [List.length_cons, List.flatMap_cons, byteLength_append, hfeed] at hlast
    have hline : Standing (Within first last) _ := (standing_readLine offset number hchars).imp fun p hp =>
      hp.within hfirst ⟨by omega, by omega⟩
    have hmore : Standing (Within first last)
        (readLinesFrom ⟨offset + byteLength (chars ++ ['\n']), ⟨number + 1, 1⟩⟩ lines) :=
      ih hlines ⟨by omega, by omega⟩ ⟨by omega, by omega⟩
    rw [readLinesFrom, afterAll_feed hchars]
    constructor
    · exact List.forall_mem_cons.mpr ⟨List.forall_mem_singleton.mp hline.words, hmore.words⟩
    · exact List.forall_mem_append.mpr ⟨hline.problems, hmore.problems⟩

theorem readLinesFrom_append (place : Place) (before after : List (List Char)) : readLinesFrom place (before ++ after) =
    ((readLinesFrom place before).1 ++ (readLinesFrom (place.afterAll (before.flatMap (· ++ ['\n']))) after).1,
      (readLinesFrom place before).2 ++ (readLinesFrom (place.afterAll (before.flatMap (· ++ ['\n']))) after).2) := by
  induction before generalizing place with
  | nil => rfl
  | cons chars before ih =>
    have hplace : (place.afterAll (chars ++ ['\n'])).afterAll (before.flatMap (· ++ ['\n'])) =
        place.afterAll ((chars :: before).flatMap (· ++ ['\n'])) :=
      (List.foldl_append ..).symm
    rw [List.cons_append, readLinesFrom, ih, readLinesFrom, hplace]
    simp only [List.cons_append, List.append_assoc]

/-- The place where the line behind some lines begins. -/
theorem afterAll_feeds {lines : List (List Char)} (hfree : ∀ chars ∈ lines, '\n' ∉ chars) (offset number : Nat) :
    Place.afterAll ⟨offset, ⟨number, 1⟩⟩ (lines.flatMap (· ++ ['\n'])) =
      ⟨offset + byteLength (lines.flatMap (· ++ ['\n'])), ⟨number + lines.length, 1⟩⟩ := by
  induction lines generalizing offset number with
  | nil => rfl
  | cons chars lines ih =>
    obtain ⟨hchars, hlines⟩ := List.forall_mem_cons.mp hfree
    rw [List.flatMap_cons, Place.afterAll, List.foldl_append]
    show Place.afterAll (Place.afterAll _ (chars ++ ['\n'])) _ = _
    rw [afterAll_feed hchars, ih hlines, List.length_cons]
    simp only [byteLength_append, Nat.add_assoc, Nat.add_comm lines.length]

-- ---------------------------------------------------------------------------
-- A text around one of its lines
-- ---------------------------------------------------------------------------

/-- The pieces of a text between its line feeds. -/
def linesOf (text : String) : List (List Char) := Text.splitAt '\n' text.toList

theorem free_linesOf (text : String) : ∀ chars ∈ linesOf text, '\n' ∉ chars :=
  fun _ hchars => not_mem_of_mem_pieces hchars (decide_eq_true rfl)

/-- The schema under construction when line `i` is read. -/
def stateAt (text : String) (i : Nat) : State := ((readLines text).1.take i).foldl State.line (stateBefore text)

section Around

variable (before after : List (List Char))

/-- Where the line behind `before` begins. -/
def lineStart : Nat := byteLength (before.flatMap (· ++ ['\n']))

/-- What is read in front of the line. -/
def readBefore : List Line × List Diagnostic := readLinesFrom {} before

/-- What is read behind the line, if nothing is on it. -/
def readAfter : List Line × List Diagnostic :=
  readLinesFrom ⟨lineStart before + 1, ⟨before.length + 2, 1⟩⟩ after

/-- The schema in front of the line. -/
def schemaBefore : State := (readBefore before).1.foldl State.line {}

/-- The schema of the whole text, if nothing is on the line. The diagnostics are those of the lines behind it. -/
def schemaAround : State := (readAfter before after).1.foldl State.line { schemaBefore before with diagnostics := [] }

/-- The diagnostics of the lines in front of a line and behind it. -/
def remarksAround : List Diagnostic :=
  (readBefore before).2 ++ (readAfter before after).2 ++ (schemaBefore before).diagnostics ++
    (schemaAround before after).remarks

variable {before after}

theorem readLines_around (hlines : linesOf text = before ++ chars :: after) : readLines text =
    ((readBefore before).1 ++ (readLine ⟨lineStart before, ⟨before.length + 1, 1⟩⟩ chars).1 ::
        (readAfter before after).1.map (.moved (.plus (byteLength chars))),
      (readBefore before).2 ++ ((readLine ⟨lineStart before, ⟨before.length + 1, 1⟩⟩ chars).2 ++
        (readAfter before after).2.map (.moved (.plus (byteLength chars))))) := by
  obtain ⟨hbefore, hchars, -⟩ : (∀ chars ∈ before, '\n' ∉ chars) ∧ '\n' ∉ chars ∧ ∀ chars ∈ after, '\n' ∉ chars := by
    simpa [hlines, or_imp, forall_and] using free_linesOf text
  have hnext : Place.afterAll ⟨lineStart before, ⟨before.length + 1, 1⟩⟩ (chars ++ ['\n']) =
      Place.plus (byteLength chars) ⟨lineStart before + 1, ⟨before.length + 2, 1⟩⟩ := by
    have hfeed : byteLength (chars ++ ['\n']) = byteLength chars + 1 := byteLength_append ..
    rw [afterAll_feed hchars, Place.plus, hfeed]
    exact congrArg (Place.mk · _) (by dsimp only; omega)
  have hstart : Place.afterAll {} (before.flatMap (· ++ ['\n'])) = ⟨lineStart before, ⟨before.length + 1, 1⟩⟩ := by
    rw [show ({} : Place) = ⟨0, ⟨1, 1⟩⟩ from rfl, afterAll_feeds hbefore, Nat.zero_add, Nat.add_comm 1]
    rfl
  rw [readLines, ← linesOf, hlines, readLinesFrom_append, hstart, readLinesFrom, hnext, readLinesFrom_plus]
  rfl

/-- The lines around a line hold no line feed. -/
structure Free (before after : List (List Char)) : Prop where
  before : ∀ chars ∈ before, '\n' ∉ chars
  after : ∀ chars ∈ after, '\n' ∉ chars

theorem standing_before (hfree : Free before after) :
    Standing (fun p => p.start.line ≤ before.length ∧ p.offset.start ≤ lineStart before) (readBefore before) := by
  have hstanding : Standing (Within ⟨0, ⟨1, 1⟩⟩ ⟨lineStart before, ⟨before.length + 1, 1⟩⟩) (readBefore before) :=
    standing_readLinesFrom hfree.before ⟨Nat.le_refl _, Nat.le_refl _⟩
      ⟨Nat.le_of_eq (Nat.add_comm ..), Nat.le_of_eq (Nat.zero_add _)⟩
  exact hstanding.imp fun p hp => ⟨Nat.lt_succ_iff.mp hp.line.2, Nat.le_of_lt hp.offset.2⟩

theorem standing_after (hfree : Free before after) : Standing
    (fun p => before.length + 1 < p.start.line ∧ lineStart before < p.offset.start) (readAfter before after) := by
  have hstanding : Standing (Within ⟨lineStart before + 1, ⟨before.length + 2, 1⟩⟩ ⟨_, ⟨_, 1⟩⟩)
      (readAfter before after) :=
    standing_readLinesFrom hfree.after ⟨Nat.le_refl _, Nat.le_refl _⟩ ⟨Nat.le_refl _, Nat.le_refl _⟩
  exact hstanding.imp fun p hp => ⟨hp.line.1, hp.offset.1⟩

theorem fixed_before (hfree : Free before after) (hl : l ∈ (readBefore before).1) :
    l.moved (.plusBehind (before.length + 1) n) = l ∧ l.Carried (.plusBehind (before.length + 1) n) := by
  have hwords := (standing_before hfree).words l hl
  have hfixed : l.moved (.plusBehind (before.length + 1) n) = l :=
    Line.moved_eq_self fun w hw => Position.plusBehind_of_le (by have := (hwords w hw).1; omega)
  have hline : l.position.start.line ≤ before.length := by
    refine Position.merge_rec (P := (·.start.line ≤ before.length)) (Nat.zero_le _) (fun p q hp _ => ?_)
      (List.forall_mem_map.mpr fun w hw => (hwords w hw).1)
    rw [Position.line_join]
    exact Nat.le_trans (Nat.min_le_left ..) hp
  refine ⟨hfixed, ?_⟩
  rw [Line.Carried, hfixed, Position.plusBehind_of_le (by omega)]

theorem carried_after (hfree : Free before after) (hl : l ∈ (readAfter before after).1) :
    l.moved (.plusBehind (before.length + 1) n) = l.moved (.plus n) ∧
      l.Carried (.plusBehind (before.length + 1) n) := by
  have hwords := (standing_after hfree).words l hl
  refine ⟨Line.moved_congr fun w hw => Position.plusBehind_of_lt (hwords w hw).1, ?_⟩
  have hmerge := Position.merge_plusBehind (n := n) (List.forall_mem_map.mpr fun w hw => (hwords w hw).1)
  rw [List.map_map] at hmerge
  exact (Line.position_moved l).trans hmerge

/-- The text in front of a line does not move. -/
theorem schemaBefore_moved (hfree : Free before after) (n : Nat) :
    (schemaBefore before).moved (.plusBehind (before.length + 1) n) [] = schemaBefore before :=
  State.moved_foldl rfl (fun _ hl => (fixed_before hfree hl).1) fun _ hl => (fixed_before hfree hl).2

theorem stateAt_eq (hfree : Free before after) (hlines : linesOf text = before ++ chars :: after) :
    stateAt text before.length = (readBefore before).1.foldl State.line (stateBefore text) := by
  have hlength : (readBefore before).1.length = before.length := (layout_readLinesFrom 0 1 hfree.before).1
  rw [stateAt, readLines_around hlines, ← hlength, List.take_left]

theorem stateAt_around (hfree : Free before after) (hlines : linesOf text = before ++ chars :: after) :
    stateAt text before.length =
      (schemaBefore before).moved (.plusBehind (before.length + 1) (byteLength chars)) (readLines text).2 := by
  have hfixed : (readBefore before).1.map (.moved (.plusBehind (before.length + 1) (byteLength chars))) =
      (readBefore before).1 :=
    (List.map_congr_left fun l hl => (fixed_before hfree hl).1).trans (List.map_id _)
  have hstart : stateBefore text = ({} : State).moved (.plusBehind (before.length + 1) (byteLength chars))
      (readLines text).2 := by
    simp [stateBefore, State.moved]
  rw [stateAt_eq hfree hlines, hstart, ← hfixed, State.foldl_moved _ fun l hl => (fixed_before hfree hl).2]
  rfl

/-- Everything behind a line moves, and nothing in front of it. -/
theorem remarksAround_moved (hfree : Free before after) (n : Nat) :
    (remarksAround before after).map (Diagnostic.moved (.plusBehind (before.length + 1) n)) =
      (readBefore before).2 ++ (readAfter before after).2.map (Diagnostic.moved (.plus n)) ++
        (schemaBefore before).diagnostics ++ (schemaAround before after).remarks.map (Diagnostic.moved (.plusBehind (before.length + 1) n)) := by
  have hfront : (readBefore before).2.map (Diagnostic.moved (.plusBehind (before.length + 1) n)) =
      (readBefore before).2 := by
    refine (List.map_congr_left fun d hd => ?_).trans (List.map_id _)
    have hline := ((standing_before hfree).problems d hd).1
    exact Diagnostic.moved_congr (g := id) (Position.plusBehind_of_le (by omega))
  have hback : (readAfter before after).2.map (Diagnostic.moved (.plusBehind (before.length + 1) n)) =
      (readAfter before after).2.map (Diagnostic.moved (.plus n)) := by
    refine List.map_congr_left fun d hd => ?_
    exact Diagnostic.moved_congr (Position.plusBehind_of_lt ((standing_after hfree).problems d hd).1)
  have hschema : (schemaBefore before).diagnostics.map (Diagnostic.moved (.plusBehind (before.length + 1) n)) =
      (schemaBefore before).diagnostics := congrArg State.diagnostics (schemaBefore_moved hfree n)
  rw [remarksAround, List.map_append, List.map_append, List.map_append, hfront, hback, hschema]

/-- What is read of a text one of whose lines does nothing but report something. -/
theorem readSchema_around (hfree : Free before after) (hlines : linesOf text = before ++ chars :: after)
    (hline : (stateAt text before.length).line (readLine ⟨lineStart before, ⟨before.length + 1, 1⟩⟩ chars).1 =
      { stateAt text before.length with diagnostics := (stateAt text before.length).diagnostics ++ reported }) :
    (readSchema text).value = (schemaAround before after).finish.value ∧
      (readSchema text).diagnostics = State.inOrder
        ((readLines text).2 ++ (schemaBefore before).diagnostics ++ reported ++ (schemaAround before after).remarks.map
          (Diagnostic.moved (.plusBehind (before.length + 1) (byteLength chars)))) := by
  have hbefore := schemaBefore_moved hfree (byteLength chars)
  have hdiagnostics : (schemaBefore before).diagnostics.map
      (Diagnostic.moved (.plusBehind (before.length + 1) (byteLength chars))) = (schemaBefore before).diagnostics :=
    congrArg State.diagnostics hbefore
  have hbehind : (stateAt text before.length).line (readLine ⟨lineStart before, ⟨before.length + 1, 1⟩⟩ chars).1 =
      ({ schemaBefore before with diagnostics := [] } : State).moved
        (.plusBehind (before.length + 1) (byteLength chars))
        ((readLines text).2 ++ (schemaBefore before).diagnostics ++ reported) := by
    rw [hline, stateAt_around hfree hlines]
    simp only [State.moved, hdiagnostics, List.map_nil, List.append_nil]
  have hafter : (readAfter before after).1.map (Line.moved (.plus (byteLength chars))) =
      (readAfter before after).1.map (Line.moved (.plusBehind (before.length + 1) (byteLength chars))) :=
    List.map_congr_left fun l hl => (carried_after hfree hl).1.symm
  have hread : (readLines text).1 = (readBefore before).1 ++
      (readLine ⟨lineStart before, ⟨before.length + 1, 1⟩⟩ chars).1 ::
        (readAfter before after).1.map (Line.moved (.plus (byteLength chars))) :=
    congrArg Prod.fst (readLines_around hlines)
  have hrun : (readLines text).1.foldl State.line (stateBefore text) = (schemaAround before after).moved
      (.plusBehind (before.length + 1) (byteLength chars))
      ((readLines text).2 ++ (schemaBefore before).diagnostics ++ reported) := by
    rw [hread, List.foldl_append, List.foldl_cons, ← stateAt_eq hfree hlines, hbehind, hafter,
      State.foldl_moved _ fun l hl => (carried_after hfree hl).2]
    rfl
  have hfinish : readSchema text = ((readLines text).1.foldl State.line (stateBefore text)).finish := rfl
  rw [hfinish, hrun]
  exact ⟨State.value_finish_moved _, by rw [State.diagnostics_finish, State.remarks_moved]⟩

/-- A map that changes a position exactly if it is on the line. -/
def offLine (before : List (List Char)) (p : Position) : Position :=
  if p.Beside (before.length + 1) (lineStart before) then p else .unknown

theorem offLine_eq_self {p : Position} : offLine before p = p ↔ p.Beside (before.length + 1) (lineStart before) := by
  unfold offLine
  split
  · rename_i h
    exact iff_of_true rfl h
  · rename_i h
    refine iff_of_false (fun heq => h ?_) h
    rw [← heq]
    exact Position.beside_unknown (Nat.succ_pos _)

theorem fixed_offLine {l : Line} (h : ∀ w ∈ l.contents, w.position.Beside (before.length + 1) (lineStart before)) :
    l.moved (offLine before) = l ∧ l.Carried (offLine before) := by
  have hfixed : l.moved (offLine before) = l := Line.moved_eq_self fun w hw => offLine_eq_self.mpr (h w hw)
  refine ⟨hfixed, ?_⟩
  rw [Line.Carried, hfixed]
  exact (offLine_eq_self.mpr (.merge (Nat.succ_pos _) (List.forall_mem_map.mpr h))).symm

/-- Nothing that is said about the lines around a line is about the line itself. -/
theorem beside_remarksAround (hfree : Free before after) (hd : d ∈ remarksAround before after) :
    d.position.Beside (before.length + 1) (lineStart before) := by
  have hfront : Standing (Position.Beside (before.length + 1) (lineStart before)) (readBefore before) :=
    (standing_before hfree).imp fun p hp => .inl ⟨Nat.lt_succ_iff.mpr hp.1, hp.2⟩
  have hback : Standing (Position.Beside (before.length + 1) (lineStart before)) (readAfter before after) :=
    (standing_after hfree).imp fun p hp => .inr hp
  have hbefore : (schemaBefore before).moved (offLine before) [] = schemaBefore before :=
    State.moved_foldl rfl (fun l hl => (fixed_offLine (hfront.words l hl)).1) fun l hl =>
      (fixed_offLine (hfront.words l hl)).2
  have hstart : ({ schemaBefore before with diagnostics := [] } : State).moved (offLine before) [] =
      { schemaBefore before with diagnostics := [] } :=
    congrArg (fun s : State => { s with diagnostics := [] }) hbefore
  have haround : (schemaAround before after).moved (offLine before) [] = schemaAround before after :=
    State.moved_foldl hstart (fun l hl => (fixed_offLine (hback.words l hl)).1) fun l hl =>
      (fixed_offLine (hback.words l hl)).2
  simp only [remarksAround, List.mem_append, or_assoc] at hd
  rcases hd with hd | hd | hd | hd
  · exact hfront.problems d hd
  · exact hback.problems d hd
  · have hremarks : d ∈ (schemaBefore before).remarks :=
      List.mem_append_left _ (List.mem_append_left _ hd)
    exact offLine_eq_self.mp (State.mem_remarks_of_moved hbefore hremarks)
  · exact offLine_eq_self.mp (State.mem_remarks_of_moved haround hd)

end Around

-- ---------------------------------------------------------------------------
-- Rejected lines
-- ---------------------------------------------------------------------------

/-- The line stands in no block or in a skipped one, or it cannot be read as an attribute. -/
def State.rejects (s : State) (l : Line) : Bool :=
  match s.block with
  | .closed | .skipped => true
  | .entity _ _ => !(AttributeLine.read s.space l).isOk

theorem AttributeLine.applyAll_error {l : AttributeLine} (h : l.applyAll space words = .error (problem, position)) :
    ∃ w ∈ words, position = w.position := by
  induction l, words using applyAll.induct space with
  | case1 l => cases h
  | case2 l word rest hnone =>
    simp only [applyAll, hnone] at h
    cases h
    exact ⟨word, List.mem_cons_self, rfl⟩
  | case3 l word cardinalities href =>
    simp only [applyAll, href] at h
    cases h
    exact ⟨word, List.mem_cons_self, rfl⟩
  | case4 l word cardinalities href target rest reference ih =>
    simp only [applyAll, href] at h
    obtain ⟨w, hw, hposition⟩ := ih h
    exact ⟨w, List.mem_cons_of_mem _ (List.mem_cons_of_mem _ hw), hposition⟩
  | case5 l word rest m hnot hm ih =>
    rw [applyAll, hm] at h
    cases m with
    | reference cardinalities => exact absurd rfl (hnot cardinalities)
    | _ =>
      obtain ⟨w, hw, hposition⟩ := ih h
      exact ⟨w, List.mem_cons_of_mem _ hw, hposition⟩

theorem AttributeLine.read_error (h : read space l = .error (problem, position)) :
    position = l.position ∨ ∃ w ∈ l.words, position = w.position := by
  unfold read at h
  split at h
  · cases h
    exact .inl rfl
  · rename_i name rest hwords
    rw [hwords]
    split at h
    · cases h
    · rename_i word more
      split at h
      · obtain ⟨w, hw, hposition⟩ := applyAll_error h
        exact .inr ⟨w, List.mem_cons_of_mem _ hw, hposition⟩
      · obtain ⟨w, hw, hposition⟩ := applyAll_error h
        exact .inr ⟨w, List.mem_cons_of_mem _ (List.mem_cons_of_mem _ hw), hposition⟩

/-- A rejected line does nothing but report something about itself. -/
theorem State.line_of_rejects {s : State} (h : s.rejects l = true) (hindent : 0 < l.indent) (hblank : l.isBlank = false)
    (hcomment : l.isComment = false) : ∃ reported, s.line l = { s with diagnostics := s.diagnostics ++ reported } ∧
      ∀ d ∈ reported, d.position = l.position ∨ ∃ w ∈ l.words, d.position = w.position := by
  have hline : s.line l = s.indented l := by
    rw [line, hblank, hcomment, if_neg Bool.false_ne_true, if_neg Bool.false_ne_true, if_neg (Nat.ne_of_gt hindent)]
  rw [hline, indented]
  unfold rejects at h
  cases hblock : s.block with
  | closed =>
    refine ⟨[Problem.attributeOutsideEntity.diagnostic l.position], ?_, List.forall_mem_singleton.mpr (.inl rfl)⟩
    dsimp only
    rw [← hblock]
    rfl
  | skipped =>
    refine ⟨[], ?_, nofun⟩
    show s = _
    rw [List.append_nil, ← hblock]
  | entity id parents =>
    rw [hblock] at h
    obtain ⟨problem, position, herror⟩ : ∃ problem position, AttributeLine.read s.space l = .error (problem, position) := by
      cases hread : AttributeLine.read s.space l with
      | ok parsed => simp [hread, Except.isOk, Except.toBool] at h
      | error problem => exact ⟨problem.1, problem.2, rfl⟩
    refine ⟨[problem.diagnostic position], ?_, List.forall_mem_singleton.mpr (AttributeLine.read_error herror)⟩
    dsimp only
    rw [herror, ← hblock]
    rfl

/-- The text with another line in place of line `i`. -/
def withLine (text : String) (i : Nat) (line : List Char) : String :=
  String.ofList (['\n'].intercalate ((linesOf text).set i line))

theorem linesOf_withLine (hfree : '\n' ∉ line) : linesOf (withLine text i line) = (linesOf text).set i line := by
  have hne : (linesOf text).set i line ≠ [] := by
    rw [Ne, List.set_eq_nil_iff]
    exact pieces_ne_nil
  rw [linesOf, withLine, String.toList_ofList, splitAt_intercalate hne]
  intro chars hchars
  rcases List.mem_or_eq_of_mem_set hchars with hmem | rfl
  · exact free_linesOf text chars hmem
  · exact hfree

/-- Where something stands after line `number`, of `old` bytes, has got `new` bytes. -/
def moveBehind (number old new : Nat) (p : Position) : Position :=
  if number < p.start.line then { p with offset := ⟨p.offset.start - old + new, p.offset.stop - old + new⟩ } else p

theorem moveBehind_plusBehind (p : Position) :
    moveBehind number old new (p.plusBehind number old) = p.plusBehind number new := by
  unfold moveBehind
  rw [Position.plusBehind_line]
  unfold Position.plusBehind
  split
  · simp [Position.plus]
  · rfl

theorem inOrder_filter (p : Diagnostic → Bool) (ds : List Diagnostic) :
    State.inOrder (ds.filter p) = (State.inOrder ds).filter p := by
  rw [State.inOrder, State.inOrder, filter_mergeSort]
  · intro a b c hab hbc
    exact decide_eq_true (Nat.le_trans (of_decide_eq_true hab) (of_decide_eq_true hbc))
  · intro a b
    simpa using Nat.le_total ..

theorem inOrder_map {ds : List Diagnostic} (h : ∀ a ∈ ds, ∀ b ∈ ds,
      (a.position.offset.start ≤ b.position.offset.start ↔
        (f a.position).offset.start ≤ (f b.position).offset.start)) :
    State.inOrder (ds.map (Diagnostic.moved f)) = (State.inOrder ds).map (Diagnostic.moved f) :=
  (List.map_mergeSort fun a ha b hb => decide_eq_decide.mpr (h a ha b hb)).symm

/-- The diagnostics that remain, in order, when those of one line are left out and all others move. -/
theorem inOrder_around {remarks all : List Diagnostic} (hbeside : ∀ d ∈ remarks, d.position.Beside number first)
    (hkept : all.filter (·.position.start.line ≠ number) =
      remarks.map (Diagnostic.moved (.plusBehind number old))) (new : Nat) :
    State.inOrder (remarks.map (Diagnostic.moved (.plusBehind number new))) =
      ((State.inOrder all).filter (·.position.start.line ≠ number)).map
        (Diagnostic.moved (moveBehind number old new)) := by
  have hmove : remarks.map (Diagnostic.moved (.plusBehind number new)) =
      (remarks.map (Diagnostic.moved (.plusBehind number old))).map (Diagnostic.moved (moveBehind number old new)) := by
    rw [List.map_map]
    refine List.map_congr_left fun d _ => ?_
    exact Diagnostic.moved_congr (g := moveBehind number old new ∘ .plusBehind number old)
      (moveBehind_plusBehind d.position).symm
  rw [hmove, inOrder_map, ← hkept, inOrder_filter]
  -- What is behind the line stays behind what is in front of it, however long the line is.
  refine List.forall_mem_map.mpr fun a ha => List.forall_mem_map.mpr fun b hb => ?_
  have hfirst := hbeside a ha
  have hsecond := hbeside b hb
  simp only [Diagnostic.moved_position, moveBehind_plusBehind]
  unfold Position.Beside at hfirst hsecond
  unfold Position.plusBehind
  split <;> split <;> simp only [Position.plus] <;> omega

/-- What kind of line it is does not depend on its place. -/
theorem kind_assemble (place place' : Place) (tiles : List (Piece × List Char)) :
    (assemble place tiles).1.words.isEmpty = (assemble place' tiles).1.words.isEmpty ∧
      (assemble place tiles).1.note.isNone = (assemble place' tiles).1.note.isNone ∧
      (assemble place tiles).1.comment.isSome = (assemble place' tiles).1.comment.isSome := by
  induction tiles generalizing place place' with
  | nil => exact ⟨rfl, rfl, rfl⟩
  | cons tile tiles ih =>
    obtain ⟨piece, chars⟩ := tile
    obtain ⟨hwords, hnote, hcomment⟩ := ih (place.afterAll chars) (place'.afterAll chars)
    rw [assemble, assemble]
    cases piece with
    | spacing => exact ⟨hwords, hnote, hcomment⟩
    | word final => exact ⟨rfl, hnote, hcomment⟩
    | note =>
      cases chars with
      | nil => exact ⟨hwords, hnote, hcomment⟩
      | cons mark content => exact ⟨hwords, rfl, hcomment⟩
    | comment =>
      cases chars with
      | nil => exact ⟨hwords, hnote, hcomment⟩
      | cons mark content => exact ⟨hwords, hnote, rfl⟩

theorem isComment_readLine (place place' : Place) (chars : List Char) :
    (readLine place chars).1.isComment = (readLine place' chars).1.isComment := by
  obtain ⟨hwords, hnote, hcomment⟩ := kind_assemble place place' (tiles cut ((dropTail? ['\r'] chars).getD chars))
  simp only [readLine, Line.isComment]
  rw [hwords, hnote, hcomment]

/-- Only words have problems. -/
theorem assemble_problems {place : Place} {tiles : List (Piece × List Char)}
    (h : (assemble place tiles).1.words.isEmpty = true) : (assemble place tiles).2 = [] := by
  induction tiles generalizing place with
  | nil => rfl
  | cons tile tiles ih =>
    obtain ⟨piece, chars⟩ := tile
    rw [assemble] at h ⊢
    cases piece with
    | spacing => exact ih h
    | word final => cases h
    | note => cases chars <;> exact ih h
    | comment => cases chars <;> exact ih h

theorem readLine_problems (h : (readLine place chars).1.isComment = true) : (readLine place chars).2 = [] := by
  rw [Line.isComment, Bool.and_eq_true, Bool.and_eq_true] at h
  exact assemble_problems h.1.1

theorem State.line_comment (s : State) (h : l.isComment = true) : s.line l = s := by
  have hblank : l.isBlank = false := by
    rw [Line.isComment, Bool.and_eq_true] at h
    rw [Line.isBlank, Option.isNone_eq_false_iff.mpr h.2, Bool.and_false]
  rw [line, hblank, if_neg Bool.false_ne_true, if_pos h]

/-- A comment leaves nothing but what is read around it. -/
theorem readSchema_comment (hsurround : Free before after) (hlines : linesOf text = before ++ comment :: after)
    (honly : (readLine {} comment).1.isComment = true) :
    (readSchema text).value = (schemaAround before after).finish.value ∧ (readSchema text).diagnostics =
      State.inOrder ((remarksAround before after).map
        (Diagnostic.moved (.plusBehind (before.length + 1) (byteLength comment)))) := by
  have hcomment := (isComment_readLine ⟨lineStart before, ⟨before.length + 1, 1⟩⟩ {} comment).trans honly
  obtain ⟨hvalue, hdiagnostics⟩ := readSchema_around hsurround hlines (by
    rw [State.line_comment _ hcomment, List.append_nil])
  refine ⟨hvalue, hdiagnostics.trans ?_⟩
  rw [remarksAround_moved hsurround, readLines_around hlines, readLine_problems hcomment, List.append_nil, List.nil_append]

/-- A rejected line leaves what is read around it and diagnostics about itself. -/
theorem readSchema_rejected (hsurround : Free before after) (hlines : linesOf text = before ++ chars :: after)
    (hl : (readLine ⟨lineStart before, ⟨before.length + 1, 1⟩⟩ chars).1 = l) (hindent : 0 < l.indent)
    (hblank : l.isBlank = false) (hcomment : l.isComment = false)
    (hrejected : (stateAt text before.length).rejects l = true) :
    (readSchema text).value = (schemaAround before after).finish.value ∧ ∃ all,
      (readSchema text).diagnostics = State.inOrder all ∧ all.filter (·.position.start.line ≠ before.length + 1) =
        (remarksAround before after).map (Diagnostic.moved (.plusBehind (before.length + 1) (byteLength chars))) := by
  have hfree : '\n' ∉ chars := free_linesOf text chars (by simp [hlines])
  have hstanding := standing_readLine (lineStart before) (before.length + 1) hfree
  obtain ⟨reported, hline, hreported⟩ := State.line_of_rejects hrejected hindent hblank hcomment
  obtain ⟨hvalue, hdiagnostics⟩ := readSchema_around hsurround hlines (hl ▸ hline)
  refine ⟨hvalue, _, hdiagnostics, ?_⟩
  have hwords : ∀ w ∈ l.contents, w.position.start.line = before.length + 1 := fun w hw =>
    (List.forall_mem_singleton.mp hstanding.words w (hl ▸ hw)).line
  have hposition : l.position.start.line = before.length + 1 :=
    hl ▸ line_position hfree (Nat.succ_pos _) (hl ▸ hblank)
  have habout : ∀ d ∈ reported, d.position.start.line = before.length + 1 := by
    intro d hd
    rcases hreported d hd with heq | ⟨w, hw, heq⟩
    · rw [heq, hposition]
    · rw [heq, hwords w (List.mem_append_left _ (List.mem_append_left _ hw))]
  have hothers : ∀ d ∈ (remarksAround before after).map
      (Diagnostic.moved (.plusBehind (before.length + 1) (byteLength chars))),
      d.position.start.line ≠ before.length + 1 := by
    refine List.forall_mem_map.mpr fun d hd => ?_
    have hbeside := beside_remarksAround hsurround hd
    unfold Position.Beside at hbeside
    rw [Diagnostic.moved_position, Position.plusBehind_line]
    omega
  have hnone (ds : List Diagnostic) (h : ∀ d ∈ ds, d.position.start.line = before.length + 1) :
      ds.filter (·.position.start.line ≠ before.length + 1) = [] :=
    List.filter_eq_nil_iff.mpr fun d hd => by simp [h d hd]
  have hall := List.filter_eq_self.mpr fun d hd => decide_eq_true (hothers d hd)
  rw [remarksAround_moved hsurround] at hall ⊢
  rw [← hall, readLines_around hlines]
  simp only [List.filter_append, hnone _ habout, hnone _ fun d hd => (hstanding.problems d hd).line, List.nil_append,
    List.append_assoc]

/-- A comment in place of a rejected line changes nothing but what is said about this line, and where everything
behind it stands. -/
theorem readSchema_withLine {text : String} {i : Nat} {chars comment : List Char} {l : Line}
    (hchars : (linesOf text)[i]? = some chars) (hl : (readLines text).1[i]? = some l) (hindent : 0 < l.indent)
    (hblank : l.isBlank = false) (hcomment : l.isComment = false) (hrejected : (stateAt text i).rejects l = true)
    (hfree : '\n' ∉ comment) (honly : (readLine {} comment).1.isComment = true) :
    (readSchema (withLine text i comment)).value = (readSchema text).value ∧
      (readSchema (withLine text i comment)).diagnostics =
        ((readSchema text).diagnostics.filter (·.position.start.line ≠ i + 1)).map
          (Diagnostic.moved (moveBehind (i + 1) (byteLength chars) (byteLength comment))) := by
  obtain ⟨before, after, hlines, rfl⟩ : ∃ before after, linesOf text = before ++ chars :: after ∧ before.length = i := by
    obtain ⟨hi, rfl⟩ := List.getElem?_eq_some_iff.mp hchars
    refine ⟨(linesOf text).take i, (linesOf text).drop (i + 1), ?_, List.length_take_of_le (Nat.le_of_lt hi)⟩
    rw [← List.drop_eq_getElem_cons hi, List.take_append_drop]
  have hsurround : Free before after := by
    constructor <;> exact fun other hother => free_linesOf text other (by simp [hlines, hother])
  have hedited : linesOf (withLine text before.length comment) = before ++ comment :: after := by
    rw [linesOf_withLine hfree, hlines]
    simp
  have hread : (readLine ⟨lineStart before, ⟨before.length + 1, 1⟩⟩ chars).1 = l := by
    have hlength : (readBefore before).1.length = before.length := (layout_readLinesFrom 0 1 hsurround.before).1
    rw [readLines_around hlines, List.getElem?_append_right (Nat.le_of_eq hlength), hlength, Nat.sub_self] at hl
    exact Option.some.inj hl
  obtain ⟨hvalue, all, hdiagnostics, hkept⟩ := readSchema_rejected hsurround hlines hread hindent hblank hcomment hrejected
  obtain ⟨hvalue', hdiagnostics'⟩ := readSchema_comment hsurround hedited honly
  refine ⟨hvalue'.trans hvalue.symm, ?_⟩
  rw [hdiagnostics', hdiagnostics]
  exact inOrder_around (fun d hd => beside_remarksAround hsurround hd) hkept _

/-- An attribute with a modifier that does not exist, and another one inside the attribute before it. -/
def misspelled : String := "users\n  id int pk\n  name text frobnicate\n    first years\n"

def misspelledLine : Line where
  number := 3
  indent := 2
  words := [⟨"name", ⟨⟨20, 24⟩, ⟨3, 3⟩, ⟨3, 7⟩⟩⟩, ⟨"text", ⟨⟨25, 29⟩, ⟨3, 8⟩, ⟨3, 12⟩⟩⟩,
    ⟨"frobnicate", ⟨⟨30, 40⟩, ⟨3, 13⟩, ⟨3, 23⟩⟩⟩]

theorem readSchema_withLine_misspelled : (readLines misspelled).1[2]? = some misspelledLine ∧
    (stateAt misspelled 2).rejects misspelledLine = true ∧
    (readSchema (withLine misspelled 2 "# name".toList)).value = (readSchema misspelled).value ∧
    (readSchema (withLine misspelled 2 "# name".toList)).diagnostics =
      ((readSchema misspelled).diagnostics.filter (·.position.start.line ≠ 3)).map
        (Diagnostic.moved (moveBehind 3 (byteLength "  name text frobnicate".toList) (byteLength "# name".toList))) := by
  have hline : (readLines misspelled).1[2]? = some misspelledLine := by decide +kernel
  have hrejected : (stateAt misspelled 2).rejects misspelledLine = true := by decide +kernel
  refine ⟨hline, hrejected, ?_⟩
  exact readSchema_withLine (by decide +kernel) hline (by decide) (by decide) (by decide) hrejected (by decide +kernel)
    (by decide +kernel)

end Markup

end SchemaDialects
