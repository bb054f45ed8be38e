import Mathlib.Data.Prod.Lex
import Mathlib.Order.Bounds.Basic
import Mathlib.Order.MinMax
import SchemaDialects.Position

/-!
# Merged positions

Positions are ordered by what they cover, and `join` is the supremum of two of them. `merge_joins`: a merged position
is the supremum of the valid ones, so it depends on nothing but which these are, and parts of a list may be merged
first.
-/

namespace SchemaDialects

-- ---------------------------------------------------------------------------
-- Reading order
-- ---------------------------------------------------------------------------

namespace Location

theorem atMost_iff {a b : Location} :
    a.atMost b = true ↔ a.line < b.line ∨ a.line = b.line ∧ a.column ≤ b.column := by
  simp [atMost]

theorem atMost_trans {a b c : Location} (hab : a.atMost b = true) (hbc : b.atMost c = true) :
    a.atMost c = true := by
  rw [atMost_iff] at *
  omega

/-- Lines count before columns. -/
def place (a : Location) : ℕ ×ₗ ℕ := toLex (a.line, a.column)

theorem place_injective : Function.Injective place := by
  intro a b h
  obtain ⟨hline, hcolumn⟩ := Prod.mk.inj (toLex.injective h)
  cases a
  cases b
  exact congrArg₂ mk hline hcolumn

instance : LinearOrder Location := LinearOrder.lift' place place_injective

theorem le_iff {a b : Location} : a ≤ b ↔ a.atMost b = true :=
  Prod.Lex.toLex_le_toLex.trans atMost_iff.symm

theorem earlier_eq_min (a b : Location) : a.earlier b = min a b := by
  simp only [earlier, min_def, le_iff]

theorem later_eq_max (a b : Location) : a.later b = max a b := by
  simp only [later, max_def, le_iff]

end Location

namespace Position

-- ---------------------------------------------------------------------------
-- Covered positions
-- ---------------------------------------------------------------------------

/-- The second position covers the first one: bytes, start and stop. -/
structure Within (p q : Position) : Prop where
  bytes : q.offset.start ≤ p.offset.start ∧ p.offset.stop ≤ q.offset.stop
  start : q.start ≤ p.start
  stop : p.stop ≤ q.stop

theorem Within.antisymm {p q : Position} (h : p.Within q) (h' : q.Within p) : p = q := by
  obtain ⟨⟨start, stop⟩, first, last⟩ := p
  obtain ⟨⟨start', stop'⟩, first', last'⟩ := q
  obtain rfl : start = start' := le_antisymm h'.bytes.1 h.bytes.1
  obtain rfl : stop = stop' := le_antisymm h.bytes.2 h'.bytes.2
  obtain rfl : first = first' := le_antisymm h'.start h.start
  obtain rfl : last = last' := le_antisymm h.stop h'.stop
  rfl

theorem join_within_iff {p q r : Position} : (p.join q).Within r ↔ p.Within r ∧ q.Within r := by
  have hstart : (p.join q).start = min p.start q.start := Location.earlier_eq_min _ _
  have hstop : (p.join q).stop = max p.stop q.stop := Location.later_eq_max _ _
  constructor
  · rintro ⟨⟨hfirst, hlast⟩, hs, he⟩
    obtain ⟨hfp, hfq⟩ := le_min_iff.mp hfirst
    obtain ⟨hlp, hlq⟩ := max_le_iff.mp hlast
    obtain ⟨hsp, hsq⟩ := le_min_iff.mp (hstart ▸ hs)
    obtain ⟨hep, heq⟩ := max_le_iff.mp (hstop ▸ he)
    exact ⟨⟨⟨hfp, hlp⟩, hsp, hep⟩, ⟨hfq, hlq⟩, hsq, heq⟩
  · rintro ⟨hp, hq⟩
    refine ⟨⟨le_min hp.bytes.1 hq.bytes.1, max_le hp.bytes.2 hq.bytes.2⟩, ?_, ?_⟩
    · exact hstart ▸ le_min hp.start hq.start
    · exact hstop ▸ max_le hp.stop hq.stop

instance : PartialOrder Position where
  le := Within
  le_refl _ := ⟨⟨le_rfl, le_rfl⟩, le_rfl, le_rfl⟩
  le_trans _ _ _ h h' :=
    ⟨⟨h'.bytes.1.trans h.bytes.1, h.bytes.2.trans h'.bytes.2⟩, h'.start.trans h.start, h.stop.trans h'.stop⟩
  le_antisymm _ _ := Within.antisymm

instance : SemilatticeSup Position where
  sup := join
  le_sup_left p q := (join_within_iff.mp (le_refl (p.join q))).1
  le_sup_right p q := (join_within_iff.mp (le_refl (p.join q))).2
  sup_le _ _ _ hp hq := join_within_iff.mpr ⟨hp, hq⟩

-- ---------------------------------------------------------------------------
-- Joining many
-- ---------------------------------------------------------------------------

theorem foldl_join_rec {P : Position → Prop} (hjoin : ∀ p q, P p → P q → P (p.join q)) {qs : List Position}
    (hp : P p) (h : ∀ q ∈ qs, P q) : P (qs.foldl join p) := by
  induction qs generalizing p with
  | nil => exact hp
  | cons q qs ih =>
    obtain ⟨hq, hqs⟩ := List.forall_mem_cons.mp h
    exact ih (hjoin p q hp hq) hqs

theorem merge_rec {P : Position → Prop} (hunknown : P .unknown) (hjoin : ∀ p q, P p → P q → P (p.join q))
    {ps : List Position} (h : ∀ p ∈ ps, P p) : P (merge ps) := by
  have hvalid : ∀ p ∈ ps.filter isValid, P p := fun p hp => h p (List.mem_filter.mp hp).1
  unfold merge
  cases hps : ps.filter isValid with
  | nil => exact hunknown
  | cons p qs =>
    obtain ⟨hp, hqs⟩ := List.forall_mem_cons.mp (hps ▸ hvalid)
    exact foldl_join_rec hjoin hp hqs

theorem foldl_join_le_iff {p r : Position} {ps : List Position} :
    ps.foldl join p ≤ r ↔ ∀ q ∈ p :: ps, q ≤ r := by
  induction ps generalizing p with
  | nil => simp
  | cons q ps ih =>
    rw [List.foldl_cons, ih, List.forall_mem_cons, List.forall_mem_cons, List.forall_mem_cons, ← and_assoc]
    exact and_congr_left' sup_le_iff

theorem isValid_join {p q : Position} (hp : p.isValid = true) (hq : q.isValid = true) :
    (p.join q).isValid = true := by
  simp only [isValid, Bool.and_eq_true, decide_eq_true_eq] at *
  obtain ⟨⟨hps, hpe⟩, hpo⟩ := hp
  obtain ⟨⟨hqs, hqe⟩, -⟩ := hq
  refine ⟨⟨?_, ?_⟩, (min_le_left _ _).trans (hpo.trans (le_max_left _ _))⟩
  · simp only [join, Location.earlier]
    split <;> assumption
  · simp only [join, Location.later]
    split <;> assumption

-- ---------------------------------------------------------------------------
-- Merging
-- ---------------------------------------------------------------------------

section

variable {ps qs : List Position} {r : Position}

theorem merge_of_none (h : ∀ p ∈ ps, ¬ p.isValid = true) : merge ps = unknown := by
  rw [merge, List.filter_eq_nil_iff.mpr h]

theorem isValid_merge_iff : (merge ps).isValid = true ↔ ∃ p ∈ ps, p.isValid = true := by
  constructor
  · intro h
    by_contra hnone
    rw [merge_of_none fun p hp hvalid => hnone ⟨p, hp, hvalid⟩] at h
    exact absurd h (by decide)
  · rintro ⟨p, hp, hvalid⟩
    have hmem : p ∈ ps.filter isValid := List.mem_filter.mpr ⟨hp, hvalid⟩
    have hall : ∀ q ∈ ps.filter isValid, q.isValid = true := fun q hq => (List.mem_filter.mp hq).2
    unfold merge
    cases hps : ps.filter isValid with
    | nil => exact absurd (hps ▸ hmem) List.not_mem_nil
    | cons q qs =>
      obtain ⟨hq, hqs⟩ := List.forall_mem_cons.mp (hps ▸ hall)
      exact foldl_join_rec (fun _ _ => isValid_join) hq hqs

/-- The bounds of the valid positions are those of the merged one, if there is any. -/
theorem merge_le_iff : ((merge ps).isValid = true → merge ps ≤ r) ↔ ∀ p ∈ ps, p.isValid = true → p ≤ r := by
  by_cases hany : ∃ p ∈ ps, p.isValid = true
  · have hmem : (∀ p ∈ ps, p.isValid = true → p ≤ r) ↔ ∀ p ∈ ps.filter isValid, p ≤ r := by
      simp only [List.mem_filter, and_imp]
    rw [imp_iff_right (isValid_merge_iff.mpr hany), hmem]
    obtain ⟨p, hp, hvalid⟩ := hany
    have hpmem : p ∈ ps.filter isValid := List.mem_filter.mpr ⟨hp, hvalid⟩
    unfold merge
    cases hps : ps.filter isValid with
    | nil => exact absurd (hps ▸ hpmem) List.not_mem_nil
    | cons q qs => exact foldl_join_le_iff
  · refine iff_of_true (fun h => absurd (isValid_merge_iff.mp h) hany) fun p hp hvalid => ?_
    exact absurd ⟨p, hp, hvalid⟩ hany

theorem isLUB_merge (h : (merge ps).isValid = true) : IsLUB {p | p ∈ ps ∧ p.isValid = true} (merge ps) := by
  refine isLUB_iff_le_iff.mpr fun r => (imp_iff_right h).symm.trans (merge_le_iff.trans ?_)
  exact ⟨fun hle p hp => hle p hp.1 hp.2, fun hle p hp hvalid => hle ⟨hp, hvalid⟩⟩

theorem merge_ext (hvalid : (merge ps).isValid = true ↔ (merge qs).isValid = true)
    (hbound : ∀ r, (∀ p ∈ ps, p.isValid = true → p ≤ r) ↔ ∀ p ∈ qs, p.isValid = true → p ≤ r) :
    merge ps = merge qs := by
  by_cases h : (merge ps).isValid = true
  · refine eq_of_forall_ge_iff fun r => ?_
    have hiff := merge_le_iff.trans ((hbound r).trans merge_le_iff.symm)
    rwa [imp_iff_right h, imp_iff_right (hvalid.mp h)] at hiff
  · have hunknown : ∀ {ps}, ¬ (merge ps).isValid = true → merge ps = unknown := fun hps =>
      merge_of_none fun p hp hpvalid => hps (isValid_merge_iff.mpr ⟨p, hp, hpvalid⟩)
    rw [hunknown h, hunknown (mt hvalid.mpr h)]

theorem merge_append (ps qs : List Position) : merge (ps ++ qs) = merge [merge ps, merge qs] := by
  apply merge_ext
  · simp [isValid_merge_iff, or_and_right, exists_or]
  · intro r
    have hparts : (∀ p ∈ [merge ps, merge qs], p.isValid = true → p ≤ r) ↔
        (∀ p ∈ ps, p.isValid = true → p ≤ r) ∧ ∀ p ∈ qs, p.isValid = true → p ≤ r := by
      rw [List.forall_mem_cons, List.forall_mem_singleton, merge_le_iff, merge_le_iff]
    rw [hparts, List.forall_mem_append]

theorem merge_congr (h : ∀ p, p.isValid = true → (p ∈ ps ↔ p ∈ qs)) : merge ps = merge qs := by
  apply merge_ext
  · rw [isValid_merge_iff, isValid_merge_iff]
    exact exists_congr fun p => and_congr_left (h p)
  · exact fun r => forall_congr' fun p => ⟨fun hp hq hvalid => hp ((h p hvalid).mpr hq) hvalid,
      fun hq hp hvalid => hq ((h p hvalid).mp hp) hvalid⟩

end

/-- Parts of a list may be merged first; only which valid positions there are matters, not their order, how often they
occur and what invalid ones stand between; and the outcome is valid exactly if one of them is, the least position that
covers them all. -/
theorem merge_joins :
    (∀ ps qs, merge (ps ++ qs) = merge [merge ps, merge qs]) ∧
    (∀ ps qs : List Position, (∀ p, p.isValid = true → (p ∈ ps ↔ p ∈ qs)) → merge ps = merge qs) ∧
    ∀ ps, ((merge ps).isValid = true ↔ ∃ p ∈ ps, p.isValid = true) ∧
      if ∃ p ∈ ps, p.isValid = true then IsLUB {p | p ∈ ps ∧ p.isValid = true} (merge ps)
      else merge ps = unknown := by
  refine ⟨merge_append, fun ps qs => merge_congr, fun ps => ⟨isValid_merge_iff, ?_⟩⟩
  split
  · rename_i hany
    exact isLUB_merge (isValid_merge_iff.mpr hany)
  · rename_i hnone
    exact merge_of_none fun p hp hvalid => hnone ⟨p, hp, hvalid⟩

end Position

end SchemaDialects
