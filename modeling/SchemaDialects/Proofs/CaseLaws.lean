import Mathlib.Data.List.Basic
import SchemaDialects.Proofs.TextLaws
import SchemaDialects.Text.Case

/-!
# Lower case

Every character of a text in lower case is its own lower-case form, so a text in lower case stays as it is
(`lowercase_lowercase`). `Lowers` says of which forms a lower-case text is made up, whatever decides about a final
sigma. Blanks, apostrophes, opening parentheses and brackets are marks: each is its own lower-case form and that of
nothing else.
-/

namespace SchemaDialects.Text

-- ---------------------------------------------------------------------------
-- Runs of the tables
-- ---------------------------------------------------------------------------

/-- The code points of blanks, apostrophes, opening parentheses and brackets. -/
def markPoints : List Nat := blankPoints ++ [0x27, 0x28, 0x5B, 0x5D]

def IsMark (c : Char) : Prop := c.toNat ∈ markPoints

theorem isMark_of_isBlank (h : isBlank c = true) : IsMark c := List.mem_append_left _ (mem_blankPoints h)

namespace CaseRun

/-- The run maps this code point. -/
def Maps (r : CaseRun) (n : Nat) : Prop := r.first ≤ n ∧ n ≤ r.last ∧ (n - r.first) % r.step = 0

/-- The lowest and the highest code point that the run maps to. -/
def lowest (r : CaseRun) : Nat := (r.first + r.distance).toNat

def highest (r : CaseRun) : Nat := (r.last + r.distance).toNat

/-- Nothing that `r` maps to is mapped by `s`: the two lie apart, or each has every second code point. -/
def isApart (r s : CaseRun) : Bool :=
  Nat.blt s.last r.lowest || Nat.blt r.highest s.first ||
    ((r.step == 2 || r.first == r.last) && s.step == 2 && (r.lowest + s.first) % 2 == 1)

/-- Nothing that the run maps to is this code point. -/
def misses (r : CaseRun) (n : Nat) : Bool := Nat.blt n r.lowest || Nat.blt r.highest n

/-- The run maps to characters, and no table maps them further. None of them is a mark. -/
def settles (r : CaseRun) : Bool :=
  Nat.blt 0x5A r.lowest && (Nat.blt r.highest 0xD800 || Nat.blt 0xDFFF r.lowest && Nat.blt r.highest 0x110000) &&
    markPoints.all r.misses && lowerExpansions.all (fun entry => r.misses entry.1) && lowerRuns.all r.isApart

theorem exists_run {table : List CaseRun} (h : image? n table = some m) :
    ∃ r ∈ table, r.Maps n ∧ m = (n + r.distance).toNat := by
  induction table with
  | nil => cases h
  | cons r table ih =>
    rw [image?] at h
    split at h
    · rename_i hmaps
      exact ⟨r, List.mem_cons_self, hmaps, (Option.some.inj h).symm⟩
    · obtain ⟨r', hr', hmaps⟩ := ih h
      exact ⟨r', List.mem_cons_of_mem _ hr', hmaps⟩

theorem image?_eq_none {table : List CaseRun} (h : ∀ r ∈ table, ¬r.Maps n) : image? n table = none := by
  induction table with
  | nil => rfl
  | cons r table ih =>
    obtain ⟨hr, htable⟩ := List.forall_mem_cons.mp h
    have hmiss : ¬(r.first ≤ n ∧ n ≤ r.last ∧ (n - r.first) % r.step = 0) := hr
    rw [image?, if_neg hmiss, ih htable]

theorem Maps.le_image {r : CaseRun} (h : r.Maps n) (hpos : 0 < r.lowest) :
    r.lowest ≤ (n + r.distance).toNat ∧ (n + r.distance).toNat ≤ r.highest := by
  obtain ⟨hfirst, hlast, -⟩ := h
  simp only [lowest, highest] at hpos ⊢
  omega

theorem Maps.ne_of_misses {r : CaseRun} (h : r.Maps n) (hpos : 0 < r.lowest) (hmiss : r.misses k = true) :
    (n + r.distance).toNat ≠ k := by
  have := h.le_image hpos
  simp only [misses, Bool.or_eq_true, Nat.blt_eq] at hmiss
  omega

theorem Maps.not_maps_image {r s : CaseRun} (h : r.Maps n) (hpos : 0 < r.lowest) (hapart : r.isApart s = true) :
    ¬s.Maps (n + r.distance).toNat := by
  have himage := h.le_image hpos
  obtain ⟨hfirst, hlast, hstep⟩ := h
  rintro ⟨hfirst', hlast', hstep'⟩
  simp only [isApart, Bool.or_eq_true, Bool.and_eq_true, Nat.blt_eq, beq_iff_eq] at hapart
  obtain (habove | hbelow) | ⟨⟨hsecond, htwo⟩, hodd⟩ := hapart
  · omega
  · omega
  · rw [htwo] at hstep'
    simp only [lowest] at hpos hodd
    -- Every second one from the lowest on, which is the only one if the run is a single code point.
    have heven : (n - r.first) % 2 = 0 := by
      obtain hsecond | hsingle := hsecond
      · rwa [hsecond] at hstep
      · omega
    omega

end CaseRun

theorem lowerRuns_settle : lowerRuns.all CaseRun.settles = true := by decide +kernel

-- ---------------------------------------------------------------------------
-- Characters
-- ---------------------------------------------------------------------------

/-- The character is its own lower-case form, wherever it stands. -/
structure Lowered (c : Char) : Prop where
  form : lowerChar c = [c]
  ne_sigma : c ≠ 'Σ'

/-- What a character can become in lower case. -/
structure FormOf (c : Char) (form : List Char) : Prop where
  ne_nil : form ≠ []
  lowered : ∀ d ∈ form, Lowered d
  mark : ∀ d ∈ form, IsMark d → d = c
  self : IsMark c → form = [c]

theorem formOf_ascii (h : c.toNat < 0x80) : FormOf c (lowerChar c) := by
  have hall : ∀ n < 0x80, lowerChar (Char.ofNat n) = [(Char.ofNat n).toLower] ∧
      lowerChar (Char.ofNat n).toLower = [(Char.ofNat n).toLower] ∧ (Char.ofNat n).toLower ≠ 'Σ' ∧
      ((Char.ofNat n).toLower.toNat ∈ markPoints → (Char.ofNat n).toLower = Char.ofNat n) ∧
      ((Char.ofNat n).toNat ∈ markPoints → (Char.ofNat n).toLower = Char.ofNat n) := by decide +kernel
  obtain ⟨hform, hlower, hsigma, hmark, hself⟩ := hall c.toNat h
  rw [Char.ofNat_toNat] at hform hlower hsigma hmark hself
  rw [hform]
  refine ⟨List.cons_ne_nil _ _, ?_, ?_, fun hc => by rw [hself hc]⟩
  · simpa using Lowered.mk hlower hsigma
  · simpa [IsMark] using hmark

/-- A character that the tables map to one other. -/
theorem formOf_image (h : CaseRun.image? n lowerRuns = some m) (hn : n ∉ markPoints) (hc : c.toNat = n) :
    FormOf c [Char.ofNat m] := by
  obtain ⟨r, hr, hmaps, rfl⟩ := CaseRun.exists_run h
  have hsettles := List.all_eq_true.mp lowerRuns_settle r hr
  simp only [CaseRun.settles, Bool.and_eq_true, Bool.or_eq_true, Nat.blt_eq, List.all_eq_true] at hsettles
  obtain ⟨⟨⟨⟨hascii, hvalid⟩, hmarks⟩, hexpansions⟩, hapart⟩ := hsettles
  have hpos : 0 < r.lowest := by omega
  have himage := hmaps.le_image hpos
  have hnone : CaseRun.image? (n + r.distance).toNat lowerRuns = none :=
    CaseRun.image?_eq_none fun s hs => hmaps.not_maps_image hpos (hapart s hs)
  have hne (k : Nat) (hk : r.misses k = true) : (n + r.distance).toNat ≠ k := hmaps.ne_of_misses hpos hk
  generalize (n + r.distance).toNat = m at himage hnone hne
  have hm : (Char.ofNat m).toNat = m := by
    have hchar : m.isValidChar := by
      simp only [Nat.isValidChar]
      omega
    rw [Char.ofNat, dif_pos hchar]
    rfl
  have hlowered : Lowered (Char.ofNat m) := by
    refine ⟨?_, ?_⟩
    · have hsmall : ∀ k < 0x80, 0x5A < k → lowerChar (Char.ofNat k) = [Char.ofNat k] := by decide +kernel
      by_cases hlow : m < 0x80
      · exact hsmall m hlow (by omega)
      · rw [lowerChar, hm, if_neg hlow]
        have hlookup : lowerExpansions.lookup m = none := List.lookup_eq_none_iff.mpr fun entry hentry =>
          bne_iff_ne.mpr (hne entry.1 (hexpansions entry hentry))
        rw [hlookup, hnone]
        rfl
    · rintro heq
      rw [heq] at hm
      obtain rfl := hm
      exact absurd hnone (by decide +kernel)
  refine ⟨List.cons_ne_nil _ _, by simpa using hlowered, ?_, fun hmark => absurd (hc ▸ hmark) hn⟩
  simp only [List.mem_singleton, forall_eq, IsMark, hm]
  exact fun hmark => absurd rfl (hne m (hmarks m hmark))

theorem formOf_self (h : Lowered c) : FormOf c [c] where
  ne_nil := List.cons_ne_nil _ _
  lowered := by simpa using h
  mark := by simp
  self _ := rfl

/-- Marks are their own lower-case form. -/
theorem lowered_mark (h : IsMark c) : Lowered c := by
  have hall : ∀ n ∈ markPoints, lowerChar (Char.ofNat n) = [Char.ofNat n] ∧ Char.ofNat n ≠ 'Σ' := by decide +kernel
  have hc := hall c.toNat h
  rw [Char.ofNat_toNat] at hc
  exact ⟨hc.1, hc.2⟩

theorem formOf_lowerChar (hsigma : c ≠ 'Σ') : FormOf c (lowerChar c) := by
  by_cases hascii : c.toNat < 0x80
  · exact formOf_ascii hascii
  by_cases hmark : IsMark c
  · have hlowered := lowered_mark hmark
    exact hlowered.form ▸ formOf_self hlowered
  have hform : lowerChar c = _ := if_neg hascii
  cases hexpansion : lowerExpansions.lookup c.toNat with
  | some codes =>
    rw [hexpansion] at hform
    have hall : ∀ entry ∈ lowerExpansions, entry.2 ≠ [] ∧ ∀ n ∈ entry.2, lowerChar (Char.ofNat n) = [Char.ofNat n] ∧
        Char.ofNat n ≠ 'Σ' ∧ (Char.ofNat n).toNat ∉ markPoints := by decide +kernel
    obtain ⟨front, back, hentry, -⟩ := List.lookup_eq_some_iff.mp hexpansion
    obtain ⟨hne, hcodes⟩ := hall (c.toNat, codes) (hentry ▸ List.mem_append_right _ List.mem_cons_self)
    rw [hform]
    refine ⟨by simpa using hne, ?_, ?_, fun h => absurd h hmark⟩
    · simp only [List.forall_mem_map]
      exact fun n hn => ⟨(hcodes n hn).1, (hcodes n hn).2.1⟩
    · simp only [List.forall_mem_map]
      exact fun n hn h => absurd h (hcodes n hn).2.2
  | none =>
    rw [hexpansion] at hform
    cases himage : CaseRun.image? c.toNat lowerRuns with
    | some m =>
      rw [himage] at hform
      exact hform ▸ formOf_image himage hmark rfl
    | none =>
      rw [himage] at hform
      exact hform ▸ formOf_self ⟨hform, hsigma⟩

-- ---------------------------------------------------------------------------
-- Texts
-- ---------------------------------------------------------------------------

/-- The second text has a lower-case form of each character of the first one. -/
inductive Lowers : List Char → List Char → Prop
  | nil : Lowers [] []
  | cons (hc : FormOf c form) (h : Lowers cs forms) : Lowers (c :: cs) (form ++ forms)

theorem formOf_sigma : ∀ d ∈ ['ς', 'σ'], FormOf 'Σ' [d] := by
  have hall : ∀ d ∈ ['ς', 'σ'], lowerChar d = [d] ∧ d ≠ 'Σ' ∧ d.toNat ∉ markPoints :=
    forall_chars (by decide +kernel)
  intro d hd
  obtain ⟨hform, hne, hmark⟩ := hall d hd
  have hsigma : ¬IsMark 'Σ' := by
    rw [IsMark]
    decide
  refine ⟨List.cons_ne_nil _ _, by simpa using Lowered.mk hform hne, ?_, fun h => absurd h hsigma⟩
  simpa using fun h : IsMark d => absurd h hmark

theorem lowers_lowerAfter (before cs : List Char) : Lowers cs (lowerAfter before cs) := by
  induction cs generalizing before with
  | nil => exact .nil
  | cons c cs ih =>
    rw [lowerAfter]
    by_cases hsigma : c = 'Σ'
    · rw [if_pos hsigma, hsigma]
      refine .cons (formOf_sigma _ ?_) (ih _)
      split <;> simp
    · rw [if_neg hsigma]
      exact .cons (formOf_lowerChar hsigma) (ih _)

theorem lowerAfter_of_lowered (h : ∀ c ∈ cs, Lowered c) (before : List Char) : lowerAfter before cs = cs := by
  induction cs generalizing before with
  | nil => rfl
  | cons c cs ih =>
    obtain ⟨hc, hcs⟩ := List.forall_mem_cons.mp h
    rw [lowerAfter, if_neg hc.ne_sigma, hc.form, ih hcs]
    rfl

namespace Lowers

theorem lowered (h : Lowers cs forms) : ∀ d ∈ forms, Lowered d := by
  induction h with
  | nil => simp
  | cons hc _ ih =>
    intro d hd
    exact (List.mem_append.mp hd).elim (hc.lowered d) (ih d)

/-- A mark is in a text if it is in the lower-case form. -/
theorem mem_iff_of_mark (h : Lowers cs forms) (hd : IsMark d) : d ∈ forms ↔ d ∈ cs := by
  induction h with
  | nil => rfl
  | @cons c form cs forms hc _ ih =>
    rw [List.mem_append, List.mem_cons, ih]
    refine or_congr_left ⟨fun hform => hc.mark d hform hd, ?_⟩
    rintro rfl
    rw [hc.self hd]
    exact List.mem_cons_self

theorem eq_nil (h : Lowers cs []) : cs = [] := by
  generalize heq : ([] : List Char) = forms at h
  cases h with
  | nil => rfl
  | cons hc _ => exact absurd (List.append_eq_nil_iff.mp heq.symm).1 hc.ne_nil

/-- A mark at the end is at the end of the text, too. -/
theorem concat_mark (h : Lowers cs (front ++ [d])) (hd : IsMark d) :
    ∃ before, cs = before ++ [d] ∧ Lowers before front := by
  generalize heq : front ++ [d] = forms at h
  induction h generalizing front with
  | nil => simp at heq
  | @cons c form cs forms hc h ih =>
    rcases List.eq_nil_or_concat' forms with rfl | ⟨more, e, rfl⟩
    · obtain rfl := h.eq_nil
      rw [List.append_nil] at heq
      have hmem : d ∈ form := heq ▸ List.mem_append_right _ List.mem_cons_self
      obtain rfl := hc.mark d hmem hd
      rw [hc.self hd] at heq
      obtain rfl : front = [] := by simpa using heq
      exact ⟨[], rfl, .nil⟩
    · rw [← List.append_assoc] at heq
      obtain ⟨rfl, he⟩ := List.append_inj' heq rfl
      obtain rfl := List.singleton_inj.mp he
      obtain ⟨before, rfl, hbefore⟩ := ih rfl
      exact ⟨c :: before, rfl, .cons hc hbefore⟩

theorem mark_concat (h : Lowers (before ++ [d]) forms) (hd : IsMark d) : ∃ front, forms = front ++ [d] := by
  generalize heq : before ++ [d] = cs at h
  induction h generalizing before with
  | nil => simp at heq
  | @cons c form cs forms hc h ih =>
    cases before with
    | nil =>
      obtain ⟨rfl, rfl⟩ := List.cons.inj heq
      cases h
      exact ⟨[], by rw [hc.self hd, List.append_nil, List.nil_append]⟩
    | cons b before =>
      obtain ⟨front, rfl⟩ := ih (List.cons.inj heq).2
      exact ⟨form ++ front, (List.append_assoc _ _ _).symm⟩

end Lowers

theorem lowers_lowercase (s : String) : Lowers s.toList (lowercase s).toList := by
  rw [lowercase, String.toList_ofList]
  exact lowers_lowerAfter [] s.toList

theorem lowercase_of_lowered (h : ∀ c ∈ cs, Lowered c) : lowercase (String.ofList cs) = String.ofList cs := by
  rw [lowercase, String.toList_ofList, lowerAfter_of_lowered h]

/-- A text in lower case stays as it is. -/
theorem lowercase_lowercase (s : String) : lowercase (lowercase s) = lowercase s := by
  rw [← String.ofList_toList (s := lowercase s), lowercase_of_lowered (lowers_lowercase s).lowered]

end SchemaDialects.Text
