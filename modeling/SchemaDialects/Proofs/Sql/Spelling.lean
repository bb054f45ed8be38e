import SchemaDialects.Proofs.CaseLaws
import SchemaDialects.Proofs.Spacing
import SchemaDialects.Sql.DataType

/-!
# One spelling of a type

A type in its one spelling is a name in lower case with at most one suffix (`TypeParts`), and it is divided again into
these two parts (`splitType_of_parts`). Hence a type that was read is read again as it is
(`normalizeType_normalizeType`), and what a flavor reads of its own spelling settles at once (`spelling_settles`): a
name is read as itself or as one of the canonical names, which the flavor maps no further.
-/

namespace SchemaDialects.Sql

open Text

-- ---------------------------------------------------------------------------
-- Commas
-- ---------------------------------------------------------------------------

/-- No space stands behind a comma. -/
def Tight (cs : List Char) : Prop := cs.IsChain fun a b => ¬(a = ',' ∧ b = ' ')

theorem head?_tightenCommas (cs : List Char) : (tightenCommas cs).head? = cs.head? := by
  fun_cases tightenCommas cs <;> rfl

theorem tightenCommas_of_tight (h : Tight cs) : tightenCommas cs = cs := by
  fun_induction tightenCommas cs with
  | case1 cs ih => exact absurd ⟨rfl, rfl⟩ (List.isChain_cons_cons.mp h).1
  | case2 c cs _ ih => rw [ih h.tail]
  | case3 => rfl

theorem mem_tightenCommas (h : c ∈ tightenCommas cs) : c ∈ cs := by
  fun_induction tightenCommas cs with
  | case1 cs ih =>
    rcases List.mem_cons.mp h with rfl | h
    · exact List.mem_cons_self
    · exact List.mem_cons_of_mem _ (List.mem_cons_of_mem _ (ih h))
  | case2 c cs _ ih =>
    rcases List.mem_cons.mp h with rfl | h
    · exact List.mem_cons_self
    · exact List.mem_cons_of_mem _ (ih h)
  | case3 => exact h

theorem tightenCommas_cons (h : c ≠ ',') (cs : List Char) : tightenCommas (c :: cs) = c :: tightenCommas cs :=
  tightenCommas.eq_2 c cs fun _ hc => absurd hc h

theorem spaced_tightenCommas (h : Spaced cs) : Spaced (tightenCommas cs) where
  spaces c hc := h.spaces c (mem_tightenCommas hc)
  single := by
    have hsingle := h.single
    clear h
    fun_induction tightenCommas cs with
    | case1 cs ih =>
      refine (ih hsingle.tail.tail).cons fun d _ hblank => ?_
      exact absurd hblank.1 (by decide)
    | case2 c cs _ ih =>
      refine (ih hsingle.tail).cons fun d hd => ?_
      rw [head?_tightenCommas] at hd
      exact hsingle.rel_head? hd
    | case3 => exact .nil

theorem tight_tightenCommas (h : Spaced cs) : Tight (tightenCommas cs) := by
  have hsingle := h.single
  clear h
  fun_induction tightenCommas cs with
  | case1 cs ih =>
    refine (ih hsingle.tail.tail).cons fun d hd hpair => ?_
    rw [head?_tightenCommas] at hd
    obtain ⟨-, rfl⟩ := hpair
    exact hsingle.tail.rel_head? hd ⟨by decide, by decide⟩
  | case2 c cs hne ih =>
    refine (ih hsingle.tail).cons fun d hd hpair => ?_
    rw [head?_tightenCommas] at hd
    obtain ⟨rfl, rfl⟩ := hpair
    obtain ⟨more, rfl⟩ := List.head?_eq_some_iff.mp hd
    exact hne more rfl rfl
  | case3 => exact .nil

/-- What stands in front of a character that is no space is tightened by itself. -/
theorem tightenCommas_append_cons (h : c ≠ ' ') (front back : List Char) :
    tightenCommas (front ++ c :: back) = tightenCommas front ++ tightenCommas (c :: back) := by
  fun_induction tightenCommas front with
  | case1 cs ih => exact congrArg (',' :: ·) ih
  | case2 d cs hne ih =>
    rw [List.cons_append, tightenCommas.eq_2, ih, List.cons_append]
    rintro more rfl heq
    cases cs with
    | nil => exact h (List.cons.inj heq).1
    | cons e cs => exact hne cs rfl (congrArg (· :: cs) (List.cons.inj heq).1)
  | case3 => rfl

theorem ended_tightenCommas (h : Ended cs) : Ended (tightenCommas cs) where
  head := head?_tightenCommas cs ▸ h.head
  last := by
    rcases List.eq_nil_or_concat' cs with rfl | ⟨front, c, rfl⟩
    · exact h.last
    · have hc : isBlank c = false := h.last c (by simp)
      have hspace : c ≠ ' ' := by
        rintro rfl
        cases hc
      rw [tightenCommas_append_cons hspace]
      simpa [tightenCommas] using hc

-- ---------------------------------------------------------------------------
-- Blanks in lower case
-- ---------------------------------------------------------------------------

/-- A form is the blank it is of, or it has none. -/
theorem formOf_blank (h : FormOf c form) : (form = [c] ∧ isBlank c = true) ∨ ∀ d ∈ form, isBlank d = false := by
  by_cases hc : isBlank c = true
  · exact .inl ⟨h.self (isMark_of_isBlank hc), hc⟩
  · refine .inr fun d hd => Bool.eq_false_iff.mpr fun hblank => hc ?_
    rwa [← h.mark d hd (isMark_of_isBlank hblank)]

theorem head_of_lowers (h : Lowers cs forms) : ∀ d ∈ forms.head?, isBlank d = true → cs.head? = some d := by
  cases h with
  | nil => simp
  | @cons c form cs forms hc h =>
    intro d hd hblank
    obtain ⟨e, more, hform⟩ := List.exists_cons_of_ne_nil hc.ne_nil
    obtain rfl : e = d := by simpa [hform] using hd
    rw [hc.mark e (hform ▸ List.mem_cons_self) (isMark_of_isBlank hblank)]
    rfl

theorem spaced_of_lowers (h : Lowers cs forms) (hspaced : Spaced cs) : Spaced forms where
  spaces c hc hblank := hspaced.spaces c ((h.mem_iff_of_mark (isMark_of_isBlank hblank)).mp hc) hblank
  single := by
    have hsingle := hspaced.single
    clear hspaced
    induction h with
    | nil => exact .nil
    | @cons c form cs forms hc h ih =>
      rcases formOf_blank hc with ⟨rfl, hblank⟩ | hform
      · refine (ih hsingle.tail).cons fun d hd hpair => ?_
        exact hsingle.rel_head? (head_of_lowers h d hd hpair.2) ⟨hblank, hpair.2⟩
      · -- A form of several characters has no blank in it, and none at the end.
        refine List.isChain_append.mpr ⟨?_, ih hsingle.tail, fun d hd _ _ hpair => ?_⟩
        · refine (List.pairwise_iff_forall_sublist.mpr fun {d e} hpair hblank => ?_).isChain
          simp [hform d (hpair.subset List.mem_cons_self)] at hblank
        · simp [hform d (List.mem_of_getLast? hd)] at hpair

theorem ended_of_lowers (h : Lowers cs forms) (hended : Ended cs) : Ended forms where
  head d hd := Bool.eq_false_iff.mpr fun hblank => by
    have := hended.head d (head_of_lowers h d hd hblank)
    simp [hblank] at this
  last d hd := Bool.eq_false_iff.mpr fun hblank => by
    obtain ⟨front, rfl⟩ := List.getLast?_eq_some_iff.mp hd
    obtain ⟨before, rfl, -⟩ := h.concat_mark (isMark_of_isBlank hblank)
    simp [hended.last d (by simp)] at hblank

-- ---------------------------------------------------------------------------
-- Name and suffix
-- ---------------------------------------------------------------------------

/-- The character opens parameters. -/
def opens (c : Char) : Bool := c = '(' || c = '['

/-- What can follow the name of a type in its one spelling. -/
inductive Suffix (base : List Char) : List Char → Prop
  | none (whole : dropTail? " unsigned".toList base = none) : Suffix base []
  | unsigned (named : base ≠ []) : Suffix base " unsigned".toList
  | parameters (opened : opens c = true) (spaced : Spaced (c :: cs)) (ended : Ended (c :: cs))
    (tight : Tight (c :: cs)) : Suffix base (c :: cs)

/-- The name and the suffix of a type in its one spelling. -/
structure TypeParts (base rest : List Char) : Prop where
  suffix : Suffix base rest
  spaced : Spaced base
  ended : Ended base
  lowered : ∀ c ∈ base, Lowered c
  plain : ∀ c ∈ base, opens c = false

theorem isBlank_of_opens (h : opens c = true) : isBlank c = false := by
  simp only [opens, Bool.or_eq_true, decide_eq_true_eq] at h
  obtain rfl | rfl := h <;> rfl

theorem isMark_of_opens (h : opens c = true) : IsMark c := by
  simp only [opens, Bool.or_eq_true, decide_eq_true_eq] at h
  obtain rfl | rfl := h <;> (rw [IsMark]; decide)

theorem not_any_opens {chars : List Char} (h : ∀ c ∈ chars, opens c = false) : ¬chars.any opens = true :=
  List.any_eq_true.not.mpr fun ⟨c, hc, hopen⟩ => Bool.false_ne_true (h c hc ▸ hopen)

theorem exists_opens (h : ¬∀ c ∈ chars, opens c = false) :
    ∃ base c cs, chars = base ++ c :: cs ∧ (∀ d ∈ base, opens d = false) ∧ opens c = true := by
  have hparts := List.takeWhile_append_dropWhile (p := (!opens ·)) (l := chars)
  have hbase : ∀ d ∈ chars.takeWhile (!opens ·), opens d = false := fun d hd => by
    simpa using List.mem_takeWhile_imp hd
  have hopen := List.head?_dropWhile_not (!opens ·) chars
  generalize chars.takeWhile (!opens ·) = base at hparts hbase
  generalize chars.dropWhile (!opens ·) = rest at hparts hopen
  subst hparts
  cases rest with
  | nil => exact absurd (by simpa using hbase) h
  | cons c cs => exact ⟨base, c, cs, rfl, hbase, by simpa using hopen⟩

theorem plain_of_lowers (h : Lowers cs forms) (hplain : ∀ c ∈ cs, opens c = false) :
    ∀ c ∈ forms, opens c = false := fun c hc => Bool.eq_false_iff.mpr fun hopen =>
    Bool.false_ne_true (hplain c ((h.mem_iff_of_mark (isMark_of_opens hopen)).mp hc) ▸ hopen)

theorem lowered_unsigned : ∀ c ∈ " unsigned".toList, Lowered c := by
  have hall : ∀ c ∈ " unsigned".toList, lowerChar c = [c] ∧ c ≠ 'Σ' := forall_chars (by decide)
  exact fun c hc => ⟨(hall c hc).1, (hall c hc).2⟩

namespace TypeParts

theorem spaced_whole (h : TypeParts base rest) : Spaced (base ++ rest) := by
  refine spaced_append h.spaced h.ended.last ?_
  cases h.suffix with
  | none => exact ⟨by simp, .nil⟩
  | unsigned => exact ⟨forall_chars (by decide), by decide⟩
  | parameters _ hspaced => exact hspaced

theorem ended_whole (h : TypeParts base rest) : Ended (base ++ rest) := by
  cases h.suffix with
  | none => simpa using h.ended
  | unsigned hnamed => exact ended_append h.ended (by simp [isBlank]) fun hnil => absurd hnil hnamed
  | parameters hopen _ hended => exact ended_append h.ended hended.last fun _ => hended.head

end TypeParts

section

variable {t : String} {chars : List Char}

/-- Without parameters, a type is its name or has a modifier. -/
theorem splitType_plain (hchars : collapseBlanks t.toList = chars) (h : ∀ c ∈ chars, opens c = false)
    (htail : dropTail? " unsigned".toList (lowercase (String.ofList chars)).toList = none) :
    splitType t = (lowercase (String.ofList chars), "") := by
  subst hchars
  refine (if_neg (not_any_opens h)).trans ?_
  rw [htail]

theorem splitType_modified (hchars : collapseBlanks t.toList = chars) (h : ∀ c ∈ chars, opens c = false)
    (htail : dropTail? " unsigned".toList (lowercase (String.ofList chars)).toList = some base) :
    splitType t = (String.ofList base, " unsigned") := by
  subst hchars
  refine (if_neg (not_any_opens h)).trans ?_
  rw [htail]

/-- A type with parameters is divided in front of them. -/
theorem splitType_opened (hchars : collapseBlanks t.toList = base ++ c :: cs) (hbase : ∀ d ∈ base, opens d = false)
    (hopen : opens c = true) :
    splitType t = (lowercase (trim (String.ofList base)), String.ofList (tightenCommas (c :: cs))) := by
  have hany : (collapseBlanks t.toList).any opens = true :=
    List.any_eq_true.mpr ⟨c, hchars ▸ List.mem_append_right _ List.mem_cons_self, hopen⟩
  have htake : (base ++ c :: cs).takeWhile (!opens ·) = base := by
    rw [List.takeWhile_append_of_pos (by simpa using hbase), List.takeWhile_cons_of_neg (by simp [hopen]),
      List.append_nil]
  have hdrop : (base ++ c :: cs).dropWhile (!opens ·) = c :: cs := by
    rw [List.dropWhile_append_of_pos (by simpa using hbase), List.dropWhile_cons_of_neg (by simp [hopen])]
  have hsplit : splitType t = (lowercase (trim (String.ofList ((collapseBlanks t.toList).takeWhile (!opens ·)))),
      String.ofList (tightenCommas ((collapseBlanks t.toList).dropWhile (!opens ·)))) := if_pos hany
  rw [hsplit, hchars, htake, hdrop]

end

/-- A type in its one spelling is divided where its suffix begins. -/
theorem splitType_of_parts (h : TypeParts base rest) :
    splitType (String.ofList (base ++ rest)) = (String.ofList base, String.ofList rest) := by
  have hchars : collapseBlanks (String.ofList (base ++ rest)).toList = base ++ rest := by
    rw [String.toList_ofList, collapseBlanks_of_spaced h.spaced_whole h.ended_whole]
  cases h.suffix with
  | none hwhole =>
    rw [List.append_nil] at hchars ⊢
    have hlower := lowercase_of_lowered h.lowered
    rw [splitType_plain hchars h.plain (by rw [hlower, String.toList_ofList (l := base), hwhole]), hlower]
  | unsigned =>
    -- The modifier gets a name, for a literal would be taken apart into its characters.
    generalize hmodifier : " unsigned".toList = modifier at hchars
    have hall := lowered_unsigned
    have hopens : ∀ c ∈ " unsigned".toList, opens c = false := forall_chars (by decide)
    rw [hmodifier] at hall hopens
    have hlowered : ∀ c ∈ base ++ modifier, Lowered c := fun c hc =>
      (List.mem_append.mp hc).elim (h.lowered c) (hall c)
    have hplain : ∀ c ∈ base ++ modifier, opens c = false := fun c hc =>
      (List.mem_append.mp hc).elim (h.plain c) (hopens c)
    have htail : dropTail? " unsigned".toList (lowercase (String.ofList (base ++ modifier))).toList = some base := by
      rw [lowercase_of_lowered hlowered, String.toList_ofList (l := base ++ modifier), hmodifier, dropTail?_append]
    rw [splitType_modified hchars hplain htail, ← hmodifier, String.ofList_toList]
  | parameters hopen hspaced hended htight =>
    rw [splitType_opened hchars h.plain hopen, trim, String.toList_ofList (l := base), h.ended.strip,
      lowercase_of_lowered h.lowered, tightenCommas_of_tight htight]

theorem suffix_tightenCommas (hopen : opens c = true) (hspaced : Spaced (c :: cs))
    (hlast : ∀ d ∈ (c :: cs).getLast?, isBlank d = false) (base : List Char) :
    Suffix base (tightenCommas (c :: cs)) := by
  have hcomma : c ≠ ',' := by
    rintro rfl
    exact absurd hopen (by decide)
  have hended : Ended (c :: cs) := ⟨by simpa using isBlank_of_opens hopen, hlast⟩
  have hspaced' := spaced_tightenCommas hspaced
  have htight := tight_tightenCommas hspaced
  have hended' := ended_tightenCommas hended
  rw [tightenCommas_cons hcomma] at hspaced' htight hended' ⊢
  exact .parameters hopen hspaced' hended' htight

/-- Whatever is divided, the two parts are in their one spelling. -/
theorem parts_splitType (t : String) : TypeParts (splitType t).1.toList (splitType t).2.toList := by
  have hspaced := spaced_collapseBlanks t.toList
  have hended := ended_collapseBlanks t.toList
  generalize hchars : collapseBlanks t.toList = chars at hspaced hended
  by_cases hplain : ∀ c ∈ chars, opens c = false
  · -- All of the text is in lower case, and the modifier is told apart afterwards.
    have hlowers := lowers_lowercase (String.ofList chars)
    rw [String.toList_ofList] at hlowers
    have hspaced := spaced_of_lowers hlowers hspaced
    have hended := ended_of_lowers hlowers hended
    have hlowered := hlowers.lowered
    have hplain' := plain_of_lowers hlowers hplain
    cases htail : dropTail? " unsigned".toList (lowercase (String.ofList chars)).toList with
    | none =>
      rw [splitType_plain hchars hplain htail]
      exact ⟨.none htail, hspaced, hended, hlowered, hplain'⟩
    | some base =>
      rw [splitType_modified hchars hplain htail]
      rw [dropTail?_eq_some.mp htail] at hspaced hended hlowered hplain'
      obtain ⟨hbase, hne⟩ := ended_of_blank hspaced hended rfl
      rw [String.toList_ofList (l := base)]
      exact ⟨.unsigned hne, spaced_part (List.prefix_append base _).isInfix hspaced, hbase,
        fun c hc => hlowered c (List.mem_append_left _ hc), fun c hc => hplain' c (List.mem_append_left _ hc)⟩
  · -- The name is trimmed and in lower case, the parameters are spaced anew.
    obtain ⟨base, c, cs, rfl, hbase, hopen⟩ := exists_opens hplain
    rw [splitType_opened hchars hbase hopen]
    have hstripped := ended_stripWhile base
    have hpart := stripWhile_infix isBlank base
    have hlowers := lowers_lowercase (trim (String.ofList base))
    rw [trim, String.toList_ofList (l := base), String.toList_ofList (l := stripWhile isBlank base)] at hlowers
    rw [trim, String.toList_ofList (l := base), String.toList_ofList (l := tightenCommas _)]
    have hsuffix := suffix_tightenCommas hopen (spaced_part (List.suffix_append base _).isInfix hspaced)
      (fun d hd => hended.last d (by simpa [List.getLast?_append] using hd))
      (lowercase (String.ofList (stripWhile isBlank base))).toList
    refine ⟨hsuffix, spaced_of_lowers hlowers ?_, ended_of_lowers hlowers hstripped, hlowers.lowered, ?_⟩
    · exact spaced_part (hpart.trans (List.prefix_append base _).isInfix) hspaced
    · exact plain_of_lowers hlowers fun d hd => hbase d (hpart.subset hd)

-- ---------------------------------------------------------------------------
-- Names
-- ---------------------------------------------------------------------------

/-- The name that a flavor reads a name as. -/
def mappedName (f : Flavor) (base rest : String) : String :=
  if f = .mysql then mysqlName base rest else postgresName base

/-- The names that others are read as. -/
def canonicalNames (f : Flavor) : List String :=
  if f = .mysql then ["int", "boolean", "double", "decimal", "varchar", "char"]
  else ["int", "bigint", "smallint", "serial", "bigserial", "smallserial", "real", "double precision", "numeric",
    "varchar", "char", "timestamp", "timestamptz", "time", "timetz", "boolean"]

theorem canonicalNames_of_ne (hf : f ≠ .mysql) : canonicalNames f = canonicalNames .generic := by
  rw [canonicalNames, canonicalNames, if_neg hf, if_neg (by decide)]

theorem boolean_canonical (f : Flavor) : "boolean" ∈ canonicalNames f := by
  cases f <;> decide

theorem mappedName_cases (f : Flavor) (base rest : String) :
    mappedName f base rest = base ∨ mappedName f base rest ∈ canonicalNames f := by
  by_cases hf : f = .mysql
  · rw [mappedName, canonicalNames, if_pos hf, if_pos hf]
    unfold mysqlName
    split
    case h_3 => by_cases hrest : rest = "(1)" <;> simp [hrest]
    all_goals simp
  · rw [mappedName, canonicalNames, if_neg hf, if_neg hf]
    unfold postgresName
    split <;> simp

theorem mappedName_canonical (h : name ∈ canonicalNames f) (rest : String) : mappedName f name rest = name := by
  by_cases hf : f = .mysql
  · rw [canonicalNames, if_pos hf] at h
    rw [mappedName, if_pos hf]
    simp only [List.mem_cons, List.not_mem_nil, or_false] at h
    rcases h with rfl | rfl | rfl | rfl | rfl | rfl <;> rfl
  · have hall : ∀ name ∈ canonicalNames .generic, postgresName name = name := by decide
    rw [canonicalNames_of_ne hf] at h
    rw [mappedName, if_neg hf, hall name h]

/-- A canonical name takes any suffix. -/
theorem parts_canonical (h : name ∈ canonicalNames f) (hparts : TypeParts base rest) :
    TypeParts name.toList rest := by
  have hall : ∀ name ∈ canonicalNames .mysql ++ canonicalNames .generic,
      (name.toList.all fun c => decide ((isBlank c = true → c = ' ') ∧ (lowerChar c = [c] ∧ c ≠ 'Σ') ∧
        opens c = false)) = true ∧
      (name.toList.IsChain fun a b => ¬(isBlank a = true ∧ isBlank b = true)) ∧
      name.toList.head?.any isBlank = false ∧ name.toList.getLast?.any isBlank = false ∧
      dropTail? " unsigned".toList name.toList = none ∧ name.toList ≠ [] := by decide +kernel
  have hmem : name ∈ canonicalNames .mysql ++ canonicalNames .generic := by
    by_cases hf : f = .mysql
    · exact List.mem_append_left _ (hf ▸ h)
    · exact List.mem_append_right _ (canonicalNames_of_ne hf ▸ h)
  obtain ⟨hall, hsingle, hhead, hlast, hwhole, hnamed⟩ := hall name hmem
  have hchars := forall_chars hall
  have hsuffix : Suffix name.toList rest := by
    cases hparts.suffix with
    | none => exact .none hwhole
    | unsigned => exact .unsigned hnamed
    | parameters hopen hspaced hended htight => exact .parameters hopen hspaced hended htight
  have hended : Ended name.toList := ⟨(Option.any_eq_false _ _).mp hhead, (Option.any_eq_false _ _).mp hlast⟩
  exact ⟨hsuffix, ⟨fun c hc => (hchars c hc).1, hsingle⟩, hended,
    fun c hc => ⟨(hchars c hc).2.1.1, (hchars c hc).2.1.2⟩, fun c hc => (hchars c hc).2.2⟩

-- ---------------------------------------------------------------------------
-- One spelling
-- ---------------------------------------------------------------------------

/-- The parts of a type that the flavor reads as it is. -/
structure Canonical (f : Flavor) (base rest : List Char) : Prop where
  parts : TypeParts base rest
  name : mappedName f (String.ofList base) (String.ofList rest) = String.ofList base

theorem normalizeType_of_split {t : String} (h : splitType t = (base, rest)) :
    normalizeType t f = if mappedName f base rest = "boolean" ∧ base = "tinyint" then "boolean"
      else mappedName f base rest ++ rest := by
  have hnormal : normalizeType t f = if (mappedName f base rest == "boolean" && base == "tinyint") = true then
      mappedName f base rest else mappedName f base rest ++ rest := by
    rw [normalizeType, h]
    rfl
  rw [hnormal]
  split_ifs with hcond hcond' hcond'
  · exact (by simpa using hcond : _ ∧ _).1
  · exact absurd (by simpa using hcond) hcond'
  · exact absurd (by simpa using hcond') hcond
  · rfl

theorem normalizeType_of_canonical (h : Canonical f base rest) :
    normalizeType (String.ofList (base ++ rest)) f = String.ofList (base ++ rest) := by
  rw [normalizeType_of_split (splitType_of_parts h.parts), h.name, if_neg ?_, String.ofList_append]
  rintro ⟨hboolean, htinyint⟩
  exact absurd (hboolean.symm.trans htinyint) (by decide)

theorem canonical_of_mem (h : name ∈ canonicalNames f) (hparts : TypeParts base rest) : Canonical f name.toList rest :=
  ⟨parts_canonical h hparts, by rw [String.ofList_toList, mappedName_canonical h]⟩

/-- What a type is normalized to. -/
inductive Normalized (f : Flavor) (base rest : List Char) : String → Prop
  | digit : Normalized f base rest "boolean"
  | self (h : Canonical f base rest) : Normalized f base rest (String.ofList (base ++ rest))
  | renamed (h : name ∈ canonicalNames f) : Normalized f base rest (String.ofList (name.toList ++ rest))

theorem normalized_of_parts {t : String} (h : TypeParts base rest)
    (ht : splitType t = (String.ofList base, String.ofList rest)) : Normalized f base rest (normalizeType t f) := by
  rw [normalizeType_of_split ht]
  split
  · exact .digit
  · rcases mappedName_cases f (String.ofList base) (String.ofList rest) with hname | hname
    · rw [hname, ← String.ofList_append]
      exact .self ⟨h, hname⟩
    · generalize mappedName f (String.ofList base) (String.ofList rest) = name at hname
      have htext : name ++ String.ofList rest = String.ofList (name.toList ++ rest) := by
        rw [String.ofList_append, String.ofList_toList]
      rw [htext]
      exact .renamed hname

theorem parts_nil : TypeParts [] [] :=
  ⟨.none rfl, ⟨by simp, .nil⟩, ⟨by simp, by simp⟩, by simp, by simp⟩

theorem exists_canonical (t : String) (f : Flavor) :
    ∃ base rest, normalizeType t f = String.ofList (base ++ rest) ∧ Canonical f base rest := by
  have hparts := parts_splitType t
  have hnormal := normalized_of_parts (f := f) hparts (t := t) (by rw [String.ofList_toList, String.ofList_toList])
  generalize normalizeType t f = n at hnormal
  cases hnormal with
  | digit =>
    exact ⟨"boolean".toList, [], by rw [List.append_nil, String.ofList_toList],
      canonical_of_mem (boolean_canonical f) parts_nil⟩
  | self h => exact ⟨_, _, rfl, h⟩
  | renamed hname => exact ⟨_, _, rfl, canonical_of_mem hname hparts⟩

/-- A type in its one spelling stays as it is. -/
theorem normalizeType_normalizeType (t : String) (f : Flavor) :
    normalizeType (normalizeType t f) f = normalizeType t f := by
  obtain ⟨base, rest, htext, hcanonical⟩ := exists_canonical t f
  rw [htext, normalizeType_of_canonical hcanonical]

-- ---------------------------------------------------------------------------
-- Written and read again
-- ---------------------------------------------------------------------------

/-- How the flavor reads a type that it has written. -/
def respelled (f : Flavor) (t : String) : String := normalizeType (spellType t f) f

/-- The names that a flavor writes for others. -/
def spelledNames : List String := ["tinyint(1)", "char(36)", "timestamp", "json", "blob", "double"]

theorem spellType_cases (t : String) (f : Flavor) : spellType t f = t ∨ spellType t f ∈ spelledNames := by
  simp only [spellType, spelledNames]
  split
  · split
    case h_8 => split <;> simp
    all_goals simp
  · split <;> simp

/-- A text ends in an empty pair of brackets if it does so in lower case. -/
theorem isList_lowercase (t : String) :
    (dropTail? "[]".toList (lowercase t).toList).isSome = true ↔ "[]".toList <:+ t.toList := by
  have hopening : IsMark '[' := isMark_of_opens rfl
  have hclosing : IsMark ']' := by
    rw [IsMark]
    decide
  have hbrackets (front : List Char) : front ++ "[]".toList = front ++ ['['] ++ [']'] := by
    rw [List.append_assoc]
    rfl
  have hlowers := lowers_lowercase t
  constructor
  · rw [Option.isSome_iff_exists]
    rintro ⟨front, hfront⟩
    rw [dropTail?_eq_some.mp hfront, hbrackets] at hlowers
    obtain ⟨before, hbefore, hlowers⟩ := hlowers.concat_mark hclosing
    obtain ⟨before, rfl, -⟩ := hlowers.concat_mark hopening
    rw [hbefore, ← hbrackets]
    exact List.suffix_append before _
  · rintro ⟨before, hbefore⟩
    rw [← hbefore, hbrackets] at hlowers
    obtain ⟨front, hfront⟩ := hlowers.mark_concat hclosing
    rw [hfront] at hlowers
    obtain ⟨_, heq, hlowers⟩ := hlowers.concat_mark hclosing
    obtain ⟨rfl, -⟩ := List.append_inj' heq rfl
    obtain ⟨front, rfl⟩ := hlowers.mark_concat hopening
    rw [hfront, ← hbrackets, dropTail?_append]
    rfl

/-- A type with parameters is written as it is, unless it is a list. -/
theorem spellType_parameters {t : String} (hc : c ∈ t.toList) (hopen : opens c = true) :
    spellType t f = t ↔ ¬(f = .mysql ∧ "[]".toList <:+ t.toList) := by
  have hlowers := lowers_lowercase t
  have hmem := (hlowers.mem_iff_of_mark (isMark_of_opens hopen)).mpr hc
  have hother {text name : String} (htext : c ∈ text.toList) (hname : ∀ d ∈ name.toList, opens d = false) :
      name ≠ text := fun heq => Bool.false_ne_true (hname c (heq ▸ htext) ▸ hopen)
  unfold spellType
  by_cases hf : f = .mysql
  · rw [if_pos hf]
    split
    case h_8 =>
      split
      · rename_i hlist
        exact iff_of_false (hother hc (forall_chars (by decide))) fun h => h ⟨hf, (isList_lowercase t).mp hlist⟩
      · rename_i hlist
        exact iff_of_true rfl fun h => hlist ((isList_lowercase t).mpr h.2)
    all_goals exact absurd ‹lowercase t = _›.symm (hother hmem (forall_chars (by decide)))
  · have hdatetime : "datetime" ≠ lowercase t := hother hmem (forall_chars (by decide))
    rw [if_neg hf, if_neg (by simpa using hdatetime.symm)]
    exact iff_of_true rfl fun h => hf h.1

/-- Flavors other than MySQL write alike and read alike. -/
theorem spellType_of_ne (hf : f ≠ .mysql) (t : String) : spellType t f = spellType t .generic := by
  have hgeneric : Flavor.generic ≠ .mysql := by decide
  simp only [spellType, if_neg hf, if_neg hgeneric]

theorem normalizeType_of_ne (hf : f ≠ .mysql) (t : String) : normalizeType t f = normalizeType t .generic := by
  have hgeneric : Flavor.generic ≠ .mysql := by decide
  simp only [normalizeType, if_neg hf, if_neg hgeneric]

theorem respelled_of_ne (hf : f ≠ .mysql) (t : String) : respelled f t = respelled .generic t := by
  rw [respelled, respelled, spellType_of_ne hf, normalizeType_of_ne hf]

/-- Names that are written for others settle. -/
theorem respelled_spelledNames (h : name ∈ spelledNames) (f : Flavor) :
    respelled f (normalizeType name f) = normalizeType name f := by
  by_cases hf : f = .mysql
  · subst hf
    exact (by decide +kernel : ∀ name ∈ spelledNames,
      respelled .mysql (normalizeType name .mysql) = normalizeType name .mysql) name h
  · rw [respelled_of_ne hf, normalizeType_of_ne hf]
    exact (by decide +kernel : ∀ name ∈ spelledNames,
      respelled .generic (normalizeType name .generic) = normalizeType name .generic) name h

/-- Without parameters, no canonical name but that of a boolean is written as another one. -/
theorem spellType_canonical (h : name ∈ canonicalNames f) (hrest : rest ∈ [[], " unsigned".toList]) :
    String.ofList (name.toList ++ rest) = "boolean" ∨
      spellType (String.ofList (name.toList ++ rest)) f = String.ofList (name.toList ++ rest) := by
  by_cases hf : f = .mysql
  · subst hf
    have hall : ∀ name ∈ canonicalNames .mysql, ∀ rest ∈ [[], " unsigned".toList],
        String.ofList (name.toList ++ rest) = "boolean" ∨
          spellType (String.ofList (name.toList ++ rest)) .mysql = String.ofList (name.toList ++ rest) := by
      decide +kernel
    exact hall name h rest hrest
  · have hall : ∀ name ∈ canonicalNames .generic, ∀ rest ∈ [[], " unsigned".toList],
        spellType (String.ofList (name.toList ++ rest)) .generic = String.ofList (name.toList ++ rest) := by
      decide +kernel
    rw [spellType_of_ne hf]
    exact .inr (hall name (canonicalNames_of_ne hf ▸ h) rest hrest)

theorem respelled_boolean (f : Flavor) : respelled f "boolean" = "boolean" := by
  by_cases hf : f = .mysql
  · subst hf
    decide +kernel
  · rw [respelled_of_ne hf]
    decide +kernel

theorem respelled_canonical (h : name ∈ canonicalNames f) (hparts : TypeParts base rest)
    (hrest : rest ∈ [[], " unsigned".toList]) :
    respelled f (String.ofList (name.toList ++ rest)) = String.ofList (name.toList ++ rest) := by
  rcases spellType_canonical h hrest with hboolean | hself
  · rw [hboolean, respelled_boolean]
  · rw [respelled, hself, normalizeType_of_canonical (canonical_of_mem h hparts)]

/-- A list stays one under another name. -/
theorem suffix_renamed (hopen : opens c = true) (h : "[]".toList <:+ name ++ c :: cs) (base : List Char) :
    "[]".toList <:+ base ++ c :: cs := by
  have hrest : "[]".toList <:+ c :: cs := by
    cases cs with
    | nil =>
      obtain ⟨before, hbefore⟩ := h
      have hlast := congrArg List.getLast? hbefore
      rw [List.getLast?_append, List.getLast?_append] at hlast
      obtain rfl : ']' = c := Option.some.inj hlast
      exact absurd hopen (by decide)
    | cons d cs => exact List.suffix_of_suffix_length_le h (List.suffix_append name _) (by simp)
  exact hrest.trans (List.suffix_append base _)

theorem respelled_of_parts (h : TypeParts base rest) (f : Flavor) :
    respelled f (respelled f (String.ofList (base ++ rest))) = respelled f (String.ofList (base ++ rest)) := by
  generalize ht : String.ofList (base ++ rest) = t
  rcases spellType_cases t f with hself | hspelled
  · have hnormal : Normalized f base rest (normalizeType t f) :=
      normalized_of_parts h (ht ▸ splitType_of_parts h)
    have hread : respelled f t = normalizeType t f := by rw [respelled, hself]
    rw [hread]
    generalize hn : normalizeType t f = n at hnormal hread
    cases hnormal with
    | digit => exact respelled_boolean f
    | self => rw [ht, hread, ht]
    | @renamed name hname =>
      cases h.suffix with
      | none => exact respelled_canonical hname h (by simp)
      | unsigned => exact respelled_canonical hname h (by simp)
      | @parameters c cs hopen hspaced hended htight =>
        have hmem {name : List Char} : c ∈ (String.ofList (name ++ c :: cs)).toList := by simp
        have hlist := (spellType_parameters (ht ▸ hmem) hopen).mp hself
        have hwritten : spellType (String.ofList (name.toList ++ c :: cs)) f =
            String.ofList (name.toList ++ c :: cs) := by
          refine (spellType_parameters hmem hopen).mpr fun ⟨hf, hsuffix⟩ => hlist ⟨hf, ?_⟩
          rw [← ht, String.toList_ofList (l := base ++ c :: cs)]
          rw [String.toList_ofList (l := name.toList ++ c :: cs)] at hsuffix
          exact suffix_renamed hopen hsuffix base
        rw [respelled, hwritten, normalizeType_of_canonical (canonical_of_mem hname h)]
  · exact respelled_spelledNames hspelled f

/-- A type that was read is read again as it is, and settles once it was written and read in any flavor. -/
theorem spelling_settles (t : String) (d₁ d₂ : Flavor) :
    normalizeType (normalizeType t d₁) d₁ = normalizeType t d₁ ∧
      respelled d₂ (respelled d₂ (normalizeType t d₁)) = respelled d₂ (normalizeType t d₁) := by
  refine ⟨normalizeType_normalizeType t d₁, ?_⟩
  obtain ⟨base, rest, htext, hcanonical⟩ := exists_canonical t d₁
  rw [htext]
  exact respelled_of_parts hcanonical.parts d₂

end SchemaDialects.Sql
