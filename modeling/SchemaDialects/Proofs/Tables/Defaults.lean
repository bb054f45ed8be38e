import SchemaDialects.Proofs.Json.Scanning
import SchemaDialects.Proofs.TextLaws
import SchemaDialects.Tables.Export

/-!
# Default values in table documents

A document holds a default value as a number, a string, a boolean or an expression. The text that was taken apart so
is put together again exactly if it is `Lossless`: the apostrophes of its string come in pairs, and its number is an
integer or a double as it is printed (`text_ofText_iff`). A number that is read from a whole text is a double, or an
integer as it is printed (`cases_number?`).
-/

namespace SchemaDialects.Tables

open Json

-- ---------------------------------------------------------------------------
-- Integers
-- ---------------------------------------------------------------------------

/-- An integer of a machine word is read from the text it is printed as. -/
theorem number?_toString (hlow : -(2 ^ 63) ≤ n) (hhigh : n < 2 ^ 64) :
    number? (toString n).toList = some (.int n) := by
  cases n with
  | ofNat k =>
    have hk : k ≤ greatestWord := natCast_le_greatestWord hhigh
    obtain ⟨stop, hscan⟩ := scanNumber_toDigits {} false hk endsNumber_nil
    have htext : (toString (Int.ofNat k)).toList = Nat.toDigits 10 k := Nat.toList_repr
    -- With no sign in front, the reader of unsigned numbers has the text.
    have hsign : ∀ rest, Nat.toDigits 10 k = '-' :: rest → False := fun rest hminus => by
      have hdigit := isDigit_toDigits k '-' (by simp [hminus])
      simp at hdigit
    rw [List.append_nil] at hscan
    rw [htext]
    simp [number?, hscan, integerAt]
  | negSucc k =>
    have hk : k + 1 ≤ 2 ^ 63 := by omega
    obtain ⟨stop, hscan⟩ := scanNumber_toDigits {} true
      (show k + 1 ≤ greatestWord by simp [greatestWord]; omega) endsNumber_nil
    rw [List.append_nil] at hscan
    rw [toList_negSucc]
    simp [number?, hscan, integerAt_negSucc hk]

-- ---------------------------------------------------------------------------
-- Numbers
-- ---------------------------------------------------------------------------

theorem toDigits_digit {d : Char} (h : d.isDigit = true) : Nat.toDigits 10 (d.toNat - '0'.toNat) = [d] := by
  obtain ⟨hlow, hhigh⟩ := Text.isDigit_iff.mp h
  have hall : ∀ n < 58, 48 ≤ n → Nat.toDigits 10 (n - '0'.toNat) = [Char.ofNat n] := by decide
  have hd := hall d.toNat (by omega) hlow
  rwa [Char.ofNat_toNat] at hd

/-- Digits behind a positive number are those of the number that they go on with. -/
theorem toDigits_ofDigitChars (h : ∀ c ∈ digits, c.isDigit = true) (hpos : 0 < n) :
    Nat.toDigits 10 (Nat.ofDigitChars 10 digits n) = Nat.toDigits 10 n ++ digits := by
  induction digits generalizing n with
  | nil => rw [Nat.ofDigitChars_nil, List.append_nil]
  | cons d digits ih =>
    obtain ⟨hd, hdigits⟩ := List.forall_mem_cons.mp h
    obtain ⟨hlow, hhigh⟩ := Text.isDigit_iff.mp hd
    have hdigit : Nat.toDigits 10 (d.toNat - '0'.toNat) = [d] := toDigits_digit hd
    have hlt : d.toNat - '0'.toNat < 10 := by
      have : '0'.toNat = 48 := rfl
      omega
    rw [Nat.ofDigitChars_cons, ih hdigits (by omega), ← Nat.toDigits_append_toDigits (by decide) hpos hlt, hdigit,
      List.append_assoc]
    rfl

theorem eq_of_absorb (h : (absorb n digits).2.2 = []) : (absorb n digits).1 = Nat.ofDigitChars 10 digits n := by
  induction digits generalizing n with
  | nil => rfl
  | cons d digits ih =>
    have hnext : n * 10 + (d.toNat - '0'.toNat) = 10 * n + (d.toNat - '0'.toNat) := by omega
    rw [absorb] at h ⊢
    dsimp only at h ⊢
    split at h
    · cases h
    · rename_i hfits
      rw [if_neg hfits, Nat.ofDigitChars_cons, ← hnext]
      exact ih h

theorem float_of_doubleAt (h : doubleAt stop negative significand exponent = .ok s) : ∃ x, s = .float x := by
  unfold doubleAt at h
  split at h
  · exact ⟨_, (Except.ok.inj h).symm⟩
  · cases h

theorem float_of_scanExponent
    (h : (scanExponent m negative significand exponent cs).lexeme = .scalar stop (.ok s)) : ∃ x, s = .float x := by
  unfold scanExponent at h
  dsimp only at h
  split at h
  · cases h
  · injection h with _ h
    split at h
    · exact float_of_doubleAt h
    · -- The sign of the exponent is told apart a second time.
      split at h
      all_goals
        split at h
        · cases h
        · exact ⟨_, (Except.ok.inj h).symm⟩

theorem float_of_scanFraction
    (h : (scanFraction m negative significand exponent cs).lexeme = .scalar stop (.ok s)) : ∃ x, s = .float x := by
  unfold scanFraction at h
  dsimp only at h
  split at h
  · cases h
  · split at h
    · split at h
      · exact float_of_scanExponent h
      · injection h with _ h
        exact float_of_doubleAt h
    · injection h with _ h
      exact float_of_doubleAt h

theorem cases_integerAt (h : integerAt stop negative significand dropped = .ok s) :
    (∃ x, s = .float x) ∨ dropped = 0 ∧ ((negative = false ∧ s = .int significand) ∨
      (negative = true ∧ 0 < significand ∧ s = .int (-significand))) := by
  unfold integerAt at h
  split at h
  · exact .inl (float_of_doubleAt h)
  · rename_i hdropped
    have hdropped := Decidable.not_not.mp hdropped
    cases negative with
    | false => exact .inr ⟨hdropped, .inl ⟨rfl, (Except.ok.inj h).symm⟩⟩
    | true =>
      rw [if_neg (by decide)] at h
      split at h
      · rename_i hword
        exact .inr ⟨hdropped, .inr ⟨rfl, hword.1, (Except.ok.inj h).symm⟩⟩
      · exact .inl (float_of_doubleAt h)

/-- Digits without needless zeros in front are those of the number that they are read as. -/
theorem toDigits_of_digits (h : ∀ d ∈ c :: tail, d.isDigit = true)
    (hzero : ¬(c = '0' ∧ (tail.headD ' ').isDigit = true)) :
    Nat.toDigits 10 (Nat.ofDigitChars 10 (c :: tail) 0) = c :: tail := by
  obtain ⟨hc, htail⟩ := List.forall_mem_cons.mp h
  by_cases hc0 : c = '0'
  · subst hc0
    cases tail with
    | nil => rfl
    | cons d tail => exact absurd ⟨rfl, htail d List.mem_cons_self⟩ hzero
  · have hpos : 0 < c.toNat - '0'.toNat := by
      have hlow := (Text.isDigit_iff.mp hc).1
      have hne : c.toNat ≠ 48 := fun heq => hc0 (Char.toNat_inj.mp heq)
      have : '0'.toNat = 48 := rfl
      omega
    rw [Nat.ofDigitChars_cons, Nat.mul_zero, Nat.zero_add, toDigits_ofDigitChars htail hpos, toDigits_digit hc]
    rfl

/-- What is read as a number as a whole is a double, or the digits of an integer. -/
theorem cases_scanNumber (h : (scanNumber m negative cs).lexeme = .scalar stop (.ok s))
    (hrest : (scanNumber m negative cs).rest = []) :
    (∃ x, s = .float x) ∨ ∃ n : Nat, cs = Nat.toDigits 10 n ∧
      ((negative = false ∧ s = .int n) ∨ (negative = true ∧ 0 < n ∧ s = .int (-n))) := by
  unfold scanNumber at h hrest
  cases cs with
  | nil => cases h
  | cons c tail =>
    dsimp only at h hrest
    split at h
    · cases h
    · rename_i hdigit
      rw [if_neg hdigit] at hrest
      split at h
      · cases h
      · rename_i hzero
        rw [if_neg hzero] at hrest
        have hdigits : ∀ d ∈ (c :: tail).takeWhile Char.isDigit, d.isDigit = true := fun d hd =>
          List.mem_takeWhile_imp hd
        have hparts := List.takeWhile_append_dropWhile (p := Char.isDigit) (l := c :: tail)
        generalize (c :: tail).takeWhile Char.isDigit = digits at h hrest hdigits hparts
        generalize (c :: tail).dropWhile Char.isDigit = rest at h hrest hparts
        cases rest with
        | cons d after =>
          dsimp only at h hrest
          split at h
          · exact .inl (float_of_scanFraction h)
          · rename_i hpoint
            split at h
            · exact .inl (float_of_scanExponent h)
            · rename_i hexponent
              rw [if_neg hpoint, if_neg hexponent] at hrest
              cases hrest
        | nil =>
          rw [List.append_nil] at hparts
          subst hparts
          injection h with _ h
          refine (cases_integerAt h).imp_right fun ⟨hleft, hvalue⟩ => ⟨_, (toDigits_of_digits hdigits hzero).symm, ?_⟩
          rwa [eq_of_absorb (List.length_eq_zero_iff.mp hleft)] at hvalue

/-- A text that is a number as a whole is a double, or an integer as it is printed. -/
theorem cases_number? (h : number? cs = some s) :
    (∃ x, s = .float x) ∨ ∃ n : Int, s = .int n ∧ cs = (toString n).toList := by
  unfold number? at h
  dsimp only at h
  split at h
  · rename_i hlexeme hrest
    obtain rfl := Option.some.inj h
    revert hlexeme hrest
    split
    · rename_i rest
      intro hlexeme hrest
      refine (cases_scanNumber hlexeme hrest).imp_right fun ⟨n, hrest, hvalue⟩ => ?_
      obtain ⟨hfalse, -⟩ | ⟨-, hpos, rfl⟩ := hvalue
      · cases hfalse
      · obtain ⟨k, rfl⟩ := Nat.exists_eq_succ_of_ne_zero (Nat.ne_of_gt hpos)
        exact ⟨_, rfl, by rw [hrest]; exact (toList_negSucc k).symm⟩
    · intro hlexeme hrest
      refine (cases_scanNumber hlexeme hrest).imp_right fun ⟨n, hrest, hvalue⟩ => ?_
      obtain ⟨-, rfl⟩ | ⟨htrue, -⟩ := hvalue
      · exact ⟨n, rfl, by rw [hrest]; exact (Nat.toList_repr).symm⟩
      · cases htrue
  · cases h

-- ---------------------------------------------------------------------------
-- Texts
-- ---------------------------------------------------------------------------

/-- A text with every apostrophe doubled. -/
def doubleApostrophes (cs : List Char) : List Char :=
  Text.replaceChar '\'' ['\'', '\''] cs

theorem undouble_double (cs : List Char) : undoubleApostrophes (doubleApostrophes cs) = cs := by
  induction cs with
  | nil => rfl
  | cons c cs ih =>
    by_cases hc : c = '\''
    · subst hc
      simpa [doubleApostrophes, Text.replaceChar, undoubleApostrophes] using ih
    · have hcons : doubleApostrophes (c :: cs) = c :: doubleApostrophes cs := by
        simp [doubleApostrophes, Text.replaceChar, hc]
      rw [hcons, undoubleApostrophes.eq_2 _ _ (fun _ h => absurd h hc), ih]

/-- The text between two apostrophes. -/
theorem inner_eq_some {inner : List Char} : (Text.dropHead? ['\''] cs).bind (Text.dropTail? ['\'']) = some inner ↔
    cs = '\'' :: inner ++ ['\''] := by
  simp [Option.bind_eq_some_iff, Text.dropHead?_eq_some, Text.dropTail?_eq_some]

theorem number?_quoted (inner : List Char) : number? ('\'' :: inner ++ ['\'']) = none := by
  simp [number?, scanNumber]

/-- What is no number and not between apostrophes stays as it is. -/
theorem text_ofText_of_none (hinner : (Text.dropHead? ['\''] text.toList).bind (Text.dropTail? ['\'']) = none)
    (hnumber : number? text.toList = none) : (DefaultValue.ofText text).text = text := by
  simp only [DefaultValue.ofText, hinner, hnumber]
  split
  · next htext => subst htext; decide
  · split
    · next htext => subst htext; decide
    · rfl

-- ---------------------------------------------------------------------------
-- What is kept
-- ---------------------------------------------------------------------------

/-- Apostrophes that are undoubled and doubled again come back if they came in pairs. -/
theorem double_undouble : doubleApostrophes (undoubleApostrophes cs) = cs ↔ ∃ plain, cs = doubleApostrophes plain := by
  constructor
  · exact fun h => ⟨_, h.symm⟩
  · rintro ⟨plain, rfl⟩
    rw [undouble_double]

/-- A text that is kept as a default value: between its apostrophes there are pairs of them only, and a double is
written as it is printed. -/
structure Lossless (text : String) : Prop where
  quoted : ∀ inner, text.toList = '\'' :: inner ++ ['\''] → ∃ plain, inner = doubleApostrophes plain
  double : ∀ x, number? text.toList = some (.float x) → compact (.float x) = text

/-- A default value is put together again exactly if it is lossless. -/
theorem text_ofText_iff (text : String) : (DefaultValue.ofText text).text = text ↔ Lossless text := by
  cases hinner : (Text.dropHead? ['\''] text.toList).bind (Text.dropTail? ['\'']) with
  | some inner =>
    have htext := inner_eq_some.mp hinner
    have hof : DefaultValue.ofText text = ⟨.string, .str (String.ofList (undoubleApostrophes inner))⟩ := by
      rw [DefaultValue.ofText, hinner]
    have hback : (DefaultValue.ofText text).text = text ↔ doubleApostrophes (undoubleApostrophes inner) = inner := by
      rw [hof, ← String.toList_inj, htext]
      simp [DefaultValue.text, doubleApostrophes]
    have hnumber : number? text.toList = none := by rw [htext, number?_quoted]
    rw [hback, double_undouble]
    constructor
    · intro hpaired
      refine ⟨fun other hother => ?_, by simp [hnumber]⟩
      obtain rfl : inner = other := by simpa [htext] using hother
      exact hpaired
    · exact fun h => h.quoted inner htext
  | none =>
    have hquoted (inner : List Char) : text.toList ≠ '\'' :: inner ++ ['\''] := fun htext => by
      rw [inner_eq_some.mpr htext] at hinner
      cases hinner
    cases hnumber : number? text.toList with
    | some s =>
      rcases cases_number? hnumber with ⟨x, rfl⟩ | ⟨n, rfl, htext⟩
      · have hprinted : (DefaultValue.ofText text).text = compact (.float x) := by
          simp only [DefaultValue.ofText, hinner, hnumber]
          rfl
        rw [hprinted]
        refine ⟨fun h => ⟨fun inner htext => absurd htext (hquoted inner), fun y hy => ?_⟩, fun h => h.double x hnumber⟩
        obtain rfl : x = y := by simpa [hnumber] using hy
        exact h
      · have hprinted : (DefaultValue.ofText text).text = toString n := by
          simp only [DefaultValue.ofText, hinner, hnumber]
          exact String.ofList_toList
        refine iff_of_true (hprinted.trans (String.toList_injective htext.symm)) ?_
        exact ⟨fun inner htext => absurd htext (hquoted inner), by simp [hnumber]⟩
    | none =>
      exact iff_of_true (text_ofText_of_none hinner hnumber)
        ⟨fun inner htext => absurd htext (hquoted inner), by simp [hnumber]⟩

/-- A default value is kept exactly if it is lossless, by itself and in the field of an attribute. -/
theorem default_kept_iff (text : String) (e : Entity) (attr : Attribute) :
    ((DefaultValue.ofText text).text = text ↔ Lossless text) ∧
      ((Field.ofAttribute e attr).attribute.defaultValue = attr.defaultValue ↔
        ∀ value ∈ attr.defaultValue, Lossless value) := by
  refine ⟨text_ofText_iff text, ?_⟩
  cases hdefault : attr.defaultValue with
  | none => simp [Field.ofAttribute, Field.attribute, hdefault]
  | some value => simp [Field.ofAttribute, Field.attribute, hdefault, text_ofText_iff]

/-- Two strings that an operator joins are taken for one string. -/
theorem default_rejoined :
    (DefaultValue.ofText "'a' || 'b'").text = "'a'' || ''b'" ∧
      (DefaultValue.ofText "'a' || 'b'").text ≠ "'a' || 'b'" := by decide +kernel

/-- The default values that a document can hold: an integer of a machine word as it is printed, a text in
apostrophes with those inside it doubled, and whatever else is no number and not in apostrophes. -/
inductive HoldableDefault : String → Prop
  | integer (hlow : -(2 ^ 63) ≤ n) (hhigh : n < 2 ^ 64) : HoldableDefault (toString (n : Int))
  | quoted (inner : List Char) :
      HoldableDefault (String.ofList ('\'' :: doubleApostrophes inner ++ ['\'']))
  | other (hnumber : number? text.toList = none)
      (hends : ¬(text.toList.head? = some '\'' ∧ text.toList.getLast? = some '\'')) :
      HoldableDefault text

theorem HoldableDefault.lossless (h : HoldableDefault text) : Lossless text := by
  cases h with
  | @integer n hlow hhigh =>
    have hnumber := number?_toString hlow hhigh
    refine ⟨fun inner htext => ?_, fun x hx => ?_⟩
    · rw [htext, number?_quoted] at hnumber
      cases hnumber
    · rw [hnumber] at hx
      cases hx
  | quoted inner =>
    refine ⟨fun other hother => ⟨inner, ?_⟩, fun x hx => ?_⟩
    · simpa using hother.symm
    · rw [String.toList_ofList, number?_quoted] at hx
      cases hx
  | @other text hnumber hends =>
    refine ⟨fun inner htext => absurd ?_ hends, by simp [hnumber]⟩
    rw [htext]
    exact ⟨rfl, List.getLast?_concat⟩

/-- A default value is put together again from what it was told apart into. -/
theorem text_ofText (h : HoldableDefault text) : (DefaultValue.ofText text).text = text :=
  (text_ofText_iff text).mpr h.lossless

end SchemaDialects.Tables
