import Mathlib.Tactic.IntervalCases
import SchemaDialects.Json.Printer
import SchemaDialects.Json.Token

/-!
# The tokens of printed values

What is printed as a string, an integer or a word is one token, whose value is the one that was printed.
`tokens_atom` says so for every value without parts that is no double; the text behind it must not go on
with what would belong to a number.
-/

namespace SchemaDialects.Json

-- ---------------------------------------------------------------------------
-- Integers
-- ---------------------------------------------------------------------------

/-- What follows does not belong to a number. -/
def EndsNumber (rest : List Char) : Prop :=
  ∀ c ∈ rest.head?, c.isDigit = false ∧ c ≠ '.' ∧ c ≠ 'e' ∧ c ≠ 'E'

theorem endsNumber_nil : EndsNumber [] := by simp [EndsNumber]

theorem le_ofDigitChars (digits : List Char) (n : Nat) : n ≤ Nat.ofDigitChars 10 digits n := by
  induction digits generalizing n with
  | nil => exact Nat.le_refl n
  | cons d digits ih =>
    rw [Nat.ofDigitChars_cons]
    exact Nat.le_trans (by omega) (ih _)

/-- A number that fits a machine word is taken as a whole. -/
theorem absorb_of_le (h : Nat.ofDigitChars 10 digits n ≤ greatestWord) :
    absorb n digits = (Nat.ofDigitChars 10 digits n, digits.length, []) := by
  induction digits generalizing n with
  | nil => rfl
  | cons d digits ih =>
    have hnext : n * 10 + (d.toNat - '0'.toNat) = 10 * n + (d.toNat - '0'.toNat) := by omega
    rw [Nat.ofDigitChars_cons] at h ⊢
    have hle : ¬greatestWord < 10 * n + (d.toNat - '0'.toNat) :=
      Nat.not_lt.mpr (Nat.le_trans (le_ofDigitChars digits _) h)
    rw [absorb, hnext]
    dsimp only
    rw [if_neg hle, ih h]
    rfl

/-- A positive number does not begin with the digit zero. -/
theorem head?_toDigits (h : 0 < n) : (Nat.toDigits 10 n).head? ≠ some '0' := by
  induction n using Nat.strongRecOn with
  | ind n ih =>
    rw [Nat.toDigits_eq_if (by decide)]
    split
    · interval_cases n <;> decide
    · have hsome : Nat.toDigits 10 (n / 10) ≠ [] := Nat.toDigits_ne_nil
      obtain ⟨c, digits, hdigits⟩ := List.exists_cons_of_ne_nil hsome
      have hnext := ih (n / 10) (by omega) (by omega)
      rw [hdigits] at hnext ⊢
      simpa using hnext

theorem isDigit_toDigits (n : Nat) : ∀ c ∈ Nat.toDigits 10 n, c.isDigit = true :=
  fun _ hc => Nat.isDigit_of_mem_toDigits (b := 10) (by decide) (by decide) hc

/-- The digits of a number that fits a machine word are read as that number. -/
theorem scanNumber_toDigits (m : Mark) (negative : Bool) (h : n ≤ greatestWord) (hrest : EndsNumber rest) :
    ∃ stop, scanNumber m negative (Nat.toDigits 10 n ++ rest) =
      ⟨.scalar stop (integerAt stop negative n 0), stop, rest⟩ := by
  have hdigits := isDigit_toDigits n
  have hvalue : Nat.ofDigitChars 10 (Nat.toDigits 10 n) 0 = n :=
    Nat.ofDigitChars_toDigits (by decide) (by decide)
  have hwhole : absorb 0 (Nat.toDigits 10 n) = (n, (Nat.toDigits 10 n).length, []) := by
    rw [absorb_of_le (by rwa [hvalue]), hvalue]
  -- Neither a further digit nor a fraction nor an exponent follows.
  have htake : (Nat.toDigits 10 n ++ rest).takeWhile Char.isDigit = Nat.toDigits 10 n := by
    rw [List.takeWhile_append_of_pos hdigits]
    cases rest with
    | nil => simp
    | cons c rest => simp [(hrest c rfl).1]
  have hdrop : (Nat.toDigits 10 n ++ rest).dropWhile Char.isDigit = rest := by
    rw [List.dropWhile_append_of_pos hdigits]
    cases rest with
    | nil => rfl
    | cons c rest => simp [(hrest c rfl).1]
  have hfirst : ∀ c tail, Nat.toDigits 10 n = c :: tail →
      ¬(c = '0' ∧ ((tail ++ rest).headD ' ').isDigit) := by
    rintro c tail htext ⟨rfl, htail⟩
    rcases Nat.eq_zero_or_pos n with rfl | hpos
    · obtain ⟨-, rfl⟩ : '0' = '0' ∧ [] = tail := by simpa using htext
      cases rest with
      | nil => simp at htail
      | cons c rest => simp [(hrest c rfl).1] at htail
    · exact head?_toDigits hpos (by rw [htext]; rfl)
  cases htext : Nat.toDigits 10 n with
  | nil => exact absurd htext Nat.toDigits_ne_nil
  | cons c tail =>
    rw [htext] at hdigits hwhole htake hdrop
    refine ⟨m.afterAll (c :: tail), ?_⟩
    rw [List.cons_append] at htake hdrop ⊢
    simp only [scanNumber, hdigits c List.mem_cons_self, htake, hdrop, hwhole]
    rw [if_neg (by decide), if_neg (hfirst c tail htext)]
    cases rest with
    | nil => rfl
    | cons d rest =>
      obtain ⟨-, hpoint, hsmall, hgreat⟩ := hrest d rfl
      simp [hpoint, hsmall, hgreat]

theorem toList_negSucc (k : Nat) :
    (toString (Int.negSucc k)).toList = '-' :: Nat.toDigits 10 (k + 1) := by
  have happend : toString (Int.negSucc k) = "-" ++ (k + 1).repr := rfl
  rw [happend, String.toList_append, Nat.toList_repr]
  rfl

theorem integerAt_negSucc (hk : k + 1 ≤ 2 ^ 63) (stop : Mark) :
    integerAt stop true (k + 1) 0 = .ok (.int (Int.negSucc k)) :=
  if_pos (⟨Nat.succ_pos k, hk⟩ : 0 < k + 1 ∧ k + 1 ≤ Nat.pow 2 63)

theorem natCast_le_greatestWord {k : Nat} (h : (k : Int) < 2 ^ 64) : k ≤ greatestWord := by
  simp [greatestWord]
  omega

-- ---------------------------------------------------------------------------
-- Strings
-- ---------------------------------------------------------------------------

theorem hexValue?_digitChar : ∀ n < 0x10, hexValue? (Nat.digitChar n) = some n := by decide

theorem digitChar_ne : ∀ n < 0x10, Nat.digitChar n ≠ '"' ∧ Nat.digitChar n ≠ '\\' := by decide

/-- The characters with a short escape, and its letter. -/
def shortEscapes : List (Char × Char) :=
  [('"', '"'), ('\\', '\\'), ('\x08', 'b'), ('\x0c', 'f'), ('\n', 'n'), ('\r', 'r'), ('\t', 't')]

theorem escapeChar_short : ∀ p ∈ shortEscapes,
    escapeChar p.1 = ['\\', p.2] ∧ p.2 ≠ 'u' ∧ simpleEscape? p.2 = some p.1 := by
  decide

/-- A character of a string is printed as a short escape, as the escape of a control, or as itself. -/
theorem escapeChar_cases (c : Char) :
    (∃ e, escapeChar c = ['\\', e] ∧ e ≠ 'u' ∧ simpleEscape? e = some c) ∨
    (∃ g h, escapeChar c = ['\\', 'u', '0', '0', g, h] ∧ c.toNat < 0x20 ∧
      (∀ d ∈ [g, h], d ≠ '"' ∧ d ≠ '\\') ∧
      ∀ rest, hexCode? ('0' :: '0' :: g :: h :: rest) = some c.toNat) ∨
    (escapeChar c = [c] ∧ c ≠ '"' ∧ c ≠ '\\' ∧ ¬c.toNat < 0x20) := by
  by_cases hshort : ∃ e, (c, e) ∈ shortEscapes
  · obtain ⟨e, he⟩ := hshort
    exact .inl ⟨e, escapeChar_short _ he⟩
  have hne : ∀ p ∈ shortEscapes, c ≠ p.1 := fun p hp heq => hshort ⟨p.2, heq ▸ hp⟩
  simp only [shortEscapes, List.forall_mem_cons] at hne
  obtain ⟨hquote, hslash, hback, hfeed, hline, hreturn, htab, -⟩ := hne
  have hzero : hexValue? '0' = some 0 := rfl
  have hone : hexValue? '1' = some 1 := rfl
  rw [escapeChar, if_neg hquote, if_neg hslash, if_neg hback, if_neg hfeed, if_neg hline, if_neg hreturn,
    if_neg htab]
  by_cases hsmall : c.toNat < 0x10
  · have hdigits : Text.hexDigits c.toNat = [Nat.digitChar c.toNat] := Nat.toDigits_of_lt_base hsmall
    refine .inr (.inl ⟨'0', Nat.digitChar c.toNat, by rw [if_pos hsmall, hdigits]; rfl, by omega,
      List.forall_mem_cons.mpr ⟨by decide, List.forall_mem_singleton.mpr (digitChar_ne _ hsmall)⟩,
      fun rest => ?_⟩)
    simp only [hexCode?, hzero, hexValue?_digitChar _ hsmall, Option.bind_eq_bind, Option.bind_some,
      Option.pure_def, Nat.zero_mul, Nat.zero_add]
  rw [if_neg hsmall]
  by_cases hcontrol : c.toNat < 0x20
  · have hlow : c.toNat % 0x10 < 0x10 := Nat.mod_lt _ (by decide)
    have hdigits : Text.hexDigits c.toNat = ['1', Nat.digitChar (c.toNat % 0x10)] := by
      have hfirst : c.toNat / 0x10 = 1 := by omega
      rw [Text.hexDigits, Nat.toDigits_eq_if (by decide), if_neg hsmall, hfirst]
      rfl
    refine .inr (.inl ⟨'1', Nat.digitChar (c.toNat % 0x10), by rw [if_pos hcontrol, hdigits]; rfl, hcontrol,
      List.forall_mem_cons.mpr ⟨by decide, List.forall_mem_singleton.mpr (digitChar_ne _ hlow)⟩,
      fun rest => ?_⟩)
    simp only [hexCode?, hzero, hone, hexValue?_digitChar _ hlow, Option.bind_eq_bind, Option.bind_some,
      Option.pure_def, Option.some.injEq]
    omega
  · exact .inr (.inr ⟨if_neg hcontrol, hquote, hslash, hcontrol⟩)

theorem afterText_cons (hquote : c ≠ '"') (hslash : c ≠ '\\') :
    afterText m (c :: cs) = afterText (m.after c) cs := by
  rw [afterText.eq_def]
  simp [hquote, hslash]

theorem afterText_escape (e : Char) : afterText m ('\\' :: e :: cs) = afterText ((m.after '\\').after e) cs := by
  rw [afterText.eq_def]
  rfl

/-- What is printed between quotes is read without a fault as what was printed. -/
theorem escaped_text (cs rest : List Char) (m : Mark) :
    hardFault? m (cs.flatMap escapeChar ++ '"' :: rest) = none ∧
    textValue m (cs.flatMap escapeChar ++ '"' :: rest) = .ok cs ∧
    ∃ stop, afterText m (cs.flatMap escapeChar ++ '"' :: rest) = some (stop, rest) := by
  induction cs generalizing m with
  | nil => exact ⟨rfl, rfl, m.after '"', by rw [afterText.eq_def]; rfl⟩
  | cons c cs ih =>
    rw [List.flatMap_cons, List.append_assoc]
    rcases escapeChar_cases c with
      ⟨e, htext, hu, he⟩ | ⟨g, h, htext, hlow, hplain, hcode⟩ | ⟨htext, hquote, hslash, hcontrol⟩
    · obtain ⟨hfault, hvalue, stop, hstop⟩ := ih ((m.after '\\').after e)
      rw [htext]
      refine ⟨?_, ?_, stop, (afterText_escape e).trans hstop⟩
      · simpa [hardFault?, he] using hfault
      · simp [textValue, he, hvalue, Except.map]
    · obtain ⟨hfault, hvalue, stop, hstop⟩ :=
        ih (((m.after '\\').after 'u').afterAll ['0', '0', g, h])
      obtain ⟨hg, hg'⟩ := hplain g (by simp)
      obtain ⟨hh, hh'⟩ := hplain h (by simp)
      have hlowest : isLowSurrogate c.toNat = false := by simp [isLowSurrogate]; omega
      have hhighest : isHighSurrogate c.toNat = false := by simp [isHighSurrogate]; omega
      rw [htext]
      refine ⟨?_, ?_, stop, ?_⟩
      · simpa [hardFault?, hcode] using hfault
      · rw [textValue.eq_def]
        simp [hcode, hlowest, hhighest, hvalue, Except.map]
      · simp only [List.cons_append, List.nil_append]
        rw [afterText_escape, afterText_cons (by decide) (by decide), afterText_cons (by decide) (by decide),
          afterText_cons hg hg', afterText_cons hh hh']
        exact hstop
    · obtain ⟨hfault, hvalue, stop, hstop⟩ := ih (m.after c)
      rw [htext]
      refine ⟨?_, ?_, stop, (afterText_cons hquote hslash).trans hstop⟩
      · simpa [hardFault?, hquote, hslash, hcontrol] using hfault
      · simp [textValue, hslash, hcontrol, hvalue, Except.map]

-- ---------------------------------------------------------------------------
-- Tokens
-- ---------------------------------------------------------------------------

theorem tokens_space (hc : isSpace c = true) : tokens m (c :: cs) = tokens (m.after c) cs := by
  rw [tokens, if_pos hc]

theorem tokens_cons (hc : isSpace c = false) :
    tokens m (c :: cs) = ⟨m, (scan m c cs).lexeme⟩ :: tokens (scan m c cs).stop (scan m c cs).rest := by
  rw [tokens, if_neg (by simp [hc])]

theorem tokens_punctuation (hc : punctuation? c = some lexeme) :
    tokens m (c :: cs) = ⟨m, lexeme⟩ :: tokens (m.after c) cs := by
  have hspace : isSpace c = false := by
    refine Bool.eq_false_iff.mpr fun hspace => ?_
    simp only [isSpace, Bool.or_eq_true, decide_eq_true_eq] at hspace
    rcases hspace with ((rfl | rfl) | rfl) | rfl <;> simp [punctuation?] at hc
  rw [tokens_cons hspace, scan, hc]

/-- A line break and the indentation behind it are no tokens. -/
theorem tokens_newLine (depth : Nat) (m : Mark) (cs : List Char) :
    ∃ m', tokens m (newLine depth ++ cs) = tokens m' cs := by
  have hspaces : ∀ n m, ∃ m', tokens m (List.replicate n ' ' ++ cs) = tokens m' cs := by
    intro n
    induction n with
    | zero => exact fun m => ⟨m, rfl⟩
    | succ n ih =>
      intro m
      obtain ⟨m', h⟩ := ih (m.after ' ')
      exact ⟨m', (tokens_space rfl).trans h⟩
  obtain ⟨m', h⟩ := hspaces (2 * depth) (m.after '\n')
  exact ⟨m', (tokens_space rfl).trans h⟩

theorem tokens_string (s : String) (m : Mark) (rest : List Char) :
    ∃ stop, tokens m (string s ++ rest) = ⟨m, .text stop (.ok s)⟩ :: tokens stop rest := by
  obtain ⟨hfault, hvalue, stop, hstop⟩ := escaped_text s.toList rest (m.after '"')
  refine ⟨stop, ?_⟩
  have hscan : scan m '"' (s.toList.flatMap escapeChar ++ '"' :: rest) = ⟨.text stop (.ok s), stop, rest⟩ := by
    show scanText _ _ = _
    simp [scanText, hfault, hvalue, hstop, Except.map]
  simp only [string, List.cons_append, List.append_assoc, List.nil_append]
  rw [tokens_cons rfl, hscan]

/-- A digit begins a number without a sign. -/
theorem tokens_digit (hc : c.isDigit = true) : tokens m (c :: cs) =
    ⟨m, (scanNumber m false (c :: cs)).lexeme⟩ ::
      tokens (scanNumber m false (c :: cs)).stop (scanNumber m false (c :: cs)).rest := by
  have hne : ∀ d : Char, d.isDigit = false → c ≠ d := by
    rintro d hd rfl
    exact absurd hc (by simp [hd])
  have hpunctuation : punctuation? c = none := by simp [punctuation?, hne]
  have hspace : isSpace c = false := by simp [isSpace, hne]
  have hscan : scan m c cs = scanNumber m false (c :: cs) := by
    simp [scan, hpunctuation, hne, hc]
  rw [tokens_cons hspace, hscan]

/-- An integer of a machine word is one token, unless the text goes on with a part of a number. -/
theorem tokens_int (hlow : -(2 ^ 63) ≤ n) (hhigh : n < 2 ^ 64) (m : Mark) (hrest : EndsNumber rest) :
    ∃ stop, tokens m ((toString (n : Int)).toList ++ rest) =
      ⟨m, .scalar stop (.ok (.int n))⟩ :: tokens stop rest := by
  cases n with
  | ofNat k =>
    have hk : k ≤ greatestWord := natCast_le_greatestWord hhigh
    obtain ⟨stop, hscan⟩ := scanNumber_toDigits m false hk hrest
    have htext : (toString (Int.ofNat k)).toList = Nat.toDigits 10 k := Nat.toList_repr
    obtain ⟨c, digits, hdigits⟩ := List.exists_cons_of_ne_nil (Nat.toDigits_ne_nil (b := 10) (n := k))
    have hc : c.isDigit = true := isDigit_toDigits k c (by simp [hdigits])
    refine ⟨stop, ?_⟩
    rw [hdigits, List.cons_append] at hscan
    rw [htext, hdigits, List.cons_append, tokens_digit hc, hscan]
    rfl
  | negSucc k =>
    have hk : k + 1 ≤ 2 ^ 63 := by omega
    obtain ⟨stop, hscan⟩ := scanNumber_toDigits (m.after '-') true
      (show k + 1 ≤ greatestWord by simp [greatestWord]; omega) hrest
    have hminus : scan m '-' (Nat.toDigits 10 (k + 1) ++ rest) =
      scanNumber (m.after '-') true (Nat.toDigits 10 (k + 1) ++ rest) := rfl
    refine ⟨stop, ?_⟩
    rw [toList_negSucc, List.cons_append, tokens_cons rfl, hminus, hscan, integerAt_negSucc hk]

theorem scanWord_append (value : Scalar) (m : Mark) (word rest : List Char) :
    ∃ stop, scanWord value m word (word ++ rest) = ⟨.scalar stop (.ok value), stop, rest⟩ := by
  induction word generalizing m with
  | nil => exact ⟨m, rfl⟩
  | cons w word ih =>
    obtain ⟨stop, h⟩ := ih (m.after w)
    exact ⟨stop, by rw [List.cons_append, scanWord, if_pos rfl, h]⟩

/-- A word is one token. -/
theorem tokens_word {word : List Char} (hspace : isSpace c = false)
    (hscan : ∀ cs, scan m c cs = scanWord value (m.after c) word cs) :
    ∃ stop, tokens m (c :: word ++ rest) = ⟨m, .scalar stop (.ok value)⟩ :: tokens stop rest := by
  obtain ⟨stop, h⟩ := scanWord_append value (m.after c) word rest
  exact ⟨stop, by rw [List.cons_append, tokens_cons hspace, hscan, h]⟩

end SchemaDialects.Json
