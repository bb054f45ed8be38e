import Mathlib.Data.List.TakeWhile
import SchemaDialects.Text.Bytes
import SchemaDialects.Text.Letter
import SchemaDialects.Text.Lines
import SchemaDialects.Text.Search
import SchemaDialects.Text.Tile

/-!
# Cutting and trimming

What `Text` cuts off is what was put there: a tail, the blanks at the two ends, the separators between
pieces.
-/

namespace SchemaDialects.Text

-- ---------------------------------------------------------------------------
-- Letters and digits of ASCII
-- ---------------------------------------------------------------------------

theorem isUpper_iff {c : Char} : c.isUpper = true ↔ 65 ≤ c.toNat ∧ c.toNat ≤ 90 := by
  show decide ('A'.val ≤ c.val ∧ c.val ≤ 'Z'.val) = true ↔ _
  simp [UInt32.le_iff_toNat_le]

theorem isLower_iff {c : Char} : c.isLower = true ↔ 97 ≤ c.toNat ∧ c.toNat ≤ 122 := by
  show (decide ('a'.val ≤ c.val) && decide (c.val ≤ 'z'.val)) = true ↔ _
  simp [UInt32.le_iff_toNat_le]

theorem isDigit_iff {c : Char} : c.isDigit = true ↔ 48 ≤ c.toNat ∧ c.toNat ≤ 57 := by
  show (decide ('0'.val ≤ c.val) && decide (c.val ≤ '9'.val)) = true ↔ _
  simp [UInt32.le_iff_toNat_le]

theorem isAlpha_iff {c : Char} : c.isAlpha = true ↔ c.isUpper = true ∨ c.isLower = true :=
  Iff.of_eq (Bool.or_eq_true c.isUpper c.isLower)

-- ---------------------------------------------------------------------------
-- Heads and tails
-- ---------------------------------------------------------------------------

theorem dropHead?_append : dropHead? head (head ++ cs) = some cs := by
  induction head with
  | nil => rfl
  | cons h head ih => simpa [dropHead?] using ih

theorem dropHead?_eq_some : dropHead? head cs = some rest ↔ cs = head ++ rest := by
  induction head generalizing cs with
  | nil => simp [dropHead?, eq_comm]
  | cons h head ih =>
    cases cs with
    | nil => simp [dropHead?]
    | cons c cs => by_cases hc : h = c <;> simp [dropHead?, hc, ih, eq_comm]

theorem dropTail?_append : dropTail? tail (cs ++ tail) = some cs := by
  simp [dropTail?, dropHead?_append]

theorem dropTail?_eq_some : dropTail? tail cs = some rest ↔ cs = rest ++ tail := by
  simp only [dropTail?, Option.map_eq_some_iff, dropHead?_eq_some]
  constructor
  · rintro ⟨before, h, rfl⟩
    simpa using congrArg List.reverse h
  · rintro rfl
    exact ⟨rest.reverse, by simp, by simp⟩

/-- A text with another last character does not end in `[c]`. -/
theorem dropTail?_eq_none (h : cs.getLast? ≠ some c) : dropTail? [c] cs = none := by
  refine Option.eq_none_iff_forall_ne_some.mpr fun rest hrest => h ?_
  simp [dropTail?_eq_some.mp hrest]

-- ---------------------------------------------------------------------------
-- Blanks at the ends
-- ---------------------------------------------------------------------------

variable {p : Char → Bool}

theorem dropEndWhile_append (h : ∀ c ∈ tail, p c = true) :
    dropEndWhile p (cs ++ tail) = dropEndWhile p cs := by
  have hdrop : tail.reverse.dropWhile p = [] := List.dropWhile_eq_nil_iff.mpr (by simpa using h)
  rw [dropEndWhile, List.reverse_append, List.dropWhile_append, hdrop]
  rfl

theorem stripWhile_cons (h : p c = true) : stripWhile p (c :: cs) = stripWhile p cs := by
  rw [stripWhile, List.dropWhile_cons_of_pos h, stripWhile]

/-- What satisfies `p` at the ends does not count. -/
theorem stripWhile_append (h : ∀ c ∈ tail, p c = true) :
    stripWhile p (cs ++ tail) = stripWhile p cs := by
  simp only [stripWhile, List.dropWhile_append]
  split
  · rename_i hnil
    rw [List.dropWhile_eq_nil_iff.mpr h, List.isEmpty_iff.mp hnil]
  · exact dropEndWhile_append h

theorem dropEndWhile_of_last (h : ∀ c ∈ cs.getLast?, p c = false) : dropEndWhile p cs = cs := by
  have hdrop : cs.reverse.dropWhile p = cs.reverse := by
    cases hr : cs.reverse with
    | nil => rfl
    | cons c rest =>
      have hlast : cs.getLast? = some c := by rw [List.getLast?_eq_head?_reverse, hr]; rfl
      exact List.dropWhile_cons_of_neg (by simp [h c hlast])
  rw [dropEndWhile, hdrop, List.reverse_reverse]

theorem last_stripWhile : ∀ c ∈ (stripWhile p cs).getLast?, p c = false := by
  intro c hc
  rw [stripWhile, dropEndWhile, List.getLast?_reverse] at hc
  have := List.head?_dropWhile_not p (cs.dropWhile p).reverse
  rw [Option.mem_def.mp hc] at this
  simpa using this

theorem dropEndWhile_isPrefix (p : Char → Bool) (cs : List Char) : dropEndWhile p cs <+: cs := by
  have := List.reverse_prefix.mpr (List.dropWhile_suffix p (l := cs.reverse))
  rwa [List.reverse_reverse] at this

theorem stripWhile_infix (p : Char → Bool) (cs : List Char) : stripWhile p cs <:+: cs :=
  (dropEndWhile_isPrefix p _).isInfix.trans (List.dropWhile_suffix p).isInfix

theorem head_stripWhile : ∀ c ∈ (stripWhile p cs).head?, p c = false := by
  intro c hc
  obtain ⟨rest, hrest⟩ := dropEndWhile_isPrefix p (cs.dropWhile p)
  have hfirst : (dropEndWhile p (cs.dropWhile p)).head? = some c := hc
  have hhead : (cs.dropWhile p).head? = some c := by
    rw [← hrest, List.head?_append, hfirst]
    rfl
  have := List.head?_dropWhile_not p cs
  rw [hhead] at this
  simpa using this

/-- A text that neither begins nor ends in such characters stays as it is. -/
theorem stripWhile_of_ends (hhead : ∀ c ∈ cs.head?, p c = false)
    (hlast : ∀ c ∈ cs.getLast?, p c = false) : stripWhile p cs = cs := by
  have hdrop : cs.dropWhile p = cs := by
    cases cs with
    | nil => rfl
    | cons c cs => exact List.dropWhile_cons_of_neg (by simp [hhead c rfl])
  rw [stripWhile, hdrop, dropEndWhile_of_last hlast]

-- ---------------------------------------------------------------------------
-- Pieces
-- ---------------------------------------------------------------------------

theorem pieces_of_none (h : ∀ c ∈ cs, p c = false) : pieces p cs = [cs] := by
  induction cs with
  | nil => rfl
  | cons c cs ih =>
    rw [pieces, ih fun d hd => h d (List.mem_cons_of_mem _ hd)]
    simp [h c List.mem_cons_self]

theorem pieces_ne_nil : pieces p cs ≠ [] := by
  cases cs with
  | nil => simp [pieces]
  | cons c cs =>
    rw [pieces]
    split
    · simp
    · split <;> simp

theorem not_mem_of_mem_pieces (h : piece ∈ pieces p cs) (hc : p c = true) : c ∉ piece := by
  induction cs generalizing piece with
  | nil =>
    obtain rfl := List.mem_singleton.mp h
    simp
  | cons d cs ih =>
    rw [pieces] at h
    split at h
    · exact absurd ‹_› pieces_ne_nil
    · rename_i first rest heq
      rw [heq] at ih
      split at h
      · rcases List.mem_cons.mp h with rfl | h
        · simp
        · exact ih h
      · rename_i hd
        rcases List.mem_cons.mp h with rfl | h
        · have hne : c ≠ d := fun heq => hd (heq ▸ hc)
          simpa [hne] using ih List.mem_cons_self
        · exact ih (List.mem_cons_of_mem _ h)

/-- A text is cut at a separator whatever stands around it. -/
theorem pieces_append_cons {p : Char → Bool} (hsep : p sep = true) (front back : List Char) :
    pieces p (front ++ sep :: back) = pieces p front ++ pieces p back := by
  induction front with
  | nil =>
    obtain ⟨first, rest, hback⟩ := List.exists_cons_of_ne_nil (pieces_ne_nil : pieces p back ≠ [])
    simp [pieces, hsep, hback]
  | cons c front ih =>
    obtain ⟨first, rest, hfront⟩ := List.exists_cons_of_ne_nil (pieces_ne_nil : pieces p front ≠ [])
    simp only [List.cons_append, pieces, ih, hfront]
    split <;> rfl

theorem pieces_append (h : ∀ c ∈ cs, p c = false) (hsep : p sep = true) :
    pieces p (cs ++ sep :: rest) = cs :: pieces p rest := by
  rw [pieces_append_cons hsep, pieces_of_none h, List.singleton_append]

/-- Lines with their separator behind them are cut again, with an empty piece at the end. -/
theorem splitAt_flatMap {sep : Char} {lines : List (List Char)} (h : ∀ l ∈ lines, sep ∉ l) :
    splitAt sep (lines.flatMap (· ++ [sep])) = lines ++ [[]] := by
  induction lines with
  | nil => rfl
  | cons l lines ih =>
    have hl : ∀ c ∈ l, decide (c = sep) = false := by
      intro c hc
      have := h l List.mem_cons_self
      simpa using fun heq : c = sep => this (heq ▸ hc)
    rw [splitAt] at ih ⊢
    rw [List.flatMap_cons, List.append_assoc, List.singleton_append, pieces_append hl (by simp),
      ih fun l' hl' => h l' (List.mem_cons_of_mem _ hl')]
    rfl

theorem mem_intercalate {join : List α} (h : c ∈ join.intercalate items) :
    c ∈ join ∨ ∃ item ∈ items, c ∈ item := by
  induction items with
  | nil => cases h
  | cons item rest ih =>
    cases rest with
    | nil => exact .inr ⟨item, List.mem_cons_self, by simpa using h⟩
    | cons next rest =>
      rw [List.intercalate_cons_cons, List.append_assoc, List.mem_append, List.mem_append] at h
      rcases h with h | h | h
      · exact .inr ⟨item, List.mem_cons_self, h⟩
      · exact .inl h
      · exact (ih h).imp_right fun ⟨i, hi, hc⟩ => ⟨i, List.mem_cons_of_mem _ hi, hc⟩

/-- Texts without the separator are found again between separators. -/
theorem splitAt_intercalate {sep : Char} {texts : List (List Char)} (hne : texts ≠ [])
    (h : ∀ text ∈ texts, sep ∉ text) : splitAt sep ([sep].intercalate texts) = texts := by
  induction texts with
  | nil => exact absurd rfl hne
  | cons text rest ih =>
    have htext : ∀ c ∈ text, decide (c = sep) = false := fun c hc =>
      decide_eq_false fun heq => h text List.mem_cons_self (heq ▸ hc)
    rw [splitAt] at ih ⊢
    cases rest with
    | nil => rw [List.intercalate_singleton, pieces_of_none htext]
    | cons next rest =>
      rw [List.intercalate_cons_cons, List.append_assoc, List.singleton_append,
        pieces_append htext (decide_eq_true rfl),
        ih (List.cons_ne_nil _ _) fun other hother => h other (List.mem_cons_of_mem _ hother)]

theorem breakAt?_append (h : ∀ c ∈ cs, p c = false) (hc : p c = true) :
    breakAt? p (cs ++ c :: rest) = some (cs, rest) := by
  induction cs with
  | nil => simp [breakAt?, hc]
  | cons d cs ih =>
    rw [List.cons_append, breakAt?, ih fun e he => h e (List.mem_cons_of_mem _ he)]
    simp [h d List.mem_cons_self]

-- ---------------------------------------------------------------------------
-- Characters
-- ---------------------------------------------------------------------------

theorem toLower_eq (s : String) : s.toLower = String.ofList (s.toList.map Char.toLower) := by
  have hmap : s.toLower = s.map Char.toLower := rfl
  apply String.toList_injective
  simp [hmap]

theorem toUpper_eq (s : String) : s.toUpper = String.ofList (s.toList.map Char.toUpper) := by
  have hmap : s.toUpper = s.map Char.toUpper := rfl
  apply String.toList_injective
  simp [hmap]

/-- A fact about the characters of a closed text is decided one character after the other. -/
theorem forall_chars {p : Char → Prop} [DecidablePred p] {cs : List Char}
    (h : cs.all (fun c => decide (p c)) = true) : ∀ c ∈ cs, p c := by
  simpa using h

/-- The code points of all blanks. -/
def blankPoints : List Nat :=
  [0x9, 0xA, 0xB, 0xC, 0xD, 0x20, 0x85, 0xA0, 0x1680, 0x2000, 0x2001, 0x2002, 0x2003, 0x2004, 0x2005,
    0x2006, 0x2007, 0x2008, 0x2009, 0x200A, 0x2028, 0x2029, 0x202F, 0x205F, 0x3000]

theorem mem_blankPoints (h : isBlank c = true) : c.toNat ∈ blankPoints := by
  simp only [isBlank, Bool.or_eq_true, Bool.and_eq_true, decide_eq_true_eq, beq_iff_eq] at h
  simp only [blankPoints, List.mem_cons, List.not_mem_nil, or_false]
  omega

/-- What is true of no blank tells a character from them. -/
theorem isBlank_eq_false {p : Char → Prop} (hall : ∀ n ∈ blankPoints, ¬p (Char.ofNat n)) (h : p c) :
    isBlank c = false := by
  refine Bool.eq_false_iff.mpr fun hblank => ?_
  have hnone := hall c.toNat (mem_blankPoints hblank)
  rw [Char.ofNat_toNat] at hnone
  exact hnone h

theorem isBlank_of_isAlphanumeric (h : isAlphanumeric c = true) : isBlank c = false :=
  isBlank_eq_false (p := fun c => isAlphanumeric c = true) (by decide +kernel) h

theorem intercalate_cons_flatMap {sep : Char} {cs : List Char} {more : List (List Char)} :
    [sep].intercalate (cs :: more) = cs ++ more.flatMap (sep :: ·) := by
  induction more generalizing cs with
  | nil => simp
  | cons next more ih => rw [List.intercalate_cons_cons, ih]; simp

/-- The pieces with the separators between them are the text. -/
theorem intercalate_splitAt (sep : Char) (cs : List Char) : [sep].intercalate (splitAt sep cs) = cs := by
  rw [splitAt]
  induction cs with
  | nil => rfl
  | cons c cs ih =>
    obtain ⟨first, more, hcs⟩ := List.exists_cons_of_ne_nil (pieces_ne_nil : pieces (· = sep) cs ≠ [])
    rw [hcs, intercalate_cons_flatMap] at ih
    rw [pieces, hcs]
    dsimp only
    split
    · rename_i hc
      obtain rfl := of_decide_eq_true hc
      rw [intercalate_cons_flatMap, List.flatMap_cons, List.cons_append, List.nil_append, ih]
    · rw [intercalate_cons_flatMap, List.cons_append, ih]

/-- A piece stands behind those before it and their separators. -/
theorem intercalate_at {sep : Char} {pieces : List (List Char)} (h : pieces[i]? = some piece) :
    ∃ behind, [sep].intercalate pieces = (pieces.take i).flatMap (· ++ [sep]) ++ piece ++ behind := by
  induction pieces generalizing i with
  | nil => cases h
  | cons first pieces ih =>
    cases i with
    | zero =>
      obtain rfl : first = piece := Option.some.inj h
      exact ⟨_, intercalate_cons_flatMap⟩
    | succ i =>
      obtain ⟨behind, hbehind⟩ := ih h
      cases pieces with
      | nil => cases h
      | cons second more => exact ⟨behind, by rw [List.intercalate_cons_cons, hbehind]; simp⟩

-- ---------------------------------------------------------------------------
-- Bytes
-- ---------------------------------------------------------------------------

theorem dropBytes_append (front cs : List Char) : dropBytes (byteLength front) (front ++ cs) = cs := by
  induction front with
  | nil => cases cs <;> rfl
  | cons c front ih =>
    have hpos : byteLength (c :: front) ≠ 0 := by
      have := c.utf8Size_pos
      rw [byteLength]
      omega
    rw [List.cons_append, dropBytes, if_neg hpos, byteLength, Nat.add_sub_cancel_left, ih]

theorem takeBytes_append (h : n ≤ byteLength cs) : takeBytes n (cs ++ rest) = takeBytes n cs := by
  induction cs generalizing n with
  | nil =>
    obtain rfl : n = 0 := Nat.le_zero.mp h
    cases rest <;> rfl
  | cons c cs ih =>
    rw [byteLength] at h
    rw [List.cons_append, takeBytes, takeBytes, ih (Nat.sub_le_of_le_add (Nat.add_comm _ _ ▸ h))]

theorem takeBytes_length (cs : List Char) : takeBytes (byteLength cs) cs = cs := by
  induction cs with
  | nil => rfl
  | cons c cs ih =>
    have hpos : byteLength (c :: cs) ≠ 0 := by
      have := c.utf8Size_pos
      rw [byteLength]
      omega
    rw [takeBytes, if_neg hpos, byteLength, Nat.add_sub_cancel_left, ih]

/-- The slice where characters stand. -/
theorem slice_append (front cs back : List Char) :
    slice (byteLength front) (byteLength (front ++ cs)) (front ++ cs ++ back) = cs := by
  rw [slice, byteLength_append, Nat.add_sub_cancel_left, List.append_assoc, dropBytes_append,
    takeBytes_append (Nat.le_refl _), takeBytes_length]

/-- A slice of a text is found in a longer one, so many bytes further on. -/
theorem slice_inside (front back : List Char) {before behind : List Char}
    (h : stop ≤ byteLength (before ++ behind)) :
    slice (byteLength front + byteLength before) (byteLength front + stop)
        (front ++ (before ++ behind) ++ back) =
      slice (byteLength before) stop (before ++ behind) := by
  have hlong : front ++ (before ++ behind) ++ back = (front ++ before) ++ (behind ++ back) := by
    simp only [List.append_assoc]
  rw [byteLength_append] at h
  rw [slice, slice, dropBytes_append, hlong, ← byteLength_append, dropBytes_append, byteLength_append,
    Nat.add_sub_add_left, takeBytes_append (Nat.sub_le_of_le_add (Nat.add_comm _ _ ▸ h))]

-- ---------------------------------------------------------------------------
-- Lines
-- ---------------------------------------------------------------------------

theorem toList_ofLines (lines : List String) : (ofLines lines).toList = lines.flatMap (·.toList ++ ['\n']) := by
  simp [ofLines, String.toList_join, List.flatMap_map]

-- ---------------------------------------------------------------------------
-- Tiles
-- ---------------------------------------------------------------------------

/-- Every tile is cut from what the text has left. -/
theorem mem_tiles {cutOne : Char → List Char → α × Nat} (h : tile ∈ tiles cutOne cs) :
    ∃ c rest, c :: rest <:+ cs ∧ tile = ((cutOne c rest).1, c :: rest.take (cutOne c rest).2) := by
  induction cs using tiles_induction cutOne with
  | nil => simp [tiles] at h
  | cons c cs ih =>
    rw [tiles_cons] at h
    rcases List.mem_cons.mp h with rfl | h
    · exact ⟨c, cs, List.suffix_rfl, rfl⟩
    · obtain ⟨d, rest, hsuffix, htile⟩ := ih h
      exact ⟨d, rest, hsuffix.trans ((List.drop_suffix _ _).trans (List.suffix_cons _ _)), htile⟩

end SchemaDialects.Text
