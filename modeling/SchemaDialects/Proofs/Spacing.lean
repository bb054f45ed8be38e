import Mathlib.Data.List.Chain
import SchemaDialects.Proofs.TextLaws

/-!
# Single spaces

Collapsing the blanks of a text is trimming it and making every run of blanks one space (`collapseBlanks_eq`). The
second step works on every part of a text by itself if no blank stands where the parts meet (`squeeze_append`), and
leaves a text alone whose blanks are single spaces already (`squeeze_of_spaced`).
-/

namespace SchemaDialects.Text

/-- Makes every run of blanks one space. -/
def squeeze : List Char → List Char
  | [] => []
  | c :: cs =>
    if isBlank c then if cs.head?.any isBlank then squeeze cs else ' ' :: squeeze cs else c :: squeeze cs

/-- Every blank is a single space. -/
structure Spaced (cs : List Char) : Prop where
  spaces : ∀ c ∈ cs, isBlank c = true → c = ' '
  single : cs.IsChain fun a b => ¬(isBlank a = true ∧ isBlank b = true)

/-- No blank stands at an end of the text. -/
structure Ended (cs : List Char) : Prop where
  head : ∀ c ∈ cs.head?, isBlank c = false
  last : ∀ c ∈ cs.getLast?, isBlank c = false

theorem ended_stripWhile (cs : List Char) : Ended (stripWhile isBlank cs) := ⟨head_stripWhile, last_stripWhile⟩

theorem Ended.strip (h : Ended cs) : stripWhile isBlank cs = cs := stripWhile_of_ends h.head h.last

-- ---------------------------------------------------------------------------
-- One space for a run of blanks
-- ---------------------------------------------------------------------------

theorem squeeze_cons (h : isBlank c = false) (cs : List Char) : squeeze (c :: cs) = c :: squeeze cs := by
  rw [squeeze, if_neg (by simp [h])]

/-- The parts in front of a character that is no blank and behind it are squeezed by themselves. -/
theorem squeeze_append (h : isBlank c = false) (front back : List Char) :
    squeeze (front ++ c :: back) = squeeze front ++ c :: squeeze back := by
  induction front with
  | nil => exact squeeze_cons h back
  | cons d front ih =>
    have hhead : ((front ++ c :: back).head?.any isBlank) = front.head?.any isBlank := by
      cases front <;> simp [h]
    simp only [List.cons_append, squeeze, hhead, ih]
    split
    · split <;> rfl
    · rfl

theorem squeeze_word (h : ∀ c ∈ word, isBlank c = false) (cs : List Char) :
    squeeze (word ++ cs) = word ++ squeeze cs := by
  induction word with
  | nil => rfl
  | cons c word ih =>
    obtain ⟨hc, hword⟩ := List.forall_mem_cons.mp h
    rw [List.cons_append, squeeze_cons hc, ih hword, List.cons_append]

theorem squeeze_of_spaced (h : Spaced cs) : squeeze cs = cs := by
  obtain ⟨hspaces, hsingle⟩ := h
  induction cs with
  | nil => rfl
  | cons c cs ih =>
    obtain ⟨hc, hcs⟩ := List.forall_mem_cons.mp hspaces
    obtain ⟨hhead, hsingle⟩ := List.isChain_cons.mp hsingle
    rw [squeeze, ih hcs hsingle]
    split
    · rename_i hblank
      have hnext : cs.head?.any isBlank = false := by
        cases hnext : cs.head? with
        | none => rfl
        | some d => simpa [hblank] using hhead d hnext
      rw [if_neg (by simp [hnext]), hc hblank]
    · rfl

/-- A run of blanks in front becomes one space. -/
theorem squeeze_blanks (h : isBlank c = true) (cs : List Char) :
    squeeze (c :: cs) = ' ' :: squeeze (cs.dropWhile isBlank) := by
  induction cs generalizing c with
  | nil => simp [squeeze, h]
  | cons d cs ih =>
    rw [squeeze, if_pos h]
    by_cases hd : isBlank d = true
    · rw [if_pos (by simpa using hd), ih hd, List.dropWhile_cons_of_pos hd]
    · rw [if_neg (by simpa using hd), List.dropWhile_cons_of_neg hd]

theorem mem_squeeze (h : c ∈ squeeze cs) : c = ' ' ∨ c ∈ cs ∧ isBlank c = false := by
  induction cs with
  | nil => cases h
  | cons d cs ih =>
    have hlater : c ∈ squeeze cs → c = ' ' ∨ c ∈ d :: cs ∧ isBlank c = false := fun hc =>
      (ih hc).imp_right fun ⟨hmem, hblank⟩ => ⟨List.mem_cons_of_mem _ hmem, hblank⟩
    rw [squeeze] at h
    split at h
    · split at h
      · exact hlater h
      · exact (List.mem_cons.mp h).elim .inl hlater
    · rename_i hblank
      rcases List.mem_cons.mp h with rfl | h
      · exact .inr ⟨List.mem_cons_self, by simpa using hblank⟩
      · exact hlater h

theorem head_squeeze (h : ∀ c ∈ cs.head?, isBlank c = false) : ∀ c ∈ (squeeze cs).head?, isBlank c = false := by
  cases cs with
  | nil => exact h
  | cons c cs =>
    have hc := h c rfl
    rw [squeeze_cons hc]
    simpa using hc

theorem spaced_squeeze (cs : List Char) : Spaced (squeeze cs) where
  spaces c hc hblank := (mem_squeeze hc).elim id fun h => absurd hblank (by simp [h.2])
  single := by
    induction cs with
    | nil => exact .nil
    | cons c cs ih =>
      by_cases hc : isBlank c = true
      · rw [squeeze, if_pos hc]
        split
        · exact ih
        · rename_i hnext
          refine ih.cons fun d hd => ?_
          have hhead : ∀ d ∈ cs.head?, isBlank d = false := fun d hd => by
            rw [Option.mem_def.mp hd] at hnext
            simpa using hnext
          simp [head_squeeze hhead d hd]
      · rw [squeeze_cons (by simpa using hc)]
        exact ih.cons fun d _ => by simp [hc]

theorem ended_squeeze (h : Ended cs) : Ended (squeeze cs) where
  head := head_squeeze h.head
  last := by
    rcases List.eq_nil_or_concat' cs with rfl | ⟨front, c, rfl⟩
    · simp [squeeze]
    · have hc : isBlank c = false := h.last c (by simp)
      rw [squeeze_append hc]
      simpa [squeeze] using hc

-- ---------------------------------------------------------------------------
-- Parts
-- ---------------------------------------------------------------------------

theorem spaced_append (h : Spaced cs) (hlast : ∀ c ∈ cs.getLast?, isBlank c = false) (hds : Spaced ds) :
    Spaced (cs ++ ds) where
  spaces c hc := (List.mem_append.mp hc).elim (h.spaces c) (hds.spaces c)
  single := List.isChain_append.mpr ⟨h.single, hds.single, fun c hc _ _ hpair => by simp [hlast c hc] at hpair⟩

theorem spaced_part (h : ds <:+: cs) (hspaced : Spaced cs) : Spaced ds :=
  ⟨fun c hc => hspaced.spaces c (h.subset hc), List.IsChain.infix hspaced.single h⟩

/-- A single space in a text stands behind something else. -/
theorem ended_of_blank (hspaced : Spaced (cs ++ b :: ds)) (h : Ended (cs ++ b :: ds)) (hb : isBlank b = true) :
    Ended cs ∧ cs ≠ [] := by
  refine ⟨⟨fun c hc => h.head c ?_, fun c hc => Bool.eq_false_iff.mpr fun hblank => ?_⟩, ?_⟩
  · rw [List.head?_append, Option.mem_def.mp hc]
    rfl
  · exact (List.isChain_append.mp hspaced.single).2.2 c hc b rfl ⟨hblank, hb⟩
  · rintro rfl
    simp [h.head b rfl] at hb

theorem dropWhile_append_cons {p : Char → Bool} (h : p c = false) (front back : List Char) :
    (front ++ c :: back).dropWhile p = front.dropWhile p ++ c :: back := by
  rw [List.dropWhile_append]
  split
  · rename_i hnil
    rw [List.isEmpty_iff.mp hnil, List.nil_append, List.dropWhile_cons_of_neg (by simp [h])]
  · rfl

/-- In front of a character that stays and behind it, a text is trimmed by itself. -/
theorem stripWhile_append_cons {p : Char → Bool} (h : p c = false) (front back : List Char) :
    stripWhile p (front ++ c :: back) = front.dropWhile p ++ c :: dropEndWhile p back := by
  rw [stripWhile, dropWhile_append_cons h, dropEndWhile, dropEndWhile, List.reverse_append, List.reverse_cons,
    List.append_assoc, List.singleton_append, dropWhile_append_cons h]
  simp

theorem ended_append (h : Ended cs) (hlast : ∀ d ∈ ds.getLast?, isBlank d = false)
    (hnil : cs = [] → ∀ d ∈ ds.head?, isBlank d = false) : Ended (cs ++ ds) where
  head c hc := by
    cases cs with
    | nil => exact hnil rfl c hc
    | cons b cs => exact h.head c hc
  last c hc := by
    rw [List.getLast?_append] at hc
    cases hd : ds.getLast? with
    | none => exact h.last c (by simpa [hd] using hc)
    | some d =>
      obtain rfl : d = c := by simpa [hd] using hc
      exact hlast d hd

-- ---------------------------------------------------------------------------
-- Words
-- ---------------------------------------------------------------------------

theorem runs_append (h : isBlank c = true) (front back : List Char) :
    runs isBlank (front ++ c :: back) = runs isBlank front ++ runs isBlank back := by
  rw [runs, pieces_append_cons h, List.filter_append]
  rfl

theorem runs_cons (h : isBlank c = true) (cs : List Char) : runs isBlank (c :: cs) = runs isBlank cs :=
  runs_append h [] cs

theorem runs_word (hne : word ≠ []) (h : ∀ c ∈ word, isBlank c = false) : runs isBlank word = [word] := by
  rw [runs, pieces_of_none h, List.filter_cons_of_pos (by simpa using hne)]
  rfl

theorem runs_dropWhile (cs : List Char) : runs isBlank (cs.dropWhile isBlank) = runs isBlank cs := by
  induction cs with
  | nil => rfl
  | cons c cs ih =>
    by_cases hc : isBlank c = true
    · rw [List.dropWhile_cons_of_pos hc, ih, runs_cons hc]
    · rw [List.dropWhile_cons_of_neg hc]

theorem runs_of_blanks (h : ∀ c ∈ cs, isBlank c = true) : runs isBlank cs = [] := by
  rw [← runs_dropWhile, List.dropWhile_eq_nil_iff.mpr h]
  rfl

theorem runs_dropEndWhile (cs : List Char) : runs isBlank (dropEndWhile isBlank cs) = runs isBlank cs := by
  have hparts : cs = dropEndWhile isBlank cs ++ (cs.reverse.takeWhile isBlank).reverse := by
    rw [dropEndWhile, ← List.reverse_append, List.takeWhile_append_dropWhile, List.reverse_reverse]
  have hblanks : ∀ c ∈ (cs.reverse.takeWhile isBlank).reverse, isBlank c = true := fun c hc =>
    List.mem_takeWhile_imp (List.mem_reverse.mp hc)
  generalize (cs.reverse.takeWhile isBlank).reverse = blanks at hparts hblanks
  conv_rhs => rw [hparts]
  cases blanks with
  | nil => rw [List.append_nil]
  | cons c blanks =>
    obtain ⟨hc, hblanks⟩ := List.forall_mem_cons.mp hblanks
    rw [runs_append hc, runs_of_blanks hblanks, List.append_nil]

theorem runs_stripWhile (cs : List Char) : runs isBlank (stripWhile isBlank cs) = runs isBlank cs := by
  rw [stripWhile, runs_dropEndWhile, runs_dropWhile]

/-- Behind the first word of a text without blanks at its ends there are blanks and another such text. -/
theorem ended_cons (h : Ended (word ++ b :: rest)) (hb : isBlank b = true) :
    word ≠ [] ∧ rest.dropWhile isBlank ≠ [] ∧ Ended (rest.dropWhile isBlank) := by
  have hmore : rest.dropWhile isBlank ≠ [] := fun hnil => by
    have hblanks : ∀ c ∈ b :: rest, isBlank c = true := by simpa [hb] using List.dropWhile_eq_nil_iff.mp hnil
    obtain ⟨c, hc⟩ : ∃ c, (b :: rest).getLast? = some c := ⟨_, List.getLast?_cons⟩
    have hlast := h.last c (by simp [List.getLast?_append, hc])
    rw [hblanks c (List.mem_of_getLast? hc)] at hlast
    cases hlast
  refine ⟨?_, hmore, ⟨fun c hc => ?_, fun c hc => h.last c ?_⟩⟩
  · rintro rfl
    have hhead := h.head b rfl
    rw [hb] at hhead
    cases hhead
  · have := List.head?_dropWhile_not isBlank rest
    rw [Option.mem_def.mp hc] at this
    simpa using this
  · have hparts : word ++ b :: rest = word ++ b :: rest.takeWhile isBlank ++ rest.dropWhile isBlank := by simp
    rw [hparts, List.getLast?_append, Option.mem_def.mp hc]
    rfl

/-- By recursion over the words of a text without blanks at its ends. -/
theorem collapseBlanks_of_ended (h : Ended cs) : collapseBlanks cs = squeeze cs := by
  induction hn : cs.length using Nat.strongRecOn generalizing cs with
  | ind n ih =>
    have hword : ∀ c ∈ cs.takeWhile (!isBlank ·), isBlank c = false := fun c hc => by
      simpa using List.mem_takeWhile_imp hc
    have hparts := List.takeWhile_append_dropWhile (p := (!isBlank ·)) (l := cs)
    have hblank := List.head?_dropWhile_not (!isBlank ·) cs
    generalize cs.takeWhile (!isBlank ·) = word at hword hparts
    generalize cs.dropWhile (!isBlank ·) = rest at hparts hblank
    subst hparts
    cases rest with
    | nil =>
      rw [squeeze_word hword, List.append_nil]
      by_cases hne : word = []
      · subst hne
        rfl
      · rw [collapseBlanks, runs_word hne hword, List.intercalate_singleton]
        simp [squeeze]
    | cons b rest =>
      have hb : isBlank b = true := by simpa using hblank
      obtain ⟨hne, hmore, hended⟩ := ended_cons h hb
      have hshort : (rest.dropWhile isBlank).length < n := by
        have := (List.dropWhile_suffix isBlank (l := rest)).length_le
        simp only [List.length_append, List.length_cons] at hn
        omega
      have htail := ih _ hshort hended rfl
      rw [squeeze_word hword, squeeze_blanks hb, ← htail, collapseBlanks, runs_append hb, runs_word hne hword,
        ← runs_dropWhile rest, collapseBlanks]
      have hwords : runs isBlank (rest.dropWhile isBlank) ≠ [] := fun hnil => by
        obtain ⟨c, more, heq⟩ := List.exists_cons_of_ne_nil hmore
        rw [collapseBlanks, hnil, heq, squeeze_cons (hended.head c (by rw [heq]; rfl))] at htail
        cases htail
      obtain ⟨next, words, hwords⟩ := List.exists_cons_of_ne_nil hwords
      rw [hwords, List.singleton_append, List.intercalate_cons_cons]
      simp

/-- Collapsing is trimming and squeezing. -/
theorem collapseBlanks_eq (cs : List Char) : collapseBlanks cs = squeeze (stripWhile isBlank cs) := by
  rw [← collapseBlanks_of_ended (ended_stripWhile cs), collapseBlanks, collapseBlanks, runs_stripWhile]

theorem spaced_collapseBlanks (cs : List Char) : Spaced (collapseBlanks cs) :=
  collapseBlanks_eq cs ▸ spaced_squeeze _

theorem ended_collapseBlanks (cs : List Char) : Ended (collapseBlanks cs) :=
  collapseBlanks_eq cs ▸ ended_squeeze (ended_stripWhile cs)

theorem collapseBlanks_of_spaced (h : Spaced cs) (hends : Ended cs) : collapseBlanks cs = cs := by
  rw [collapseBlanks_eq, hends.strip, squeeze_of_spaced h]

end SchemaDialects.Text
