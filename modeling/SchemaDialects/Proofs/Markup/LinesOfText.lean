import SchemaDialects.Proofs.Markup.Origins
import SchemaDialects.Proofs.Markup.Spellable

/-!
# The lines of any text

What is on a line, whatever the text is (`sound_readLines`): no text on it holds a line feed, and notes and
comments have no blanks around them. The hashes of a note stand inside it, with one exception: a note can
begin with a hash that follows the bar at once.
-/

namespace SchemaDialects.Markup

open Text

-- ---------------------------------------------------------------------------
-- Blanks around a text
-- ---------------------------------------------------------------------------

theorem trim_stripped (cs : List Char) : trim (stripped cs) = stripped cs := by
  rw [trim, stripped, String.toList_ofList, stripWhile_of_ends head_stripWhile last_stripWhile]

-- ---------------------------------------------------------------------------
-- Pieces
-- ---------------------------------------------------------------------------

theorem subset_of_mem_tiles {cutOne : Char → List Char → α × Nat} (h : tile ∈ tiles cutOne cs) :
    tile.2 ⊆ cs := fun c hc => by
  rw [← flatMap_tiles cutOne cs]
  exact List.mem_flatMap.mpr ⟨tile, h, hc⟩

theorem noteLength_take (previous : Char) (cs : List Char) :
    noteLength previous (cs.take (noteLength previous cs)) = (cs.take (noteLength previous cs)).length := by
  induction cs generalizing previous with
  | nil => rfl
  | cons c cs ih =>
    rw [noteLength]
    split
    · rfl
    · rename_i hgo
      rw [List.take_succ_cons, noteLength, if_neg hgo, ih, List.length_cons]

/-- A note reaches to the end of its piece. -/
theorem noteLength_of_mem_tiles (h : (.note, mark :: content) ∈ tiles cut cs) :
    noteLength '|' content = content.length := by
  obtain ⟨c, rest, -, heq⟩ := mem_tiles h
  obtain ⟨hpiece, htext⟩ := Prod.mk.inj heq
  obtain ⟨-, rfl⟩ := List.cons.inj htext
  unfold cut at hpiece ⊢
  split at hpiece
  · cases hpiece
  · split at hpiece
    · cases hpiece
    · split at hpiece
      · rename_i hspace hhash hbar
        subst hbar
        rw [if_neg hspace, if_neg hhash, if_pos rfl]
        exact noteLength_take _ _
      · cases hpiece

/-- The hashes of a note stay inside it when the blanks around it are dropped. -/
theorem hashesInside_stripped (h : noteLength '|' content = content.length)
    (hhead : (stripped content).toList.head? ≠ some '#') : HashesInside (stripped content).toList := by
  rw [stripped, String.toList_ofList] at hhead ⊢
  intro before after heq
  obtain ⟨front, back, hcontent⟩ := stripWhile_infix isBlank content
  rw [heq] at hhead hcontent
  have hblank := hashes_of_noteLength h (front ++ before) (after ++ back) (by simp [← hcontent])
  obtain ⟨before, c, rfl⟩ : ∃ b c, before = b ++ [c] :=
    (List.eq_nil_or_concat' before).resolve_left fun hnil => hhead (by simp [hnil])
  refine ⟨c, by simp, ?_⟩
  simpa using hblank

-- ---------------------------------------------------------------------------
-- Lines
-- ---------------------------------------------------------------------------

structure SoundNote (text : String) : Prop where
  feedFree : FeedFree text
  trimmed : trim text = text
  hashes : text.toList.head? ≠ some '#' → HashesInside text.toList

/-- What is on a line can be on a line. -/
structure Line.Sound (l : Line) : Prop where
  words : ∀ w ∈ l.words, FeedFree w.text
  note : ∀ w ∈ l.note, SoundNote w.text
  comment : ∀ w ∈ l.comment, FeedFree w.text ∧ trim w.text = w.text

theorem sound_assemble {pieces : List (Piece × List Char)} (hfree : ∀ p ∈ pieces, '\n' ∉ p.2)
    (hnote : ∀ mark content, (.note, mark :: content) ∈ pieces → noteLength '|' content = content.length)
    (place : Place) : (assemble place pieces).1.Sound := by
  induction pieces generalizing place with
  | nil => constructor <;> simp [assemble]
  | cons p rest ih =>
    obtain ⟨piece, chars⟩ := p
    obtain ⟨hfirst, hfree⟩ := List.forall_mem_cons.mp hfree
    have ih := ih hfree (fun mark content h => hnote mark content (List.mem_cons_of_mem _ h))
      (place.afterAll chars)
    have hstripped : ∀ mark content, chars = mark :: content → FeedFree (stripped content) := by
      rintro mark content rfl hmem
      rw [stripped, String.toList_ofList] at hmem
      exact hfirst (List.mem_cons_of_mem _ (stripWhile_subset hmem))
    rw [assemble]
    generalize assemble (place.afterAll chars) rest = read at ih ⊢
    obtain ⟨line, problems⟩ := read
    dsimp only at ih ⊢
    split
    · refine ⟨List.forall_mem_cons.mpr ⟨?_, ih.words⟩, ih.note, ih.comment⟩
      simpa [FeedFree, Word.between] using hfirst
    · rename_i mark content
      refine ⟨ih.words, ?_, ih.comment⟩
      rintro w ⟨⟩
      exact ⟨hstripped mark content rfl, trim_stripped content,
        hashesInside_stripped (hnote mark content List.mem_cons_self)⟩
    · rename_i mark content
      refine ⟨ih.words, ih.note, ?_⟩
      rintro w ⟨⟩
      exact ⟨hstripped mark content rfl, trim_stripped content⟩
    · exact ih

theorem sound_readLine (h : '\n' ∉ chars) (place : Place) : (readLine place chars).1.Sound := by
  have hcontent : '\n' ∉ (dropTail? ['\r'] chars).getD chars := by
    cases hdrop : dropTail? ['\r'] chars with
    | none => exact h
    | some content => exact fun hmem => h (dropTail?_subset hdrop hmem)
  have hsound := sound_assemble (fun p hp hmem => hcontent (subset_of_mem_tiles hp hmem))
    (fun mark content hmem => noteLength_of_mem_tiles hmem) place
  exact ⟨hsound.words, hsound.note, hsound.comment⟩

theorem sound_readLines (text : String) : ∀ l ∈ (readLines text).1, l.Sound := by
  have hall : ∀ lines : List (List Char), (∀ chars ∈ lines, '\n' ∉ chars) → ∀ place,
      ∀ l ∈ (readLinesFrom place lines).1, l.Sound := by
    intro lines
    induction lines with
    | nil => simp [readLinesFrom]
    | cons chars rest ih =>
      intro hfree place
      obtain ⟨hfirst, hrest⟩ := List.forall_mem_cons.mp hfree
      exact List.forall_mem_cons.mpr ⟨sound_readLine hfirst place, ih hrest _⟩
  exact hall _ (fun chars hchars => not_mem_of_mem_pieces hchars (by simp)) {}

end SchemaDialects.Markup
