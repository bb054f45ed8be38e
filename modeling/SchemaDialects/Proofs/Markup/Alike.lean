import SchemaDialects.Markup.Reader
import SchemaDialects.Proofs.Markup.LineLaws

/-!
# Lines that say the same

What is on a line does not depend on where the line stands (`sentence_readLine`), and lines that say the same
are read as the same attribute up to positions (`alike_read`). So the lines of a text are those of its parts
(`sentences_append`).
-/

namespace SchemaDialects.Markup

open Text

-- ---------------------------------------------------------------------------
-- What is on a line
-- ---------------------------------------------------------------------------

/-- What the line says, without the places. -/
def Line.sentence (l : Line) : Sentence where
  indent := l.indent
  words := l.words.map (·.text)
  note := l.note.map (·.text)
  comment := l.comment.map (·.text)

/-- What the lines of a text say. -/
def sentences (text : String) : List Sentence := (readLines text).1.map Line.sentence

theorem sentence_assemble (place place' : Place) (pieces : List (Piece × List Char)) :
    (assemble place pieces).1.sentence = (assemble place' pieces).1.sentence := by
  induction pieces generalizing place place' with
  | nil => rfl
  | cons p rest ih =>
    obtain ⟨piece, chars⟩ := p
    have ih := ih (place.afterAll chars) (place'.afterAll chars)
    rw [assemble, assemble]
    generalize assemble (place.afterAll chars) rest = read at ih ⊢
    generalize assemble (place'.afterAll chars) rest = read' at ih ⊢
    obtain ⟨line, problems⟩ := read
    obtain ⟨line', problems'⟩ := read'
    obtain ⟨hindent, hwords, hnote, hcomment⟩ := Sentence.mk.inj ih
    dsimp only at hindent hwords hnote hcomment ⊢
    cases piece <;> cases chars <;>
      simp [Line.sentence, hindent, hwords, hnote, hcomment, Word.between, Word.trimmed]

theorem sentence_readLine (place place' : Place) (chars : List Char) :
    (readLine place chars).1.sentence = (readLine place' chars).1.sentence := by
  obtain ⟨-, hwords, hnote, hcomment⟩ := Sentence.mk.inj
    (sentence_assemble place place' (tiles cut ((dropTail? ['\r'] chars).getD chars)))
  simp only [readLine, Line.sentence]
  rw [hwords, hnote, hcomment]

theorem sentences_readLinesFrom (place : Place) (lines : List (List Char)) :
    (readLinesFrom place lines).1.map Line.sentence = lines.map fun chars => (readLine {} chars).1.sentence := by
  induction lines generalizing place with
  | nil => rfl
  | cons chars rest ih =>
    simp only [readLinesFrom, List.map_cons, ih, sentence_readLine place {} chars]

/-- The lines of two texts with a line feed between them are those of both. -/
theorem sentences_append (front back : String) :
    sentences (front ++ "\n" ++ back) = sentences front ++ sentences back := by
  have htext : (front ++ "\n" ++ back).toList = front.toList ++ '\n' :: back.toList := by simp
  rw [sentences, sentences, sentences, readLines, readLines, readLines, sentences_readLinesFrom,
    sentences_readLinesFrom, sentences_readLinesFrom, htext, Text.splitAt, pieces_append_cons (by simp), List.map_append]
  rfl

-- ---------------------------------------------------------------------------
-- Attribute lines
-- ---------------------------------------------------------------------------

/-- The same attribute, with references to the same places. -/
structure AttributeLine.Alike (l l' : AttributeLine) : Prop where
  attr : l.attr = l'.attr
  key : l.key = l'.key
  indexes : l.indexes = l'.indexes
  checks : l.checks = l'.checks
  references : l.references.map (fun r => (r.cardinalities, r.target)) =
    l'.references.map fun r => (r.cardinalities, r.target)

/-- Both lines are attributes, which are alike, or neither of them is one. -/
def ReadAlike : (Except (Problem × Position) AttributeLine) → Except (Problem × Position) AttributeLine → Prop
  | .ok l, .ok l' => l.Alike l'
  | .error _, .error _ => True
  | _, _ => False

namespace AttributeLine

theorem Alike.apply (h : Alike l l') (m : Modifier) : (l.apply m).Alike (l'.apply m) := by
  obtain ⟨hattr, hkey, hindexes, hchecks, hreferences⟩ := h
  cases m <;> constructor <;> simp_all [AttributeLine.apply]

theorem alike_applyAll (space : Namespace) {words words' : List Word} (h : Alike l l')
    (hwords : words.map (·.text) = words'.map (·.text)) :
    ReadAlike (l.applyAll space words) (l'.applyAll space words') := by
  induction l, words using applyAll.induct space generalizing l' words' with
  | case1 l =>
    obtain rfl := List.map_eq_nil_iff.mp hwords.symm
    exact h
  | case2 l word rest hword =>
    obtain ⟨word', rest', rfl, htext, -⟩ := List.map_eq_cons_iff.mp hwords.symm
    rw [applyAll, hword, applyAll, htext, hword]
    trivial
  | case3 l word cardinalities hword =>
    obtain ⟨word', rest', rfl, htext, hrest⟩ := List.map_eq_cons_iff.mp hwords.symm
    obtain rfl := List.map_eq_nil_iff.mp hrest
    rw [applyAll, hword, applyAll, htext, hword]
    trivial
  | case4 l word cardinalities hword target rest reference =>
    rename_i ih
    obtain ⟨word', rest', rfl, htext, hrest⟩ := List.map_eq_cons_iff.mp hwords.symm
    obtain ⟨target', rest', rfl, htarget, hrest⟩ := List.map_eq_cons_iff.mp hrest
    rw [applyAll, hword, applyAll, htext, hword]
    refine ih ⟨h.attr, h.key, h.indexes, h.checks, ?_⟩ hrest.symm
    simp [h.references, reference, htarget]
  | case5 l word rest m hplain hword ih =>
    obtain ⟨word', rest', rfl, htext, hrest⟩ := List.map_eq_cons_iff.mp hwords.symm
    cases m with
    | reference c => exact absurd rfl (hplain c)
    | _ =>
      rw [applyAll, hword, applyAll, htext, hword]
      exact ih (h.apply _) hrest.symm

theorem commentExtra_eq {l l' : Line} (h : l.comment.map (·.text) = l'.comment.map (·.text)) :
    commentExtra l = commentExtra l' := by
  have hextra : ∀ l : Line, commentExtra l = (l.comment.map (·.text)).toList.map fun text => ("comment", .str text) := by
    intro l
    cases hcomment : l.comment <;> simp [commentExtra, hcomment]
  rw [hextra, hextra, h]

/-- Lines that say the same are read alike. -/
theorem alike_read (space : Namespace) {l l' : Line} (h : l.sentence = l'.sentence) :
    ReadAlike (AttributeLine.read space l) (AttributeLine.read space l') := by
  obtain ⟨-, hwords, hnote, hcomment⟩ := Sentence.mk.inj h
  have hnote : noteText l = noteText l' := hnote
  have hextra := commentExtra_eq hcomment
  cases hcons : l.words with
  | nil =>
    rw [hcons] at hwords
    rw [AttributeLine.read, hcons, AttributeLine.read, List.map_eq_nil_iff.mp hwords.symm]
    trivial
  | cons name rest =>
    rw [hcons] at hwords
    obtain ⟨name', rest', hcons', hname, hrest⟩ := List.map_eq_cons_iff.mp hwords.symm
    rw [AttributeLine.read, hcons, AttributeLine.read, hcons']
    cases rest with
    | nil =>
      obtain rfl := List.map_eq_nil_iff.mp hrest
      simp only [hname, hnote, hextra]
      exact ⟨rfl, rfl, rfl, rfl, rfl⟩
    | cons word more =>
      obtain ⟨word', more', rfl, hword, hmore⟩ := List.map_eq_cons_iff.mp hrest
      simp only [hname, hnote, hextra, hword]
      split
      · exact alike_applyAll space ⟨rfl, rfl, rfl, rfl, rfl⟩ hrest.symm
      · refine alike_applyAll space ⟨?_, rfl, rfl, rfl, rfl⟩ hmore.symm
        simp [withType, hword]

end AttributeLine

end SchemaDialects.Markup
