import SchemaDialects.Diagram.Dot

/-!
# Quoted strings in DOT

Inside quotes a backslash takes the next character with it. `cut` takes a text apart by this rule alone, `fields?` the
label of a record. An escaped text ends in neither of them before its end (`sealed_escapeIf`, `solid_escapeIf`) and is
found again by dropping the backslashes (`unescape_escapeIf`).
-/

namespace SchemaDialects.Diagram.Dot

-- ---------------------------------------------------------------------------
-- Reading quotes
-- ---------------------------------------------------------------------------

/-- A character outside quotes, or a string as it is spelled between its quotes. -/
inductive Piece
  | plain (c : Char)
  | string (spelled : List Char)
  deriving DecidableEq

/-- Where a reader is: outside quotes, or inside with what it has read of the string, perhaps behind a backslash. -/
inductive Mode
  | outside
  | inside (read : List Char)
  | escaping (read : List Char)

/-- Takes a text apart. A string that is not closed is refused. -/
def cut : Mode → List Char → Option (List Piece)
  | .outside, [] => some []
  | .inside _, [] => none
  | .escaping _, [] => none
  | .outside, c :: cs => if c = '"' then cut (.inside []) cs else (.plain c :: ·) <$> cut .outside cs
  | .inside read, c :: cs =>
    if c = '"' then (.string read :: ·) <$> cut .outside cs
    else if c = '\\' then cut (.escaping read) cs
    else cut (.inside (read ++ [c])) cs
  | .escaping read, c :: cs => cut (.inside (read ++ ['\\', c])) cs

/-- Drops the backslashes that escape something. -/
def unescape : List Char → List Char
  | [] => []
  | [c] => [c]
  | c :: d :: cs => if c = '\\' then d :: unescape cs else c :: unescape (d :: cs)

/-- The text that a string stands for. -/
def decode (spelled : List Char) : String := String.ofList (unescape spelled)

/-- What ends or opens something in the label of a record. -/
def isFieldMark (c : Char) : Bool := "\x7b\x7d|<>".toList.contains c

/-- Takes the inside of a record apart at its bars. The brace that closes it is its last character, and there is no
other brace and no angle bracket, unless behind a backslash. -/
def fieldsFrom (field : List Char) : List Char → Option (List (List Char))
  | [] => none
  | [c] => if c = '\x7d' then some [field] else none
  | c :: d :: cs =>
    if c = '\\' then fieldsFrom (field ++ [c, d]) cs
    else if c = '|' then (field :: ·) <$> fieldsFrom [] (d :: cs)
    else if isFieldMark c then none
    else fieldsFrom (field ++ [c]) (d :: cs)

/-- The fields of a record, as they are spelled. -/
def fields? : List Char → Option (List (List Char))
  | '\x7b' :: cs => fieldsFrom [] cs
  | _ => none

-- ---------------------------------------------------------------------------
-- Texts without an end
-- ---------------------------------------------------------------------------

/-- Inside quotes, all of it belongs to the string. -/
def Sealed (cs : List Char) : Prop :=
  ∀ read rest, cut (.inside read) (cs ++ rest) = cut (.inside (read ++ cs)) rest

/-- Inside a record, all of it belongs to the field. -/
def Solid (cs : List Char) : Prop :=
  ∀ field rest, rest ≠ [] → fieldsFrom field (cs ++ rest) = fieldsFrom (field ++ cs) rest

section

variable {as bs cs : List Char} {c : Char}

theorem Sealed.append (ha : Sealed as) (hb : Sealed bs) : Sealed (as ++ bs) := by
  intro read rest
  rw [List.append_assoc, ha, hb, List.append_assoc]

theorem Solid.append (ha : Solid as) (hb : Solid bs) : Solid (as ++ bs) := by
  intro field rest hrest
  rw [List.append_assoc, ha _ _ (by simp [hrest]), hb _ _ hrest, List.append_assoc]

theorem sealed_nil : Sealed [] := fun read rest => by rw [List.append_nil, List.nil_append]

theorem solid_nil : Solid [] := fun field rest _ => by rw [List.append_nil, List.nil_append]

theorem sealed_flatMap {f : α → List Char} {l : List α} (h : ∀ a ∈ l, Sealed (f a)) : Sealed (l.flatMap f) := by
  induction l with
  | nil => exact sealed_nil
  | cons a l ih =>
    obtain ⟨ha, hl⟩ := List.forall_mem_cons.mp h
    exact ha.append (ih hl)

theorem solid_flatMap {f : α → List Char} {l : List α} (h : ∀ a ∈ l, Solid (f a)) : Solid (l.flatMap f) := by
  induction l with
  | nil => exact solid_nil
  | cons a l ih =>
    obtain ⟨ha, hl⟩ := List.forall_mem_cons.mp h
    exact ha.append (ih hl)

theorem sealed_escaped (c : Char) : Sealed ['\\', c] := by
  intro read rest
  simp [cut]

theorem solid_escaped (c : Char) : Solid ['\\', c] := by
  intro field rest hrest
  rw [List.cons_append, List.cons_append, List.nil_append, fieldsFrom, if_pos rfl]

theorem sealed_char (h : isStringMark c = false) : Sealed [c] := by
  intro read rest
  have hquote : c ≠ '"' := by rintro rfl; exact absurd h (by decide)
  have hslash : c ≠ '\\' := by rintro rfl; exact absurd h (by decide)
  rw [List.singleton_append, cut, if_neg hquote, if_neg hslash]

theorem Sealed.cons (h : isStringMark c = false) (hcs : Sealed cs) : Sealed (c :: cs) := (sealed_char h).append hcs

theorem isRecordMark_eq (c : Char) : isRecordMark c = (isStringMark c || isFieldMark c) := rfl

theorem solid_char (h : isRecordMark c = false) : Solid [c] := by
  intro field rest hrest
  obtain ⟨d, rest, rfl⟩ := List.exists_cons_of_ne_nil hrest
  have hslash : c ≠ '\\' := by rintro rfl; exact absurd h (by decide)
  have hbar : c ≠ '|' := by rintro rfl; exact absurd h (by decide)
  obtain ⟨-, hmark⟩ := Bool.or_eq_false_iff.mp (isRecordMark_eq c ▸ h)
  rw [List.singleton_append, fieldsFrom, if_neg hslash, if_neg hbar, hmark]
  rfl

/-- Characters without a meaning are their own texts. -/
theorem sealed_plain (h : cs.any isStringMark = false) : Sealed cs := by
  have := sealed_flatMap (f := fun c => [c]) fun c hc =>
    sealed_char (Bool.eq_false_iff.mpr (List.any_eq_false.mp h c hc))
  simpa using this

theorem solid_plain (h : cs.any isRecordMark = false) : Solid cs := by
  have := solid_flatMap (f := fun c => [c]) fun c hc =>
    solid_char (Bool.eq_false_iff.mpr (List.any_eq_false.mp h c hc))
  simpa using this

end

-- ---------------------------------------------------------------------------
-- Escaped texts
-- ---------------------------------------------------------------------------

theorem toList_escapeIf (p : Char → Bool) (s : String) :
    (escapeIf p s).toList = s.toList.flatMap fun c => if p c then ['\\', c] else [c] := by
  simp [escapeIf]

theorem sealed_escapeIf {p : Char → Bool} (h : ∀ c, isStringMark c = true → p c = true) (s : String) :
    Sealed (escapeIf p s).toList := by
  rw [toList_escapeIf]
  refine sealed_flatMap fun c _ => ?_
  split
  · exact sealed_escaped c
  · rename_i hc
    exact sealed_char (Bool.eq_false_iff.mpr fun hmark => hc (h c hmark))

theorem solid_escapeIf (s : String) : Solid (escapeIf isRecordMark s).toList := by
  rw [toList_escapeIf]
  refine solid_flatMap fun c _ => ?_
  split
  · exact solid_escaped c
  · rename_i hc
    exact solid_char (Bool.eq_false_iff.mpr hc)

theorem unescape_cons (h : c ≠ '\\') (cs : List Char) : unescape (c :: cs) = c :: unescape cs := by
  cases cs with
  | nil => rfl
  | cons d cs => rw [unescape, if_neg h]

theorem decode_escapeIf {p : Char → Bool} (h : p '\\' = true) (s : String) :
    decode (escapeIf p s).toList = s := by
  have hlist : ∀ cs : List Char, unescape (cs.flatMap fun c => if p c then ['\\', c] else [c]) = cs := by
    intro cs
    induction cs with
    | nil => rfl
    | cons c cs ih =>
      rw [List.flatMap_cons]
      split
      · rw [List.cons_append, List.singleton_append, unescape, if_pos rfl, ih]
      · rename_i hc
        have hslash : c ≠ '\\' := by rintro rfl; exact hc h
        rw [List.singleton_append, unescape_cons hslash, ih]
  rw [decode, toList_escapeIf, hlist, String.ofList_toList]

end SchemaDialects.Diagram.Dot
