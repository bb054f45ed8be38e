import SchemaDialects.Proofs.Sql.Spelling

/-!
# Literals in a type

The parameters of a type can be literals, as those of an enumeration are. Its one spelling has the same literals in
the same order, each with single spaces and none behind a comma (`literals_normalizeType`): the parts of the text
between apostrophes are spaced by themselves (`Piecewise`), and nothing but their spacing changes.
-/

namespace SchemaDialects.Sql

open Text

-- ---------------------------------------------------------------------------
-- Scanning
-- ---------------------------------------------------------------------------

/--
The literals in a text that goes on outside of one, or inside one that began with `front`. Apostrophes inside a
literal stay doubled; a literal that does not end does not count.
-/
def literalsFrom : Option (List Char) → List Char → List (List Char)
  | _, [] => []
  | none, c :: cs => if c = '\'' then literalsFrom (some []) cs else literalsFrom none cs
  | some front, '\'' :: '\'' :: cs => literalsFrom (some (front ++ ['\'', '\''])) cs
  | some front, c :: cs =>
    if c = '\'' then front :: literalsFrom none cs else literalsFrom (some (front ++ [c])) cs

def literals (t : String) : List (List Char) := literalsFrom none t.toList

theorem literalsFrom_outside (h : '\'' ∉ word) (cs : List Char) :
    literalsFrom none (word ++ cs) = literalsFrom none cs := by
  induction word with
  | nil => rfl
  | cons c word ih =>
    obtain ⟨hc, hword⟩ := List.ne_and_not_mem_of_not_mem_cons h
    rw [List.cons_append, literalsFrom, if_neg (Ne.symm hc), ih hword]

theorem literalsFrom_inside (h : '\'' ∉ word) (front cs : List Char) :
    literalsFrom (some front) (word ++ cs) = literalsFrom (some (front ++ word)) cs := by
  induction word generalizing front with
  | nil => rw [List.nil_append, List.append_nil]
  | cons c word ih =>
    obtain ⟨hc, hword⟩ := List.ne_and_not_mem_of_not_mem_cons h
    rw [List.cons_append, literalsFrom.eq_4 _ _ _ fun _ heq => absurd heq.symm hc, if_neg (Ne.symm hc), ih hword,
      List.append_assoc]
    rfl

theorem literalsFrom_close (h : cs.head? ≠ some '\'') (front : List Char) :
    literalsFrom (some front) ('\'' :: cs) = front :: literalsFrom none cs := by
  cases cs with
  | nil => rfl
  | cons c cs =>
    have hc : c ≠ '\'' := fun heq => h (congrArg some heq)
    rw [literalsFrom.eq_4 _ _ _ fun more _ heq => hc (List.cons.inj heq).1, if_pos rfl]

-- ---------------------------------------------------------------------------
-- Between apostrophes
-- ---------------------------------------------------------------------------

/-- The map takes the parts of a text between apostrophes by themselves. -/
structure Piecewise (F : List Char → List Char) : Prop where
  nil : F [] = []
  quote : ∀ front back, F (front ++ '\'' :: back) = F front ++ '\'' :: F back
  free : ∀ word, '\'' ∉ word → '\'' ∉ F word
  ne_nil : ∀ word, word ≠ [] → F word ≠ []

namespace Piecewise

theorem comp (hF : Piecewise F) (hG : Piecewise G) : Piecewise (F ∘ G) where
  nil := by rw [Function.comp_apply, hG.nil, hF.nil]
  quote front back := by simp only [Function.comp_apply, hG.quote, hF.quote]
  free word h := hF.free _ (hG.free word h)
  ne_nil word h := hF.ne_nil _ (hG.ne_nil word h)

theorem quote_cons (h : Piecewise F) (back : List Char) : F ('\'' :: back) = '\'' :: F back := by
  have := h.quote [] back
  rwa [h.nil] at this

/-- An apostrophe stands in front where one did. -/
theorem head (h : Piecewise F) (hhead : cs.head? ≠ some '\'') : (F cs).head? ≠ some '\'' := by
  by_cases hmem : '\'' ∈ cs
  · obtain ⟨word, back, rfl, hword⟩ := List.eq_append_cons_of_mem hmem
    have hne : word ≠ [] := by
      rintro rfl
      exact hhead rfl
    obtain ⟨c, more, hcons⟩ := List.exists_cons_of_ne_nil (h.ne_nil word hne)
    rw [h.quote, hcons]
    intro heq
    exact h.free word hword (hcons ▸ Option.some.inj heq ▸ List.mem_cons_self)
  · exact fun hfirst => h.free cs hmem (List.mem_of_mem_head? hfirst)

/-- What a literal began with is mapped by itself: it is nothing, or ends with an apostrophe. -/
def Begins (F : List Char → List Char) (front : List Char) : Prop := ∀ word, F (front ++ word) = F front ++ F word

theorem begins_nil (h : Piecewise F) : Begins F [] := fun word => by rw [h.nil]; rfl

theorem begins_quoted (h : Piecewise F) (front : List Char) : Begins F (front ++ ['\'', '\'']) := fun word => by
  rw [List.append_assoc, List.cons_append, List.singleton_append, h.quote, h.quote_cons, h.quote, h.quote_cons, h.nil,
    List.append_assoc]
  rfl

/-- By recursion over the parts of the text. -/
theorem literalsFrom_map (h : Piecewise F) (cs : List Char) :
    literalsFrom none (F cs) = (literalsFrom none cs).map F ∧
      ∀ front, Begins F front → literalsFrom (some (F front)) (F cs) = (literalsFrom (some front) cs).map F := by
  induction hn : cs.length using Nat.strongRecOn generalizing cs with
  | ind n ih =>
    by_cases hmem : '\'' ∈ cs
    · obtain ⟨word, back, rfl, hword⟩ := List.eq_append_cons_of_mem hmem
      have hword' := h.free word hword
      have hback : back.length < n := by
        rw [← hn, List.length_append, List.length_cons]
        omega
      obtain ⟨hout, hin⟩ := ih _ hback back rfl
      rw [h.quote]
      -- Outside of a literal the first apostrophe begins one. Inside it ends one, unless a second one follows.
      refine ⟨?_, fun front hfront => ?_⟩
      · rw [literalsFrom_outside hword', literalsFrom_outside hword, literalsFrom, literalsFrom, if_pos rfl, if_pos rfl,
          ← hin [] h.begins_nil, h.nil]
      · rw [literalsFrom_inside hword', literalsFrom_inside hword, ← hfront]
        by_cases hhead : back.head? = some '\''
        · obtain ⟨more, rfl⟩ := List.head?_eq_some_iff.mp hhead
          have hmore : more.length < n := by
            rw [List.length_cons] at hback
            omega
          obtain ⟨-, hin⟩ := ih _ hmore more rfl
          rw [h.quote_cons, literalsFrom, literalsFrom, ← hin _ (h.begins_quoted _), h.quote, h.quote_cons, h.nil]
        · rw [literalsFrom_close hhead, literalsFrom_close (h.head hhead), hout, List.map_cons]
    · -- No literal ends.
      have hfree := h.free cs hmem
      refine ⟨?_, fun front hfront => ?_⟩
      · rw [← List.append_nil (F cs), literalsFrom_outside hfree, ← List.append_nil cs, literalsFrom_outside hmem]
        rfl
      · rw [← List.append_nil (F cs), literalsFrom_inside hfree, ← List.append_nil cs, literalsFrom_inside hmem]
        rfl

end Piecewise

-- ---------------------------------------------------------------------------
-- Spacing
-- ---------------------------------------------------------------------------

/-- With single spaces and none behind a comma. -/
def respaced (cs : List Char) : List Char := tightenCommas (squeeze cs)

theorem piecewise_squeeze : Piecewise squeeze where
  nil := rfl
  quote := squeeze_append rfl
  free word h hmem := (mem_squeeze hmem).elim (by simp) fun hword => h hword.1
  ne_nil word h hnil := by
    induction word with
    | nil => exact h rfl
    | cons c word ih =>
      rw [squeeze] at hnil
      split at hnil
      · split at hnil
        · rename_i hnext
          refine ih (fun hword => ?_) hnil
          simp [hword] at hnext
        · cases hnil
      · cases hnil

theorem piecewise_tightenCommas : Piecewise tightenCommas where
  nil := rfl
  quote front back := by rw [tightenCommas_append_cons (by decide), tightenCommas_cons (by decide)]
  free word h hmem := h (mem_tightenCommas hmem)
  ne_nil word h hnil := by
    have hhead := head?_tightenCommas word
    rw [hnil, eq_comm, List.head?_nil, List.head?_eq_none_iff] at hhead
    exact h hhead

theorem piecewise_respaced : Piecewise respaced := piecewise_tightenCommas.comp piecewise_squeeze

theorem respaced_eq_self : respaced cs = cs ↔ Spaced cs ∧ Tight cs := by
  constructor
  · intro h
    rw [← h]
    exact ⟨spaced_tightenCommas (spaced_squeeze cs), tight_tightenCommas (spaced_squeeze cs)⟩
  · rintro ⟨hspaced, htight⟩
    rw [respaced, squeeze_of_spaced hspaced, tightenCommas_of_tight htight]

-- ---------------------------------------------------------------------------
-- Types
-- ---------------------------------------------------------------------------

theorem literalsFrom_append (h : '\'' ∉ tail) (state : Option (List Char)) (cs : List Char) :
    literalsFrom state (cs ++ tail) = literalsFrom state cs := by
  fun_induction literalsFrom state cs with
  | case1 state =>
    rw [List.nil_append, ← List.append_nil tail]
    cases state with
    | none => exact literalsFrom_outside h []
    | some front => rw [literalsFrom_inside h]; rfl
  | case2 cs ih => rw [List.cons_append, literalsFrom, if_pos rfl, ih]
  | case3 c cs hc ih => rw [List.cons_append, literalsFrom, if_neg hc, ih]
  | case4 front cs ih => rw [List.cons_append, List.cons_append, literalsFrom, ih]
  | case5 front cs hne ih =>
    have hhead : (cs ++ tail).head? ≠ some '\'' := by
      cases cs with
      | nil => exact fun heq => h (List.mem_of_mem_head? heq)
      | cons d cs => exact fun heq => hne cs rfl (congrArg (· :: cs) (Option.some.inj heq))
    rw [List.cons_append, literalsFrom_close hhead, ih]
  | case6 front c cs hne hc ih =>
    rw [List.cons_append, literalsFrom.eq_4 _ _ _ fun _ heq => absurd heq hc, if_neg hc, ih]

theorem quoteless_mappedName (h : '\'' ∉ base.toList) (f : Flavor) (rest : String) :
    '\'' ∉ (mappedName f base rest).toList := by
  rcases mappedName_cases f base rest with hself | hmem
  · rwa [hself]
  · have hmysql : ∀ name ∈ canonicalNames .mysql, '\'' ∉ name.toList := by decide
    have hothers : ∀ name ∈ canonicalNames .generic, '\'' ∉ name.toList := by decide
    by_cases hf : f = .mysql
    · exact hmysql _ (hf ▸ hmem)
    · exact hothers _ (canonicalNames_of_ne hf ▸ hmem)

/-- An integer is a boolean if it has one digit. -/
theorem digit_of_mappedName (h : mappedName f "tinyint" rest = "boolean") : rest = "(1)" := by
  rw [mappedName] at h
  split at h
  · have hname : mysqlName "tinyint" rest = if rest == "(1)" then "boolean" else "tinyint" := rfl
    rw [hname] at h
    split at h
    · rename_i hrest
      exact eq_of_beq hrest
    · exact absurd h (by decide)
  · exact absurd h (by decide)

/-- Where the parameters begin, a type is divided, and they are respaced. -/
theorem splitType_parameters {t : String} (ht : t.toList = base ++ '(' :: rest) (h : ∀ c ∈ base, opens c = false)
    (hquote : '\'' ∉ base) :
    ∃ name, splitType t = (name, String.ofList (respaced ('(' :: dropEndWhile isBlank rest))) ∧ '\'' ∉ name.toList := by
  have hblank : isBlank '(' = false := rfl
  have hmem {d : Char} (hd : d ∈ squeeze (base.dropWhile isBlank)) : d = ' ' ∨ d ∈ base :=
    (mem_squeeze hd).imp_right fun hword => (List.dropWhile_suffix _).subset hword.1
  have hplain : ∀ d ∈ squeeze (base.dropWhile isBlank), opens d = false := fun d hd => by
    rcases hmem hd with rfl | hbase
    · rfl
    · exact h d hbase
  have hchars : collapseBlanks t.toList =
      squeeze (base.dropWhile isBlank) ++ '(' :: squeeze (dropEndWhile isBlank rest) := by
    rw [ht, collapseBlanks_eq, stripWhile_append_cons hblank, squeeze_append hblank]
  refine ⟨lowercase (trim (String.ofList (squeeze (base.dropWhile isBlank)))), ?_, fun hname => ?_⟩
  · rw [splitType_opened hchars hplain rfl, respaced, squeeze_cons hblank]
  · have hmark : IsMark '\'' := by
      rw [IsMark]
      decide
    rw [(lowers_lowercase _).mem_iff_of_mark hmark, trim, String.toList_ofList, String.toList_ofList] at hname
    have hpart := stripWhile_infix isBlank (squeeze (base.dropWhile isBlank))
    rcases hmem (hpart.subset hname) with hspace | hbase
    · exact absurd hspace (by decide)
    · exact hquote hbase

/--
In whatever flavor, a type with parameters is read with its literals respaced. They are kept exactly if all of them
have single spaces, and none behind a comma.
-/
theorem literals_normalizeType {t : String} (ht : t.toList = base ++ '(' :: rest) (h : ∀ c ∈ base, opens c = false)
    (hquote : '\'' ∉ base) (f : Flavor) :
    literals (normalizeType t f) = (literals t).map respaced ∧
      (literals (normalizeType t f) = literals t ↔ ∀ text ∈ literals t, Spaced text ∧ Tight text) := by
  have hread : literals t = literalsFrom none ('(' :: dropEndWhile isBlank rest) := by
    have hparts : rest = dropEndWhile isBlank rest ++ (rest.reverse.takeWhile isBlank).reverse := by
      rw [dropEndWhile, ← List.reverse_append, List.takeWhile_append_dropWhile, List.reverse_reverse]
    have hblanks : '\'' ∉ (rest.reverse.takeWhile isBlank).reverse := fun hmem =>
      absurd (List.mem_takeWhile_imp (List.mem_reverse.mp hmem)) (by decide)
    rw [literals, ht, literalsFrom_outside hquote]
    conv_lhs => rw [hparts]
    exact literalsFrom_append hblanks none ('(' :: dropEndWhile isBlank rest)
  have hmap : literals (normalizeType t f) = (literals t).map respaced := by
    obtain ⟨name, hsplit, hname⟩ := splitType_parameters ht h hquote
    rw [hread, ← (piecewise_respaced.literalsFrom_map _).1, normalizeType_of_split hsplit]
    split
    · rename_i hdigit
      rw [hdigit.2] at hdigit
      have hrest := digit_of_mappedName hdigit.1
      rw [← String.toList_ofList (l := respaced _), hrest]
      decide
    · rw [literals, String.toList_append, literalsFrom_outside (quoteless_mappedName hname f _), String.toList_ofList]
  refine ⟨hmap, ?_⟩
  rw [hmap]
  conv_lhs => rhs; rw [← List.map_id (literals t)]
  simp only [List.map_inj_left, id_eq, respaced_eq_self]

theorem literals_normalizeType_sizes :
    (∀ c ∈ "Enum ".toList, opens c = false) ∧ '\'' ∉ "Enum ".toList ∧
      literals "Enum ( 'S', 'it''s (M)',  'a,  b' )" = ["S".toList, "it''s (M)".toList, "a,  b".toList] ∧
      literals (normalizeType "Enum ( 'S', 'it''s (M)',  'a,  b' )" .mysql) =
        ["S".toList, "it''s (M)".toList, "a,b".toList] := by
  have hplain : ∀ c ∈ "Enum ".toList, opens c = false := forall_chars (by decide)
  have hquote : '\'' ∉ "Enum ".toList := by decide
  have hread : literals "Enum ( 'S', 'it''s (M)',  'a,  b' )" = ["S".toList, "it''s (M)".toList, "a,  b".toList] := by
    decide +kernel
  refine ⟨hplain, hquote, hread, ?_⟩
  have ht : "Enum ( 'S', 'it''s (M)',  'a,  b' )".toList =
      "Enum ".toList ++ '(' :: " 'S', 'it''s (M)',  'a,  b' )".toList := by decide
  rw [(literals_normalizeType ht hplain hquote .mysql).1, hread]
  decide

/-- The space behind a comma is not kept inside a literal. -/
theorem literal_respaced :
    literals "enum('a, b')" = ["a, b".toList] ∧ normalizeType "enum('a, b')" .mysql = "enum('a,b')" ∧
      literals (normalizeType "enum('a, b')" .mysql) ≠ literals "enum('a, b')" := by decide +kernel

end SchemaDialects.Sql
