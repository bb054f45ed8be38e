import SchemaDialects.Proofs.Sql.Taken

/-!
# How far an expression reaches

`expressionTokens_longest`: an expression takes the longest run of tokens in which no statement ends, no parenthesis is
closed that has not been opened, and no token outside parentheses stops it. Such a run leaves parentheses open only
where the statement ends (`IsLongestRun.balanced`).
-/

namespace SchemaDialects.Sql

open Production

-- ---------------------------------------------------------------------------
-- Parentheses
-- ---------------------------------------------------------------------------

/-- How many parentheses are opened among the tokens. -/
def openings (ts : List Token) : Nat := ts.countP (·.lexeme = .openParen)

/-- How many parentheses are closed among the tokens. -/
def closings (ts : List Token) : Nat := ts.countP (·.lexeme = .closeParen)

theorem openings_append (ts us : List Token) : openings (ts ++ us) = openings ts + openings us := List.countP_append

theorem closings_append (ts us : List Token) : closings (ts ++ us) = closings ts + closings us := List.countP_append

theorem openings_cons (t : Token) (ts : List Token) : openings (t :: ts) = openings [t] + openings ts :=
  openings_append [t] ts

theorem closings_cons (t : Token) (ts : List Token) : closings (t :: ts) = closings [t] + closings ts :=
  closings_append [t] ts

-- ---------------------------------------------------------------------------
-- Runs
-- ---------------------------------------------------------------------------

/-- A run of tokens, of which `depth` parentheses are open in front, that an expression can take if it ends before
`stop`. -/
structure IsRun (stop : Lexeme → Bool) (depth : Nat) (run : List Token) : Prop where
  /-- No statement ends in it. -/
  goesOn : ∀ t ∈ run, t.lexeme.endsStatement = false
  /-- Nowhere have more parentheses been closed than opened. -/
  nested : ∀ front, front <+: run → closings front ≤ depth + openings front
  /-- Where all parentheses are closed, no token but a parenthesis satisfies `stop`. -/
  unstopped : ∀ front t, front ++ [t] <+: run → closings front = depth + openings front →
    t.lexeme ≠ .openParen → t.lexeme ≠ .closeParen → stop t.lexeme = false

/-- The longest run among those in front of the tokens. -/
structure IsLongestRun (stop : Lexeme → Bool) (ts run : List Token) : Prop where
  inFront : run <+: ts
  isRun : IsRun stop 0 run
  longest : ∀ other, other <+: ts → IsRun stop 0 other → other <+: run

namespace IsRun

theorem nil (stop : Lexeme → Bool) (depth : Nat) : IsRun stop depth [] where
  goesOn _ ht := absurd ht List.not_mem_nil
  nested front hfront := by simp [List.prefix_nil.mp hfront, closings]
  unstopped front t hfront := by simp at hfront

/-- What follows the first token of a run, with the parentheses that are open behind this token. -/
theorem behind (h : IsRun stop depth (t :: ts)) : IsRun stop (depth + openings [t] - closings [t]) ts where
  goesOn u hu := h.goesOn u (List.mem_cons_of_mem _ hu)
  nested front hfront := by
    have hall := h.nested (t :: front) (by simpa using hfront)
    rw [closings_cons, openings_cons] at hall
    omega
  unstopped front u hfront hclosed := by
    have hfirst := h.nested [t] (by simp)
    refine h.unstopped (t :: front) u (by simpa using hfront) ?_
    rw [closings_cons, openings_cons]
    omega

theorem cons (hends : t.lexeme.endsStatement = false) (hfirst : closings [t] ≤ depth + openings [t])
    (hstop : depth = 0 → t.lexeme ≠ .openParen → t.lexeme ≠ .closeParen → stop t.lexeme = false)
    (h : IsRun stop (depth + openings [t] - closings [t]) ts) : IsRun stop depth (t :: ts) where
  goesOn := List.forall_mem_cons.mpr ⟨hends, h.goesOn⟩
  nested front hfront := by
    obtain rfl | ⟨rest, rfl, hrest⟩ := List.prefix_cons_iff.mp hfront
    · simp [closings]
    · have hnested := h.nested rest hrest
      rw [closings_cons, openings_cons]
      omega
  unstopped front u hfront hclosed := by
    cases front with
    | nil =>
      obtain rfl : u = t := by simpa using hfront
      exact hstop (by simpa [openings, closings] using hclosed.symm)
    | cons v front =>
      obtain ⟨rfl, hrest⟩ := List.cons_prefix_cons.mp hfront
      rw [closings_cons, openings_cons] at hclosed
      exact h.unstopped front u hrest (by omega)

/-- A run token by token. -/
theorem cons_iff : IsRun stop depth (t :: ts) ↔
    t.lexeme.endsStatement = false ∧ closings [t] ≤ depth + openings [t] ∧
      (depth = 0 → t.lexeme ≠ .openParen → t.lexeme ≠ .closeParen → stop t.lexeme = false) ∧
      IsRun stop (depth + openings [t] - closings [t]) ts := by
  constructor
  · intro h
    refine ⟨h.goesOn t List.mem_cons_self, h.nested [t] (by simp), fun hdepth => ?_, h.behind⟩
    exact h.unstopped [] t (by simp) (by simp [hdepth, openings, closings])
  · rintro ⟨hends, hfirst, hstop, h⟩
    exact .cons hends hfirst hstop h

/-- Inside parentheses a run goes on, whatever the next token is, unless the statement ends there. -/
theorem concat (h : IsRun stop depth run) (hopen : closings run < depth + openings run)
    (ht : t.lexeme.endsStatement = false) : IsRun stop depth (run ++ [t]) where
  goesOn u hu := by
    obtain hu | rfl : u ∈ run ∨ u = t := by simpa using hu
    · exact h.goesOn u hu
    · exact ht
  nested front hfront := by
    obtain rfl | hfront := List.prefix_concat_iff.mp hfront
    · have hone : closings [t] ≤ 1 := List.countP_le_length
      rw [closings_append, openings_append]
      omega
    · exact h.nested front hfront
  unstopped front u hfront hclosed := by
    obtain heq | hfront := List.prefix_concat_iff.mp hfront
    · obtain ⟨rfl, -⟩ := List.append_inj' heq rfl
      omega
    · exact h.unstopped front u hfront hclosed

end IsRun

/-- The Boolean test and the laws of a run agree. -/
theorem isInside_iff : isInside stop depth ts = true ↔ IsRun stop depth ts := by
  induction ts generalizing depth with
  | nil => exact iff_of_true rfl (.nil stop depth)
  | cons t ts ih =>
    rw [isInside, IsRun.cons_iff, ← ih]
    cases ht : t.lexeme <;>
      simp [ht, openings, closings, Lexeme.endsStatement, Nat.one_le_iff_ne_zero, or_iff_not_imp_left]

/-- If the statement goes on behind the longest run, its parentheses are balanced. -/
theorem IsLongestRun.balanced (h : IsLongestRun stop ts run) (hts : run ++ t :: rest = ts)
    (ht : t.lexeme.endsStatement = false) : closings run = openings run := by
  have hnested : closings run ≤ 0 + openings run := h.isRun.nested run List.prefix_rfl
  by_contra hne
  -- One more token would make the run longer.
  have hlonger : IsRun stop 0 (run ++ [t]) := h.isRun.concat (by omega) ht
  have hfront : run ++ [t] <+: ts := ⟨rest, by simpa using hts⟩
  have hlength := (h.longest _ hfront hlonger).length_le
  rw [List.length_append, List.length_singleton] at hlength
  omega

-- ---------------------------------------------------------------------------
-- The tokens of an expression
-- ---------------------------------------------------------------------------

/-- Every run in front of the tokens is taken. -/
theorem prefix_splitExpression (hfront : other <+: ts) (h : isInside stop depth other = true) :
    other <+: (splitExpression (headIs stop) depth ts).1 := by
  induction ts generalizing depth other with
  | nil => simp [List.prefix_nil.mp hfront]
  | cons t ts ih =>
    obtain rfl | ⟨more, rfl, hmore⟩ := List.prefix_cons_iff.mp hfront
    · exact List.nil_prefix
    rw [isInside] at h
    rw [splitExpression]
    cases ht : t.lexeme with
    | finish => simp [ht] at h
    | semicolon => simp [ht] at h
    | openParen =>
      simp only [ht] at h ⊢
      exact List.cons_prefix_cons.mpr ⟨rfl, ih hmore h⟩
    | closeParen =>
      simp only [ht, Bool.and_eq_true, decide_eq_true_eq] at h ⊢
      rw [if_neg h.1]
      exact List.cons_prefix_cons.mpr ⟨rfl, ih hmore h.2⟩
    | _ =>
      simp only [ht, Bool.and_eq_true, Bool.not_eq_true', Bool.and_eq_false_iff, decide_eq_false_iff_not] at h ⊢
      have hgo : ¬(depth = 0 ∧ headIs stop (t :: ts) = true) := by
        simpa [headIs, ht, or_iff_not_imp_left] using h.1
      rw [if_neg hgo]
      exact List.cons_prefix_cons.mpr ⟨rfl, ih hmore h.2⟩

theorem isLongestRun_splitExpression (stop : Lexeme → Bool) (ts : List Token) :
    IsLongestRun stop ts (splitExpression (headIs stop) 0 ts).1 where
  inFront := ⟨_, splitExpression_append _ 0 ts⟩
  isRun := isInside_iff.mp (isInside_splitExpression stop 0 ts)
  longest _ hfront hrun := prefix_splitExpression hfront (isInside_iff.mpr hrun)

/-- From wherever it begins, an expression takes the longest run of tokens that it can, and leaves the others. If the
statement does not end behind them, their parentheses are balanced. -/
theorem expressionTokens_longest (stop : Lexeme → Bool) (ts : List Token) :
    ∃ run rest, expressionTokens stop ts = .ok run rest ∧ run ++ rest = ts ∧ IsLongestRun stop ts run ∧
      ∀ t ∈ rest.head?, t.lexeme.endsStatement = false → closings run = openings run := by
  have hlongest := isLongestRun_splitExpression stop ts
  have happend := splitExpression_append (headIs stop) 0 ts
  refine ⟨_, _, rfl, happend, hlongest, fun t ht hends => ?_⟩
  obtain ⟨more, hmore⟩ := List.head?_eq_some_iff.mp ht
  exact hlongest.balanced (hmore ▸ happend) hends

/-- The comma between the arguments of a call does not end an expression; the one behind the call does. -/
example : (splitExpression (headIs (· = .comma)) 0 (([.word "f", .openParen, .word "a", .comma, .word "b", .closeParen,
    .comma, .word "c", .finish] : List Lexeme).map (⟨·, "", .unknown⟩))).2.map (·.lexeme) =
      [.comma, .word "c", .finish] := by decide

end SchemaDialects.Sql
