import SchemaDialects.Proofs.Sql.Runs

/-!
# Loops of the grammar

A loop of the grammar repeats a production until this gives nothing or no separator follows. It runs over the tokens if
each of its rounds does and takes a token (`Rounds`). With separators it is the separator that is taken (`Separates`),
without them it is the first token of each item (`Consumes`).
-/

namespace SchemaDialects.Sql

open Production

-- ---------------------------------------------------------------------------
-- Tokens that are taken
-- ---------------------------------------------------------------------------

/-- A token that is eaten has been there. -/
theorem ok_of_eatIf (hp : p .finish = false) (hts : Ended ts) (h : eatIf p ts = .ok true s) :
    ∃ t, ts = t :: s ∧ p t.lexeme = true := by
  obtain ⟨t, ts, rfl⟩ := List.exists_cons_of_ne_nil hts.ne_nil
  have hhead : p t.lexeme = true := (Frame.eatIf_of_ok h).1.symm
  have hs := hts.behind (t := t) fun hfinish => by
    rw [hfinish, hp] at hhead
    cases hhead
  cases h.symm.trans (Frame.eatIf_of_true hhead hs.ne_nil)
  exact ⟨t, rfl, hhead⟩

theorem ok_of_expectKeyword {k : Unit → Production α} (hts : Ended ts) (h : (expectKeyword word >>= k) ts = .ok a u) :
    ∃ t s, ts = t :: s ∧ Ended s ∧ k () s = .ok a u := by
  obtain ⟨_, s, hexpect, hrest⟩ := ok_of_bind h
  obtain ⟨b, v, heat, hcheck⟩ := ok_of_bind hexpect
  cases b with
  | false => cases hcheck
  | true =>
    cases hcheck
    obtain ⟨t, rfl, -⟩ := ok_of_eatIf rfl hts heat
    exact ⟨t, s, rfl, ((eatKeyword_runs word).left hts List.suffix_rfl heat).1, hrest⟩

theorem anotherPart_ok (hts : Ended ts) (h : anotherPart ts = .ok b s) :
    ∃ t, ts = t :: s ∧ t.lexeme = if b then .comma else .closeParen := by
  obtain ⟨t, ts, rfl⟩ := List.exists_cons_of_ne_nil hts.ne_nil
  rw [anotherPart, Frame.lexeme_bind] at h
  generalize hl : t.lexeme = l at h
  split at h
  · have hs := hts.behind (by simp [hl])
    cases h
    exact ⟨t, by rw [Frame.stepOver_cons t hs.ne_nil], hl⟩
  · have hs := hts.behind (by simp [hl])
    cases h
    exact ⟨t, by rw [Frame.stepOver_cons t hs.ne_nil], hl⟩
  · cases h

-- ---------------------------------------------------------------------------
-- Rounds
-- ---------------------------------------------------------------------------

/-- The parts of a loop run, and each round that another one follows takes a token. -/
structure Rounds (item : Production (Option α)) (more : Production Bool) : Prop where
  body : ∀ {start}, RunsFrom start item
  next : ∀ {start}, RunsFrom start more
  advances : ∀ {ts}, Ended ts → Advances item more ts

theorem Rounds.runs {item : Production (Option α)} {more : Production Bool} (h : Rounds item more) :
    RunsFrom start (listed item more) := by
  intro ts
  induction hm : ts.length using Nat.strongRecOn generalizing ts with
  | ind m ih =>
    subst hm
    intro hts hpart
    refine .listed (h.advances hts) (.bind (h.body ts hts hpart) fun found s hfound => ?_)
    obtain ⟨hs, hleft⟩ := h.body.left hts hpart hfound
    cases found with
    | none => exact .pure _ _
    | some value =>
      refine .bind (h.next s hs (hleft.trans hpart)) fun b u hsep => ?_
      obtain ⟨hu, hfurther⟩ := h.next.left hs (hleft.trans hpart) hsep
      cases b with
      | false => exact .pure _ _
      | true =>
        have hless := h.advances hts value s u hfound hsep
        exact .bind (ih _ hless u rfl hu (hfurther.trans (hleft.trans hpart))) fun _ _ _ => .pure _ _

/-- What finds a separator takes it. -/
structure Separates (more : Production Bool) : Prop where
  runs : ∀ {start}, RunsFrom start more
  shorter : ∀ {s u}, Ended s → more s = .ok true u → u.length < s.length

theorem separates_eat (hl : l ≠ .finish) : Separates (eat l) where
  runs := eat_runs l
  shorter hs hrun := by
    obtain ⟨t, rfl, -⟩ := ok_of_eatIf (decide_eq_false (Ne.symm hl)) hs hrun
    exact Nat.lt_succ_self _

theorem separates_dot : Separates (eat .dot) := separates_eat (by simp)

theorem separates_comma : Separates (eat .comma) := separates_eat (by simp)

theorem anotherPart_runs : RunsFrom start anotherPart := by
  refine lexeme_runs.bind fun l => ?_
  split
  · exact advance_runs.bind fun _ => .pure _
  · exact advance_runs.bind fun _ => .pure _
  · exact failExpecting_runs _

theorem separates_anotherPart : Separates anotherPart where
  runs := anotherPart_runs
  shorter hs hrun := by
    obtain ⟨t, rfl, -⟩ := anotherPart_ok hs hrun
    exact Nat.lt_succ_self _

namespace Separates

variable {more : Production Bool}

theorem rounds {item : Production (Option α)} (h : Separates more) (hitem : ∀ {start}, RunsFrom start item) :
    Rounds item more where
  body := hitem
  next := h.runs
  advances hts value s u hvalue hsep := by
    obtain ⟨hs, hleft⟩ := hitem.left hts List.suffix_rfl hvalue
    exact Nat.lt_of_lt_of_le (h.shorter hs hsep) hleft.length_le

/-- Each item of such a loop gives a value. -/
theorem items {item : Production α} (h : Separates more) (hitem : ∀ {start}, RunsFrom start item) :
    Rounds (some <$> item) more :=
  h.rounds (hitem.map _)

end Separates

theorem commaSeparated_runs {item : Production α} (hitem : ∀ {start}, RunsFrom start item) :
    RunsFrom start (commaSeparated item) :=
  (separates_comma.items hitem).runs

-- ---------------------------------------------------------------------------
-- Taking a token
-- ---------------------------------------------------------------------------

/-- An item if it is introduced by a keyword. -/
theorem introduced_runs {item : Production α} (k : Keyword) (hitem : RunsFrom start item) :
    RunsFrom start (introduced k item) :=
  (eatKeyword_runs k).bind fun _ => .ite (hitem.bind fun _ => .pure _) (.pure _)

/-- A production that takes a token if the lexeme in front satisfies `P` and what it gives satisfies `Q`. -/
structure Consumes (start : List Token) (P : Lexeme → Prop) (Q : α → Prop) (p : Production α) : Prop where
  runs : RunsFrom start p
  shorter : ∀ ts, Ended ts → ts <:+ start → P (ts.headD endToken).lexeme → ∀ a s, p ts = .ok a s → Q a →
    s.length < ts.length

namespace Consumes

variable {P : Lexeme → Prop} {Q : α → Prop}

theorem pure (h : ¬Q a) : Consumes start P Q (Pure.pure a) where
  runs := .pure a
  shorter := by
    rintro ts - - - _ _ ⟨⟩ ha
    exact absurd ha h

theorem fail (what : String) : Consumes start P Q (failExpecting what) where
  runs := failExpecting_runs what
  shorter := nofun

theorem mono {p : Production α} (h : Consumes start P Q p) (hP : ∀ l, P' l → P l) : Consumes start P' Q p where
  runs := h.runs
  shorter ts hts hpart hfirst := h.shorter ts hts hpart (hP _ hfirst)

theorem ite {p q : Production α} {c : Prop} [Decidable c] (hp : Consumes start P Q p) (hq : Consumes start P Q q) :
    Consumes start P Q (if c then p else q) := by
  split
  · exact hp
  · exact hq

/-- The lexeme in front is the one that has been looked at. -/
theorem look {k : Lexeme → Production α} (hk : ∀ l, Consumes start (fun first => first = l ∧ P first) Q (k l)) :
    Consumes start P Q (lexeme >>= k) where
  runs := lexeme_runs.bind fun l => (hk l).runs
  shorter ts hts hpart hfirst := (hk _).shorter ts hts hpart ⟨rfl, hfirst⟩

theorem peek {k : Lexeme → Production α} (n : Nat) (hk : ∀ l, Consumes start P Q (k l)) :
    Consumes start P Q (Production.peek n >>= k) where
  runs := (peek_runs n).bind fun l => (hk l).runs
  shorter ts hts hpart hfirst := (hk _).shorter ts hts hpart hfirst

theorem mark {k : List Token → Production α} (hk : ∀ start, Consumes start P Q (k start)) :
    Consumes start P Q (tokens >>= k) where
  runs := .mark fun start => (hk start).runs
  shorter ts hts _ hfirst := (hk ts).shorter ts hts List.suffix_rfl hfirst

theorem advance {k : Unit → Production α} (hP : ∀ l, P l → l ≠ .finish) (hk : ∀ a, RunsFrom start (k a)) :
    Consumes start P Q (Production.advance >>= k) where
  runs := advance_runs.bind hk
  shorter ts hts hpart hfirst a s hrun _ := by
    obtain ⟨t, ts, rfl⟩ := List.exists_cons_of_ne_nil hts.ne_nil
    have hbehind : Ended ts := hts.behind (hP _ hfirst)
    change k () (stepOver (t :: ts)) = .ok a s at hrun
    rw [Frame.stepOver_cons t hbehind.ne_nil] at hrun
    have hleft := ((hk ()).left hbehind ((List.suffix_cons _ _).trans hpart) hrun).2
    exact Nat.lt_succ_of_le hleft.length_le

theorem expectKeyword {k : Unit → Production α} (word : Keyword) (hk : ∀ a, RunsFrom start (k a)) :
    Consumes start P Q (Production.expectKeyword word >>= k) where
  runs := (expectKeyword_runs word).bind hk
  shorter ts hts hpart _ a s hrun _ := by
    obtain ⟨t, ts, rfl, hbehind, hrest⟩ := ok_of_expectKeyword hts hrun
    have hleft := ((hk ()).left hbehind ((List.suffix_cons _ _).trans hpart) hrest).2
    exact Nat.lt_succ_of_le hleft.length_le

/-- The first production takes a token. -/
theorem bind {p : Production β} {k : β → Production α} (h : Consumes start P (fun _ => True) p)
    (hk : ∀ b, RunsFrom start (k b)) : Consumes start P Q (p >>= k) where
  runs := h.runs.bind hk
  shorter ts hts hpart hfirst a s hrun _ := by
    obtain ⟨b, u, hp, hrest⟩ := ok_of_bind hrun
    obtain ⟨hu, hleft⟩ := h.runs.left hts hpart hp
    have hfurther := ((hk b).left hu (hleft.trans hpart) hrest).2
    exact Nat.lt_of_le_of_lt hfurther.length_le (h.shorter ts hts hpart hfirst b u hp trivial)

/-- The second production takes a token. -/
theorem behind {p : Production β} {k : β → Production α} (h : RunsFrom start p)
    (hk : ∀ b, Consumes start (fun _ => True) Q (k b)) : Consumes start P Q (p >>= k) where
  runs := h.bind fun b => (hk b).runs
  shorter ts hts hpart _ a s hrun ha := by
    obtain ⟨b, u, hp, hrest⟩ := ok_of_bind hrun
    obtain ⟨hu, hleft⟩ := h.left hts hpart hp
    exact Nat.lt_of_lt_of_le ((hk b).shorter u hu (hleft.trans hpart) trivial a s hrest ha) hleft.length_le

/-- A production that takes a token, as far as nothing is introduced in front of it. -/
theorem introduced {item : Production β} {k : Option β → Production α} (word : Keyword) (hitem : RunsFrom start item)
    (hnone : Consumes start P Q (k none)) (hsome : ∀ b, RunsFrom start (k (some b))) :
    Consumes start P Q (Production.introduced word item >>= k) where
  runs := (introduced_runs word hitem).bind fun
    | none => hnone.runs
    | some b => hsome b
  shorter ts hts hpart hfirst a s hrun ha := by
    obtain ⟨found, u, hfound, hrest⟩ := ok_of_bind hrun
    obtain ⟨b, v, heat, hthen⟩ := ok_of_bind hfound
    cases b with
    | false =>
      obtain rfl := (Frame.eatIf_of_ok heat).2 rfl
      cases hthen
      exact hnone.shorter _ hts hpart hfirst a s hrest ha
    | true =>
      obtain ⟨t, rfl, -⟩ := ok_of_eatIf rfl hts heat
      obtain ⟨value, w, hvalue, hdone⟩ := ok_of_bind hthen
      cases hdone
      have hv : Ended v := ((eatKeyword_runs word).left hts List.suffix_rfl heat).1
      have hbehind := (List.suffix_cons t v).trans hpart
      obtain ⟨hu, hleft⟩ := hitem.left hv hbehind hvalue
      have hfurther := ((hsome value).left hu (hleft.trans hbehind) hrest).2
      exact Nat.lt_succ_of_le (hfurther.trans hleft).length_le

/-- Without separators each round has to take a token itself. -/
theorem rounds {item : Production (Option α)} (h : ∀ {start}, Consumes start (fun _ => True) (·.isSome) item) :
    Rounds item (Pure.pure true) where
  body := h.runs
  next := .pure true
  advances hts value s u hvalue hmore := by
    cases hmore
    exact h.shorter _ hts List.suffix_rfl trivial _ _ hvalue rfl

end Consumes

theorem repeated_runs {item : Production (Option α)}
    (h : ∀ {start}, Consumes start (fun _ => True) (·.isSome) item) : RunsFrom start (repeated item) :=
  (Consumes.rounds h).runs

end SchemaDialects.Sql
