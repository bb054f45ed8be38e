import SchemaDialects.Proofs.Sql.Taken
import SchemaDialects.Sql.Script

/-!
# Runs over the tokens that there are

A production runs over a list of tokens if it is put together from steps that look at tokens, step over them and cut off
stretches, all of which are there, and if each round of a loop that another one follows takes a token (`Runs`). Such a
run ends. It leaves a later part of the tokens, never passes the end of the script, and if it fails, it says so where it
stands (`Runs.leaves`). Running is closed under everything that productions are made of (`RunsFrom`).
-/

namespace SchemaDialects.Sql

open Production

-- ---------------------------------------------------------------------------
-- What is left
-- ---------------------------------------------------------------------------

/-- The end of the script is the last of the tokens. -/
def Ended (ts : List Token) : Prop := ∃ t ∈ ts.getLast?, t.lexeme = .finish

theorem Ended.ne_nil (h : Ended ts) : ts ≠ [] := by
  rintro rfl
  obtain ⟨t, ht, -⟩ := h
  cases ht

theorem Ended.suffix (h : Ended ts) (hne : s ≠ []) (hpart : s <:+ ts) : Ended s := by
  obtain ⟨front, rfl⟩ := hpart
  rwa [Ended, List.getLast?_append_of_ne_nil front hne] at h

/-- Behind any other token something is left. -/
theorem Ended.behind (h : Ended (t :: ts)) (ht : t.lexeme ≠ .finish) : Ended ts := by
  refine h.suffix ?_ (List.suffix_cons _ _)
  rintro rfl
  obtain ⟨u, hu, hfinish⟩ := h
  obtain rfl := Option.some.inj hu
  exact ht hfinish

/-- What a production that was given the tokens `all` leaves of them. A problem is where the next one stands. -/
inductive Leaves (all : List Token) : EStateM.Result Problem (List Token) α → Prop
  | ok (hs : Ended s) (hpart : s <:+ all) : Leaves all (.ok a s)
  | error (hs : Ended s) (hpart : s <:+ all) (hplace : e.position = (s.headD endToken).position) :
      Leaves all (.error e s)

theorem Leaves.mono {r : EStateM.Result Problem (List Token) α} (h : Leaves s r) (hpart : s <:+ all) :
    Leaves all r := by
  cases h with
  | ok hne hs => exact .ok hne (hs.trans hpart)
  | error hne hs hplace => exact .error hne (hs.trans hpart) hplace

theorem bind_of_ok {p : Production α} {k : α → Production β} (h : p ts = .ok a s) : (p >>= k) ts = k a s := by
  show EStateM.bind p k ts = _
  rw [EStateM.bind, h]

theorem bind_of_error {p : Production α} {k : α → Production β} (h : p ts = .error e s) :
    (p >>= k) ts = .error e s := by
  show EStateM.bind p k ts = _
  rw [EStateM.bind, h]

theorem Leaves.bind {p : Production α} {k : α → Production β} (h : Leaves ts (p ts))
    (hk : ∀ a s, p ts = .ok a s → Ended s → Leaves s (k a s)) : Leaves ts ((p >>= k) ts) := by
  cases hp : p ts with
  | ok a s =>
    rw [hp] at h
    rw [bind_of_ok hp]
    cases h with
    | ok hs hpart => exact (hk a s hp hs).mono hpart
  | error e s =>
    rw [hp] at h
    rw [bind_of_error hp]
    cases h with
    | error hs hpart hplace => exact .error hs hpart hplace

/-- What two productions in a row give, the second one gives. -/
theorem ok_of_bind {p : Production α} {k : α → Production β} (h : (p >>= k) ts = .ok b u) :
    ∃ a s, p ts = .ok a s ∧ k a s = .ok b u := by
  change EStateM.bind p k ts = .ok b u at h
  unfold EStateM.bind at h
  split at h
  · exact ⟨_, _, ‹_›, h⟩
  · cases h

theorem ok_of_map {p : Production α} {k : α → β} (h : (k <$> p) ts = .ok b s) : ∃ a, p ts = .ok a s ∧ k a = b := by
  rw [← bind_pure_comp] at h
  obtain ⟨a, u, hp, hdone⟩ := ok_of_bind h
  cases hdone
  exact ⟨a, hp, rfl⟩

theorem between_append (h : stop <:+ start) : between start stop ++ stop = start := by
  obtain ⟨front, rfl⟩ := h
  rw [between, List.length_append, Nat.add_sub_cancel, List.take_left]

theorem between_ne_nil (h : stop <:+ tail) : between (t :: tail) stop ≠ [] := by
  have := h.length_le
  rw [between, List.length_cons, Nat.succ_sub this]
  exact List.cons_ne_nil _ _

theorem stepOver_suffix (ts : List Token) : stepOver ts <:+ ts := by
  rcases ts with _ | ⟨t, _ | ⟨next, rest⟩⟩
  · exact List.suffix_rfl
  · exact List.suffix_rfl
  · exact List.suffix_cons _ _

theorem Ended.stepOver (h : Ended ts) : Ended (stepOver ts) := by
  refine h.suffix ?_ (stepOver_suffix ts)
  rcases ts with _ | ⟨t, _ | ⟨next, rest⟩⟩
  · exact h.ne_nil
  · exact h.ne_nil
  · exact List.cons_ne_nil _ _

-- ---------------------------------------------------------------------------
-- Loops over single tokens
-- ---------------------------------------------------------------------------

/-- A loop that steps over one token after the other: where it halts, and what it remembers behind a token. -/
structure Scanner (σ : Type) where
  halts : σ → List Token → Bool
  next : σ → Lexeme → σ

/-- How such a loop comes from some tokens to later ones. No round stands still, as it would on the last token. -/
inductive Scanner.Reaches (m : Scanner σ) : σ → List Token → List Token → Prop
  | halt (h : m.halts state (t :: ts) = true) : Reaches m state (t :: ts) (t :: ts)
  | round (h : m.halts state (t :: ts) = false) (hless : (stepOver (t :: ts)).length < (t :: ts).length)
      (hmore : Reaches m (m.next state t.lexeme) (stepOver (t :: ts)) s) : Reaches m state (t :: ts) s

namespace Scanner

variable {m : Scanner σ}

theorem Reaches.over (h : m.halts state (t :: ts) = false) (hts : Ended ts)
    (hmore : m.Reaches (m.next state t.lexeme) ts s) : m.Reaches state (t :: ts) s := by
  have hstep : stepOver (t :: ts) = ts := Frame.stepOver_cons t hts.ne_nil
  exact .round h (by simp [hstep]) (by rwa [hstep])

theorem Reaches.suffix (h : m.Reaches state ts s) : s <:+ ts := by
  induction h with
  | halt => exact List.suffix_rfl
  | round _ _ _ ih => exact ih.trans (stepOver_suffix _)

theorem Reaches.ended (h : m.Reaches state ts s) (hts : Ended ts) : Ended s := by
  induction h with
  | halt => exact hts
  | round _ _ _ ih => exact ih hts.stepOver

/-- The loop that passes over what is left of a statement. -/
def statement : Scanner Unit where
  halts _ := headIs Lexeme.endsStatement
  next _ _ := ()

/-- The loop that passes over semicolons. -/
def semicolons : Scanner Unit where
  halts _ ts := !headIs (· = .semicolon) ts
  next _ _ := ()

/-- The loop that passes over a group in parentheses. It remembers how many are open, and nothing behind the
parenthesis that closes the group. -/
def group : Scanner (Option Nat) where
  halts
    | none, _ => true
    | some _, ts => headIs Lexeme.endsStatement ts
  next state l := state.bind fun depth =>
    if l = .openParen then some (depth + 1)
    else if l = .closeParen then (if depth ≤ 1 then none else some (depth - 1))
    else some depth

/-- The loop that passes over an expression. It remembers how many parentheses are open. -/
def expression (stop : List Token → Bool) : Scanner Nat where
  halts depth ts := headIs Lexeme.endsStatement ts ||
    (depth = 0 && !headIs (· = .openParen) ts && (headIs (· = .closeParen) ts || stop ts))
  next depth l := if l = .openParen then depth + 1 else if l = .closeParen then depth - 1 else depth

end Scanner

theorem reaches_statementEnd (h : Ended ts) : Scanner.statement.Reaches () ts (statementEnd ts) := by
  induction ts with
  | nil => exact absurd rfl h.ne_nil
  | cons t ts ih =>
    rw [statementEnd]
    split
    · next ht => exact .halt ht
    · next ht =>
      have hts : Ended ts := h.behind fun hfinish => ht (by rw [hfinish]; rfl)
      exact .over (Bool.eq_false_iff.mpr ht) hts (ih hts)

theorem statementEnd_suffix (ts : List Token) : statementEnd ts <:+ ts := by
  induction ts with
  | nil => exact List.suffix_rfl
  | cons t ts ih =>
    rw [statementEnd]
    split
    · exact List.suffix_rfl
    · exact ih.trans (List.suffix_cons _ _)

theorem Ended.statementEnd (h : Ended ts) : Ended (statementEnd ts) := (reaches_statementEnd h).ended h

theorem reaches_skipSemicolons (h : Ended ts) : Scanner.semicolons.Reaches () ts (skipSemicolons ts) := by
  induction ts with
  | nil => exact absurd rfl h.ne_nil
  | cons t ts ih =>
    rw [skipSemicolons]
    split
    · next ht =>
      have hts : Ended ts := h.behind (by simp [ht])
      exact .over (by simp [Scanner.semicolons, headIs, ht]) hts (ih hts)
    · next ht => exact .halt (by simp [Scanner.semicolons, headIs, ht])

theorem reaches_groupEnd (h : Ended ts) (depth : Nat) : Scanner.group.Reaches (some depth) ts (groupEnd depth ts) := by
  induction ts generalizing depth with
  | nil => exact absurd rfl h.ne_nil
  | cons t ts ih =>
    rw [groupEnd]
    split
    · next ht =>
      have hts : Ended ts := h.behind (by simp [ht])
      refine .over (by simp [Scanner.group, headIs, ht, Lexeme.endsStatement]) hts ?_
      simpa [Scanner.group, ht] using ih hts (depth + 1)
    · next ht =>
      have hts : Ended ts := h.behind (by simp [ht])
      refine .over (by simp [Scanner.group, headIs, ht, Lexeme.endsStatement]) hts ?_
      split
      · next hdepth =>
        obtain ⟨u, ts, rfl⟩ := List.exists_cons_of_ne_nil hts.ne_nil
        exact .halt (by simp [Scanner.group, ht, hdepth])
      · next hdepth => simpa [Scanner.group, ht, hdepth] using ih hts (depth - 1)
    · next ht => exact .halt (by simp [Scanner.group, headIs, ht, Lexeme.endsStatement])
    · next ht => exact .halt (by simp [Scanner.group, headIs, ht, Lexeme.endsStatement])
    · next hopen hclose hsemicolon hfinish =>
      have hother : t.lexeme ≠ .openParen ∧ t.lexeme ≠ .closeParen := ⟨hopen, hclose⟩
      have hts : Ended ts := h.behind hfinish
      refine .over ?_ hts (by simpa [Scanner.group, hother] using ih hts depth)
      simp [Scanner.group, headIs, Lexeme.endsStatement]

theorem reaches_splitExpression (h : Ended ts) (stop : List Token → Bool) (depth : Nat) :
    (Scanner.expression stop).Reaches depth ts (splitExpression stop depth ts).2 := by
  induction ts generalizing depth with
  | nil => exact absurd rfl h.ne_nil
  | cons t ts ih =>
    rw [splitExpression]
    dsimp only
    split
    · next ht => exact .halt (by simp [Scanner.expression, headIs, ht, Lexeme.endsStatement])
    · next ht => exact .halt (by simp [Scanner.expression, headIs, ht, Lexeme.endsStatement])
    · next ht =>
      have hts : Ended ts := h.behind (by simp [ht])
      refine .over (by simp [Scanner.expression, headIs, ht, Lexeme.endsStatement]) hts ?_
      simpa [Scanner.expression, ht] using ih hts (depth + 1)
    · next ht =>
      have hts : Ended ts := h.behind (by simp [ht])
      split
      · next hdepth => exact .halt (by simp [Scanner.expression, headIs, ht, hdepth])
      · next hdepth =>
        refine .over (by simp [Scanner.expression, headIs, ht, hdepth, Lexeme.endsStatement]) hts ?_
        simpa [Scanner.expression, ht] using ih hts (depth - 1)
    · next hfinish hsemicolon hopen hclose =>
      have hother : t.lexeme ≠ .openParen ∧ t.lexeme ≠ .closeParen := ⟨hopen, hclose⟩
      split
      · next hstop => exact .halt (by simp [Scanner.expression, headIs, hother, hstop])
      · next hgo =>
        have hts : Ended ts := h.behind hfinish
        refine .over ?_ hts (by simpa [Scanner.expression, hother] using ih hts depth)
        simpa [Scanner.expression, headIs, hother, Lexeme.endsStatement] using hgo

-- ---------------------------------------------------------------------------
-- Runs
-- ---------------------------------------------------------------------------

/-- A round of a loop and those that follow it, however many tokens are left then. -/
def unrolled (item : Production (Option α)) (more : Production Bool) : Production (List α) := do
  match ← item with
  | none => return []
  | some value => if ← more then return value :: (← listed item more) else return [value]

/-- If another round of a loop follows, this one has taken a token. -/
def Advances (item : Production (Option α)) (more : Production Bool) (ts : List Token) : Prop :=
  ∀ value s u, item ts = .ok (some value) s → more s = .ok true u → u.length < ts.length

theorem listed_eq {item : Production (Option α)} {more : Production Bool} (h : Advances item more ts) :
    listed item more ts = unrolled item more ts := by
  rw [listed, unrolled]
  cases hitem : item ts with
  | error problem s => exact (bind_of_error hitem).symm
  | ok found s =>
    rw [bind_of_ok hitem]
    cases found with
    | none => rfl
    | some value =>
      dsimp only
      cases hmore : more s with
      | error problem u => exact (bind_of_error hmore).symm
      | ok b u =>
        rw [bind_of_ok hmore]
        cases b with
        | false => rfl
        | true =>
          dsimp only
          rw [if_pos (h value s u hitem hmore), if_pos rfl]
          cases hothers : listed item more u with
          | error problem v => exact (bind_of_error hothers).symm
          | ok values v =>
            rw [bind_of_ok hothers]
            rfl

/-- A run of a production, step by step. A token that is looked at or stepped over is there, what is cut off begins
where the production has been and ends where it stands, and no round of a loop that another one follows stands still. -/
inductive Runs : {α : Type} → Production α → List Token → Prop
  | pure (a : α) (ts : List Token) : Runs (Pure.pure a) ts
  | bind {p : Production α} {k : α → Production β} (hp : Runs p ts)
      (hk : ∀ a s, p ts = .ok a s → Runs (k a) s) : Runs (p >>= k) ts
  | throw (h : e.position = t.position) : Runs (throw e : Production α) (t :: ts)
  | tokens (ts : List Token) : Runs tokens ts
  | current (t : Token) (ts : List Token) : Runs current (t :: ts)
  | peek (n : Nat) (ts : List Token) : Runs (peek n) ts
  | advance (t : Token) (ts : List Token) : Runs advance (t :: ts)
  | skipStatement (h : Scanner.statement.Reaches () ts (statementEnd ts)) : Runs skipStatement ts
  | skipGroup (h : Scanner.group.Reaches (some 0) ts (groupEnd 0 ts)) : Runs skipGroup ts
  | splitOff (h : (Scanner.expression stop).Reaches 0 ts (splitExpression stop 0 ts).2) : Runs (Frame.splitOff stop) ts
  | positionSince (hslice : t :: ts <:+ start) : Runs (positionSince start) (t :: ts)
  /-- The text is that between two tokens of the statement, which are there. -/
  | unmodelled (hskip : Scanner.statement.Reaches () ts (statementEnd ts)) (hslice : statementEnd ts <:+ start)
      (hne : between start (statementEnd ts) ≠ []) : Runs (unmodelled script start) ts
  | listed {item : Production (Option α)} {more : Production Bool} (h : Advances item more ts)
      (hrun : Runs (unrolled item more) ts) : Runs (listed item more) ts

/-- A run moves on among the tokens, if at all, and never passes the end of the script. -/
theorem Runs.leaves {p : Production α} (h : Runs p ts) (hts : Ended ts) : Leaves ts (p ts) := by
  induction h with
  | pure => exact .ok hts List.suffix_rfl
  | bind _ _ ihp ihk => exact (ihp hts).bind ihk
  | throw h => exact .error hts List.suffix_rfl h
  | tokens => exact .ok hts List.suffix_rfl
  | current => exact .ok hts List.suffix_rfl
  | peek => exact .ok hts List.suffix_rfl
  | advance => exact .ok hts.stepOver (stepOver_suffix _)
  | skipStatement h => exact .ok (h.ended hts) h.suffix
  | skipGroup h => exact .ok (h.ended hts) h.suffix
  | splitOff h => exact .ok (h.ended hts) h.suffix
  | @positionSince t ts start =>
    show Leaves (t :: ts) ((if _ then _ else _ : Production Position) (t :: ts))
    split
    · exact .ok hts List.suffix_rfl
    · exact .ok hts List.suffix_rfl
  | unmodelled hskip => exact .ok (hskip.ended hts) hskip.suffix
  | listed h _ ih =>
    rw [listed_eq h]
    exact ih hts

/-- A production that runs over whatever is left behind `start`. -/
def RunsFrom (start : List Token) (p : Production α) : Prop := ∀ ts, Ended ts → ts <:+ start → Runs p ts

namespace RunsFrom

theorem left {p : Production α} (h : RunsFrom start p) (hts : Ended ts) (hpart : ts <:+ start) (hrun : p ts = .ok a s) :
    Ended s ∧ s <:+ ts := by
  have hleaves := (h ts hts hpart).leaves hts
  rw [hrun] at hleaves
  cases hleaves with
  | ok hs hpart => exact ⟨hs, hpart⟩

theorem pure (a : α) : RunsFrom start (Pure.pure a : Production α) := fun ts _ _ => .pure a ts

theorem bind {p : Production α} {k : α → Production β} (h : RunsFrom start p) (hk : ∀ a, RunsFrom start (k a)) :
    RunsFrom start (p >>= k) := by
  intro ts hts hpart
  refine .bind (h ts hts hpart) fun a s hrun => ?_
  obtain ⟨hs, hleft⟩ := h.left hts hpart hrun
  exact hk a s hs (hleft.trans hpart)

/-- A production that keeps in mind where it begins. -/
theorem mark {k : List Token → Production α} (hk : ∀ start, RunsFrom start (k start)) :
    RunsFrom start (tokens >>= k) := by
  intro ts hts _
  refine .bind (.tokens ts) fun a s hrun => ?_
  cases hrun
  exact hk ts ts hts List.suffix_rfl

theorem map {p : Production α} (h : RunsFrom start p) (k : α → β) : RunsFrom start (k <$> p) := by
  rw [← bind_pure_comp]
  exact h.bind fun _ => .pure _

theorem ite {p q : Production α} {c : Prop} [Decidable c] (hp : RunsFrom start p) (hq : RunsFrom start q) :
    RunsFrom start (if c then p else q) := by
  split
  · exact hp
  · exact hq

/-- A step that is taken only if `c` holds. -/
theorem step {x : Production Unit} {k : Unit → Production α} {c : Prop} [Decidable c] (hx : RunsFrom start x)
    (hk : RunsFrom start (k ())) : RunsFrom start (if c then x >>= k else k ()) :=
  ite (hx.bind fun _ => hk) hk

end RunsFrom

/-- A production that runs over the tokens from a place where there is one. -/
theorem runsFrom_of_cons {p : Production α} (h : ∀ t ts, t :: ts <:+ start → Runs p (t :: ts)) : RunsFrom start p := by
  intro ts hts hpart
  obtain ⟨t, ts, rfl⟩ := List.exists_cons_of_ne_nil hts.ne_nil
  exact h t ts hpart

-- ---------------------------------------------------------------------------
-- Looking, stepping and skipping
-- ---------------------------------------------------------------------------

theorem tokens_runs : RunsFrom start tokens := fun ts _ _ => .tokens ts

theorem current_runs : RunsFrom start current := runsFrom_of_cons fun t ts _ => .current t ts

theorem lexeme_runs : RunsFrom start lexeme := current_runs.bind fun _ => .pure _

theorem peek_runs (n : Nat) : RunsFrom start (peek n) := fun ts _ _ => .peek n ts

theorem advance_runs : RunsFrom start advance := runsFrom_of_cons fun t ts _ => .advance t ts

theorem eatIf_runs (p : Lexeme → Bool) : RunsFrom start (eatIf p) :=
  lexeme_runs.bind fun _ => .ite (advance_runs.bind fun _ => .pure _) (.pure _)

theorem eatKeyword_runs (k : Keyword) : RunsFrom start (eatKeyword k) := eatIf_runs _

theorem eatWord_runs (word : String) : RunsFrom start (eatWord word) := eatIf_runs _

theorem eat_runs (l : Lexeme) : RunsFrom start (eat l) := eatIf_runs _

theorem skipKeyword_runs (k : Keyword) : RunsFrom start (skipKeyword k) :=
  (eatKeyword_runs k).bind fun _ => .pure _

theorem skipWord_runs (word : String) : RunsFrom start (skipWord word) :=
  (eatWord_runs word).bind fun _ => .pure _

/-- A problem that is reported where the production stands. -/
theorem throw_runs (k : Token → Problem) (h : ∀ t, (k t).position = t.position) :
    RunsFrom start (do throw (k (← current)) : Production α) := by
  refine runsFrom_of_cons fun t ts _ => .bind (.current t ts) fun u s hrun => ?_
  cases hrun
  exact .throw (h t)

theorem failExpecting_runs (what : String) : RunsFrom start (failExpecting what : Production α) :=
  throw_runs _ fun _ => rfl

theorem expectKeyword_runs (k : Keyword) : RunsFrom start (expectKeyword k) :=
  (eatKeyword_runs k).bind fun _ => .ite (failExpecting_runs _) (.pure _)

theorem expect_runs (l : Lexeme) (what : String) : RunsFrom start (expect l what) :=
  (eat_runs l).bind fun _ => .ite (failExpecting_runs _) (.pure _)

theorem skipStatement_runs : RunsFrom start skipStatement := fun _ hts _ => .skipStatement (reaches_statementEnd hts)

theorem skipGroup_runs : RunsFrom start skipGroup := fun _ hts _ => .skipGroup (reaches_groupEnd hts 0)

theorem splitOff_runs (stop : List Token → Bool) : RunsFrom start (Frame.splitOff stop) :=
  fun _ hts _ => .splitOff (reaches_splitExpression hts stop 0)

theorem positionSince_runs : RunsFrom start (positionSince start) :=
  runsFrom_of_cons fun _ _ hslice => .positionSince hslice

/-- A value with the position of what it is made of. -/
theorem since_runs (k : Position → α) : RunsFrom start (do return k (← positionSince start)) :=
  positionSince_runs.bind fun _ => .pure _

/-- Behind a token that does not end the statement there is one more, where the statement ends. -/
theorem unmodelled_runs (script : List Char) (hstart : headIs Lexeme.endsStatement start = false) :
    RunsFrom start (unmodelled script start) := by
  intro ts hts hpart
  have hskip := reaches_statementEnd hts
  have hslice : statementEnd ts <:+ start := hskip.suffix.trans hpart
  refine .unmodelled hskip hslice fun hnone => ?_
  have hall := between_append hslice
  rw [hnone, List.nil_append] at hall
  rw [← hall, Frame.headIs_statementEnd] at hstart
  contradiction

end SchemaDialects.Sql
