import Mathlib.Data.List.Forall2
import SchemaDialects.Proofs.Sql.Bare
import SchemaDialects.Sql.Definition

/-!
# A script inside another

A script is read alone and as a part of a longer one, in which it is followed by a semicolon or by the
end. `Frame.Related` says that a production stands at the same place of both, `Frame.Agree` that it gives
the same value up to positions and again stands at the same place of both, or has failed there
in both; `Frame.Sim` is this for every place. It is closed under everything productions are made of, but
for one thing: the grammar steps over whatever follows some tokens (`Lexeme.takesNext`), and
over the semicolon too. So none of these may be the last token of the script, unless the longer one
ends with it.
-/

namespace SchemaDialects.Sql

open Production Text

-- ---------------------------------------------------------------------------
-- Places in two scripts
-- ---------------------------------------------------------------------------

/-- Whether the grammar may step over the token behind this one, whatever it is. -/
def Lexeme.takesNext (l : Lexeme) : Bool :=
  l.isKeyword .ON || l.isKeyword .USING || l.isKeyword .NO || l.isWord "nulls" ||
    l.isWord "match" || l.isWord "initially"

/-- A script, what stands around it in a longer one, and the tokens behind it in both. -/
structure Frame where
  script : List Char
  front : List Char
  back : List Char
  last : Token
  next : Token
  rest : List Token
  last_finish : last.lexeme = .finish
  next_ends : next.lexeme.endsStatement = true

namespace Frame

variable {F : Frame}

/-- The longer script. -/
def whole (F : Frame) : List Char := F.front ++ F.script ++ F.back

/-- One token in both scripts. -/
structure Alike (F : Frame) (t t' : Token) : Prop where
  bare : t.bare = t'.bare
  start : t'.position.offset.start = byteLength F.front + t.position.offset.start
  stop : t'.position.offset.stop = byteLength F.front + t.position.offset.stop
  begins : ∃ before behind, F.script = before ++ behind ∧
    t.position.offset.start = byteLength before
  ends : t.position.offset.stop ≤ byteLength F.script

theorem Alike.lexeme (h : F.Alike t t') : t.lexeme = t'.lexeme :=
  show t.bare.lexeme = t'.bare.lexeme from congrArg Token.lexeme h.bare

/-- One place in both scripts, given by the tokens behind it. -/
inductive Related (F : Frame) : List Token → List Token → Prop
  | ended : F.Related [F.last] (F.next :: F.rest)
  | token (ht : F.Alike t t') (hfinish : t.lexeme ≠ .finish)
      (hnext : t.lexeme.takesNext = true → ts = [F.last] → F.rest = [])
      (hs : F.Related ts ts') : F.Related (t :: ts) (t' :: ts')

theorem Related.length (h : F.Related ts ts') : ts'.length = ts.length + F.rest.length := by
  induction h with
  | ended => rw [List.length_cons, List.length_singleton, Nat.add_comm]
  | token _ _ _ _ ih => rw [List.length_cons, List.length_cons, ih, Nat.add_right_comm]

theorem Related.ne_nil (h : F.Related ts ts') : ts ≠ [] ∧ ts' ≠ [] := by
  cases h with
  | ended => exact ⟨List.cons_ne_nil _ _, List.cons_ne_nil _ _⟩
  | token => exact ⟨List.cons_ne_nil _ _, List.cons_ne_nil _ _⟩

/-- What a production gives in both scripts: values that `f` does not tell apart, or failures. What
is left then is the end of `all`. -/
inductive Agree (F : Frame) (f : α → β) (all : List Token) :
    EStateM.Result Problem (List Token) α → EStateM.Result Problem (List Token) α → Prop
  | ok (ha : f a = f a') (hs : F.Related s s') (hpart : s <:+ all) :
      F.Agree f all (.ok a s) (.ok a' s')
  | error (hs : F.Related s s') (hpart : s <:+ all) :
      F.Agree f all (.error e s) (.error e' s')

/-- A production does the same at every place of both scripts. -/
def Sim (F : Frame) (f : α → β) (p p' : Production α) : Prop :=
  ∀ ts ts', F.Related ts ts' → F.Agree f ts (p ts) (p' ts')

theorem Agree.mono (h : F.Agree f all r r') (hall : all <:+ more) : F.Agree f more r r' := by
  cases h with
  | ok ha hs hn => exact .ok ha hs (hn.trans hall)
  | error hs hn => exact .error hs (hn.trans hall)

/-- A production that is come to with fewer tokens left. -/
theorem Sim.from {p p' : Production α} (h : F.Sim f p p') (hs : F.Related s s') (hpart : s <:+ all) :
    F.Agree f all (p s) (p' s') :=
  (h s s' hs).mono hpart

/-- At one place, a production followed by another. -/
theorem Agree.bind {p p' : Production α} {k k' : α → Production γ} (h : F.Agree f all (p ts) (p' ts'))
    (hk : ∀ a a', f a = f a' → F.Sim g (k a) (k' a')) :
    F.Agree g all ((p >>= k) ts) ((p' >>= k') ts') := by
  show F.Agree g all (EStateM.bind p k ts) (EStateM.bind p' k' ts')
  unfold EStateM.bind
  generalize p ts = r at h ⊢
  generalize p' ts' = r' at h ⊢
  cases h with
  | ok ha hs hpart => exact (hk _ _ ha _ _ hs).mono hpart
  | error hs hpart => exact .error hs hpart

namespace Sim

theorem pure (h : f a = f a') : F.Sim f (Pure.pure a) (Pure.pure a') :=
  fun _ _ hs => .ok h hs List.suffix_rfl

theorem bind {p p' : Production α} {k k' : α → Production γ} (h : F.Sim f p p')
    (hk : ∀ a a', f a = f a' → F.Sim g (k a) (k' a')) : F.Sim g (p >>= k) (p' >>= k') :=
  fun ts ts' hs => (h ts ts' hs).bind hk

/-- For a value that both scripts give. -/
theorem bindSame {p p' : Production α} {k k' : α → Production γ} (h : F.Sim id p p')
    (hk : ∀ a, F.Sim g (k a) (k' a)) : F.Sim g (p >>= k) (p' >>= k') :=
  h.bind fun a a' (ha : a = a') => ha ▸ hk a

theorem map {p p' : Production α} {k : α → γ} (h : F.Sim f p p')
    (hk : ∀ a a', f a = f a' → g (k a) = g (k a')) : F.Sim g (k <$> p) (k <$> p') := by
  have heq : ∀ p : Production α, k <$> p = p >>= fun a => Pure.pure (k a) :=
    fun p => (bind_pure_comp k p).symm
  rw [heq, heq]
  exact h.bind fun a a' ha => .pure (hk a a' ha)

theorem ite {p p' q q' : Production α} {c : Prop} [Decidable c] (hp : F.Sim f p p') (hq : F.Sim f q q') :
    F.Sim f (if c then p else q) (if c then p' else q') := by
  split
  · exact hp
  · exact hq

/-- For the tokens that are left. -/
theorem tokens {k k' : List Token → Production α}
    (hk : ∀ ts ts', F.Related ts ts' → F.Sim f (k ts) (k' ts')) :
    F.Sim f (Production.tokens >>= k) (Production.tokens >>= k') :=
  fun ts ts' hs => hk ts ts' hs ts ts' hs

/-- A step that is taken only if `c` holds. -/
theorem step {x x' : Production Unit} {k k' : Unit → Production α} {c : Prop} [Decidable c]
    (hx : F.Sim id x x') (hk : F.Sim f (k ()) (k' ())) :
    F.Sim f (if c then x >>= k else k ()) (if c then x' >>= k' else k' ()) :=
  ite (hx.bindSame fun _ => hk) hk

end Sim

-- ---------------------------------------------------------------------------
-- Looking and stepping
-- ---------------------------------------------------------------------------

/-- A question about a token that the end of a statement answers with no. -/
def Inside (p : Lexeme → Bool) : Prop :=
  p .semicolon = false ∧ p .finish = false

theorem Inside.ends (h : Inside p) (hl : l.endsStatement = true) : p l = false := by
  cases l <;> first | exact h.1 | exact h.2 | contradiction

theorem last_ends (F : Frame) : F.last.lexeme.endsStatement = true := by
  rw [F.last_finish]
  rfl

theorem headIs_eq (hp : Inside p) (h : F.Related ts ts') : headIs p ts = headIs p ts' := by
  cases h with
  | ended =>
    show p F.last.lexeme = p F.next.lexeme
    rw [hp.ends F.last_ends, hp.ends F.next_ends]
  | token ht => exact congrArg p ht.lexeme

/-- A question about the current token that only a token of the script answers with yes. -/
theorem Related.of_headIs (hp : Inside p) (h : F.Related ts ts') (hhead : headIs p ts = true) :
    ∃ t t' s s', ts = t :: s ∧ ts' = t' :: s' ∧ F.Alike t t' ∧ F.Related s s' ∧ p t.lexeme = true := by
  cases h with
  | ended => exact absurd (hp.ends F.last_ends) (Bool.eq_false_iff.not_left.mpr hhead)
  | token ht _ _ hs => exact ⟨_, _, _, _, rfl, rfl, ht, hs, hhead⟩

theorem stepOver_cons (t : Token) (hne : s ≠ []) : stepOver (t :: s) = s := by
  cases s with
  | nil => exact absurd rfl hne
  | cons => rfl

theorem Agree.advance {k k' : Unit → Production α} (hs : F.Related s s')
    (hk : F.Agree f all (k () s) (k' () s')) :
    F.Agree f all ((advance >>= k) (t :: s)) ((advance >>= k') (t' :: s')) := by
  show F.Agree f all (k () (stepOver (t :: s))) (k' () (stepOver (t' :: s')))
  rwa [stepOver_cons t hs.ne_nil.1, stepOver_cons t' hs.ne_nil.2]

theorem Agree.over {p p' : Production α} (hs : F.Related s s') (hp : F.Sim f p p') :
    F.Agree f (t :: s) ((do Production.advance; p) (t :: s)) ((do Production.advance; p') (t' :: s')) :=
  .advance hs (hp.from hs (List.suffix_cons _ _))

theorem lexeme_bind (k : Lexeme → Production α) (t : Token) (s : List Token) :
    (lexeme >>= k) (t :: s) = k t.lexeme (t :: s) := rfl

/-- A production that looks at the current token. The two ends of a statement look alike to it. -/
theorem Sim.lexeme {k k' : Lexeme → Production α} (hk : k .semicolon = k .finish)
    (hk' : k' .semicolon = k' .finish) (h : ∀ l, F.Sim f (k l) (k' l)) :
    F.Sim f (Production.lexeme >>= k) (Production.lexeme >>= k') := by
  intro ts ts' hs
  have hends : ∀ l, l.endsStatement = true → k l = k .finish ∧ k' l = k' .finish := by
    intro l hl
    cases l <;> first | contradiction | exact ⟨hk, hk'⟩ | exact ⟨rfl, rfl⟩
  have hall := h .finish ts ts' hs
  cases hs with
  | ended =>
    show F.Agree f _ (k F.last.lexeme _) (k' F.next.lexeme _)
    rwa [(hends _ F.last_ends).1, (hends _ F.next_ends).2]
  | @token t t' ts ts' ht hfinish hnext hs =>
    show F.Agree f _ (k t.lexeme (t :: ts)) (k' t'.lexeme (t' :: ts'))
    rw [← ht.lexeme]
    exact h t.lexeme _ _ (.token ht hfinish hnext hs)

/-- The same for one that steps over the token. -/
theorem Sim.look {k k' : Lexeme → Production α} (hk' : k' .semicolon = k' .finish)
    (hend : F.Sim f (k .finish) (k' .finish))
    (htoken : ∀ t t' s s', F.Alike t t' → F.Related (t :: s) (t' :: s') → F.Related s s' →
      F.Agree f (t :: s) (k t.lexeme (t :: s)) (k' t.lexeme (t' :: s'))) :
    F.Sim f (Production.lexeme >>= k) (Production.lexeme >>= k') := by
  intro ts ts' hs
  have hnext : k' F.next.lexeme = k' .finish := by
    have hends := F.next_ends
    cases hl : F.next.lexeme <;> first | rfl | exact hk' | simp [hl, Lexeme.endsStatement] at hends
  have hall := hend ts ts' hs
  cases hs with
  | ended =>
    show F.Agree f _ (k F.last.lexeme _) (k' F.next.lexeme _)
    rwa [F.last_finish, hnext]
  | @token t t' ts ts' ht hfinish htakes hs =>
    show F.Agree f _ (k t.lexeme (t :: ts)) (k' t'.lexeme (t' :: ts'))
    rw [← ht.lexeme]
    exact htoken _ _ _ _ ht (.token ht hfinish htakes hs) hs

/-- The same at a place that is known to have a token. -/
theorem Agree.lexeme {k k' : Lexeme → Production α} (ht : F.Alike t t')
    (h : F.Agree f all (k t.lexeme (t :: s)) (k' t.lexeme (t' :: s'))) :
    F.Agree f all ((Production.lexeme >>= k) (t :: s)) ((Production.lexeme >>= k') (t' :: s')) := by
  rwa [lexeme_bind, lexeme_bind, ← ht.lexeme]

/-- Behind a token of both scripts there is another one. -/
def Further (F : Frame) (s s' : List Token) : Prop :=
  ∃ u u' v v', s = u :: v ∧ s' = u' :: v' ∧ F.Related v v'

theorem Agree.advanceBoth {k k' : Production α} (hs : F.Related s s') (h : F.Further s s')
    (hk : F.Sim f k k') :
    F.Agree f (t :: s) ((do Production.advance; Production.advance; k) (t :: s))
      ((do Production.advance; Production.advance; k') (t' :: s')) := by
  obtain ⟨u, u', v, v', rfl, rfl, hv⟩ := h
  exact .advance hs (.advance hv (hk.from hv ⟨[_, _], rfl⟩))

/-- A production that looks at the token behind the current one. It may step over it. -/
theorem Agree.peek {k k' : Lexeme → Production α} (hk' : k' .semicolon = k' .finish)
    (hs : F.Related s s')
    (h : ∀ second, (second ≠ .finish → F.Further s s') →
      F.Agree f all (k second (t :: s)) (k' second (t' :: s'))) :
    F.Agree f all ((Production.peek 1 >>= k) (t :: s)) ((Production.peek 1 >>= k') (t' :: s')) := by
  cases hs with
  | ended =>
    have hnext : k' F.next.lexeme = k' .finish := by
      have hends := F.next_ends
      cases hl : F.next.lexeme <;>
        first | rfl | exact hk' | simp [hl, Lexeme.endsStatement] at hends
    show F.Agree f all (k F.last.lexeme _) (k' F.next.lexeme _)
    rw [F.last_finish, hnext]
    exact h .finish fun hfinish => absurd rfl hfinish
  | @token u u' v v' hu _ _ hv =>
    show F.Agree f all (k u.lexeme _) (k' u'.lexeme _)
    rw [← hu.lexeme]
    exact h u.lexeme fun _ => ⟨u, u', v, v', rfl, rfl, hv⟩

-- ---------------------------------------------------------------------------
-- Looking ahead
-- ---------------------------------------------------------------------------

/-- Whether the first tokens satisfy the questions, one after the other. -/
def begins : List (Lexeme → Bool) → List Token → Bool
  | [], _ => true
  | p :: ps, ts => headIs p ts && begins ps ts.tail

theorem begins_eq (hps : ∀ p ∈ ps, Inside p) (h : F.Related ts ts') : begins ps ts = begins ps ts' := by
  induction ps generalizing ts ts' with
  | nil => rfl
  | cons p ps ih =>
    obtain ⟨hp, hps⟩ := List.forall_mem_cons.mp hps
    rw [begins, begins, headIs_eq hp h]
    cases h with
    | ended =>
      have hno : headIs p (F.next :: F.rest) = false := hp.ends F.next_ends
      rw [hno, Bool.false_and, Bool.false_and]
    | token _ _ _ hs => rw [List.tail_cons, List.tail_cons, ih hps hs]

theorem Related.of_begins (hp : Inside p) (h : F.Related ts ts') (hbegins : begins (p :: ps) ts = true) :
    ∃ t t' s s', ts = t :: s ∧ ts' = t' :: s' ∧ F.Alike t t' ∧ F.Related s s' ∧ p t.lexeme = true ∧
      begins ps s = true := by
  obtain ⟨hhead, hmore⟩ := Bool.and_eq_true_iff.mp hbegins
  obtain ⟨t, t', s, s', rfl, rfl, ht, hs, hlexeme⟩ := h.of_headIs hp hhead
  exact ⟨t, t', s, s', rfl, rfl, ht, hs, hlexeme, hmore⟩

/-- What `peek` looks at. -/
theorem headIs_drop (p : Lexeme → Bool) (n : Nat) (ts : List Token) :
    headIs p (ts.drop n) = p ((ts[n]?.map (·.lexeme)).getD .finish) := by
  rw [headIs, List.headD_eq_head?_getD, List.head?_drop]
  cases ts[n]? <;> rfl

-- ---------------------------------------------------------------------------
-- Eating
-- ---------------------------------------------------------------------------

theorem eatIf_of_true (h : p t.lexeme = true) (hne : s ≠ []) : eatIf p (t :: s) = .ok true s := by
  show (if p t.lexeme then do advance; return true else return false : Production Bool) (t :: s) = _
  rw [if_pos h]
  show EStateM.Result.ok true (stepOver (t :: s)) = _
  rw [stepOver_cons t hne]

theorem eatIf_of_false (h : headIs p ts = false) : eatIf p ts = .ok false ts := by
  show (if headIs p ts then do advance; return true else return false : Production Bool) ts = _
  rw [if_neg (Bool.eq_false_iff.mp h)]
  rfl

/-- What follows an optional token. -/
theorem eatIf_bind (k : Bool → Production α) (ts : List Token) :
    (eatIf p >>= k) ts = (if headIs p ts then advance >>= fun _ => k true else k false) ts := by
  show ((if headIs p ts then do advance; return true else return false : Production Bool) >>= k) ts = _
  split
  · rfl
  · rfl

theorem eatIf_sim (hp : Inside p) : F.Sim id (eatIf p) (eatIf p) := by
  intro ts ts' h
  have hsame := headIs_eq hp h
  cases hhead : headIs p ts with
  | true =>
    obtain ⟨t, t', s, s', rfl, rfl, ht, hs, hyes⟩ := h.of_headIs hp hhead
    rw [eatIf_of_true hyes hs.ne_nil.1, eatIf_of_true (ht.lexeme ▸ hyes) hs.ne_nil.2]
    exact .ok rfl hs (List.suffix_cons _ _)
  | false =>
    rw [eatIf_of_false hhead, eatIf_of_false (hsame ▸ hhead)]
    exact .ok rfl h List.suffix_rfl

/-- Stepping over whatever follows a token that takes it. -/
theorem stepOver_related (h : F.Related (t :: s) (t' :: s')) (hs : F.Related s s')
    (ht : t.lexeme.takesNext = true) :
    F.Related (stepOver s) (stepOver s') ∧ stepOver s <:+ s := by
  cases hs with
  | ended =>
    have hrest : F.rest = [] := by
      cases h with
      | token _ _ hnext _ => exact hnext ht rfl
    have hend : F.Related [F.last] (F.next :: F.rest) := .ended
    rw [hrest] at hend ⊢
    exact ⟨hend, List.suffix_rfl⟩
  | @token u u' s s' hu hfinish hnext hs =>
    rw [stepOver_cons u hs.ne_nil.1, stepOver_cons u' hs.ne_nil.2]
    exact ⟨hs, List.suffix_cons _ _⟩

theorem Agree.advanceTwice {k k' : Production α} (h : F.Related (t :: s) (t' :: s'))
    (hs : F.Related s s') (ht : t.lexeme.takesNext = true) (hk : F.Sim f k k') :
    F.Agree f (t :: s) ((do Production.advance; Production.advance; k) (t :: s))
      ((do Production.advance; Production.advance; k') (t' :: s')) := by
  obtain ⟨hnext, hpart⟩ := stepOver_related h hs ht
  refine .advance hs ?_
  show F.Agree f _ (k (stepOver s)) (k' (stepOver s'))
  exact hk.from hnext (hpart.trans (List.suffix_cons _ _))

/-- A token that takes the next one, and that one. -/
theorem eatIf_takes {k k' : Unit → Production α} (hp : Inside p)
    (htakes : ∀ l, p l = true → l.takesNext = true) (hk : F.Sim f (k ()) (k' ())) :
    F.Sim f (do if ← eatIf p then advance >>= k else k ())
      (do if ← eatIf p then advance >>= k' else k' ()) := by
  intro ts ts' h
  have hsame := headIs_eq hp h
  show F.Agree f _ (EStateM.bind (eatIf p) _ ts) (EStateM.bind (eatIf p) _ ts')
  unfold EStateM.bind
  cases hhead : headIs p ts with
  | true =>
    obtain ⟨t, t', s, s', rfl, rfl, ht, hs, hyes⟩ := h.of_headIs hp hhead
    rw [eatIf_of_true hyes hs.ne_nil.1, eatIf_of_true (ht.lexeme ▸ hyes) hs.ne_nil.2]
    obtain ⟨hnext, hpart⟩ := stepOver_related h hs (htakes _ hyes)
    exact hk.from hnext (hpart.trans (List.suffix_cons _ _))
  | false =>
    rw [eatIf_of_false hhead, eatIf_of_false (hsame ▸ hhead)]
    exact hk _ _ h

theorem inside_keyword (k : Keyword) : Inside (·.isKeyword k) := ⟨rfl, rfl⟩

theorem inside_word (word : String) : Inside (·.isWord word) := ⟨rfl, rfl⟩

theorem eatKeyword_sim (k : Keyword) : F.Sim id (eatKeyword k) (eatKeyword k) :=
  eatIf_sim (inside_keyword k)

theorem eatWord_sim (word : String) : F.Sim id (eatWord word) (eatWord word) :=
  eatIf_sim (inside_word word)

theorem eat_sim (hl : l.endsStatement = false) : F.Sim id (eat l) (eat l) := by
  refine eatIf_sim ⟨decide_eq_false ?_, decide_eq_false ?_⟩
  all_goals
    rintro rfl
    exact Bool.noConfusion hl

theorem skipKeyword_sim (k : Keyword) : F.Sim id (skipKeyword k) (skipKeyword k) :=
  (eatKeyword_sim k).bindSame fun _ => .pure rfl

theorem skipWord_sim (word : String) : F.Sim id (skipWord word) (skipWord word) :=
  (eatWord_sim word).bindSame fun _ => .pure rfl

theorem failExpecting_sim (f : α → β) (what : String) :
    F.Sim f (failExpecting what) (failExpecting what) :=
  fun _ _ h => .error h List.suffix_rfl

theorem expectKeyword_sim (k : Keyword) : F.Sim id (expectKeyword k) (expectKeyword k) :=
  (eatKeyword_sim k).bindSame fun b => by
    cases b with
    | false => exact failExpecting_sim id k.text
    | true => exact .pure rfl

theorem expect_sim (hl : l.endsStatement = false) (what : String) :
    F.Sim id (expect l what) (expect l what) :=
  (eat_sim hl).bindSame fun b => by
    cases b with
    | false => exact failExpecting_sim id what
    | true => exact .pure rfl

/-- Nothing is said of positions. -/
theorem positionSince_sim (start start' : List Token) :
    F.Sim (fun _ => ()) (positionSince start) (positionSince start') := by
  intro ts ts' h
  have hkeeps : ∀ start ts, ∃ position, positionSince start ts = .ok position ts := by
    intro start ts
    show ∃ position, (if (between start ts).isEmpty then _ else _ : Production Position) ts = _
    split
    · exact ⟨_, rfl⟩
    · exact ⟨_, rfl⟩
  obtain ⟨_, hleft⟩ := hkeeps start ts
  obtain ⟨_, hright⟩ := hkeeps start' ts'
  rw [hleft, hright]
  exact .ok rfl h List.suffix_rfl

-- ---------------------------------------------------------------------------
-- Repetition
-- ---------------------------------------------------------------------------

/-- Optional values that a function does not tell apart. -/
theorem option_cases {o o' : Option α} {f : α → β} (h : o.map f = o'.map f) :
    (o = none ∧ o' = none) ∨ ∃ a a', o = some a ∧ o' = some a' ∧ f a = f a' := by
  cases o with
  | none => exact .inl ⟨rfl, Option.map_eq_none_iff.mp h.symm⟩
  | some a =>
    obtain ⟨a', rfl, ha⟩ := Option.map_eq_some_iff.mp h.symm
    exact .inr ⟨a, a', rfl, rfl, ha.symm⟩

theorem listed_sim {item item' : Production (Option α)} {more more' : Production Bool}
    (hitem : F.Sim (Option.map f) item item') (hmore : F.Sim id more more') :
    F.Sim (List.map f) (listed item more) (listed item' more') := by
  intro ts
  induction hm : ts.length using Nat.strongRecOn generalizing ts with
  | ind m ih =>
    subst hm
    intro ts' h
    have hfirst := hitem ts ts' h
    rw [listed, listed]
    generalize item ts = r at hfirst ⊢
    generalize item' ts' = r' at hfirst ⊢
    cases hfirst with
    | error hs hpart => exact .error hs hpart
    | @ok a a' s s' ha hs hpart =>
      obtain ⟨rfl, rfl⟩ | ⟨value, value', rfl, rfl, hvalue⟩ := option_cases ha
      · exact .ok rfl hs hpart
      · dsimp only
        have hsep := hmore s s' hs
        generalize more s = r at hsep ⊢
        generalize more' s' = r' at hsep ⊢
        cases hsep with
        | error hs hn => exact .error hs (hn.trans hpart)
        | @ok b b' u u' hb hu hn =>
          obtain rfl : b = b' := hb
          have hone : List.map f [value] = List.map f [value'] := by simp [hvalue]
          cases b with
          | false => exact .ok hone hu (hn.trans hpart)
          | true =>
            have hlength : u'.length < ts'.length ↔ u.length < ts.length := by
              rw [hu.length, h.length]
              omega
            simp only [hlength]
            split
            · next hlt =>
              have hothers := ih _ hlt u rfl u' hu
              generalize listed item more u = r at hothers ⊢
              generalize listed item' more' u' = r' at hothers ⊢
              cases hothers with
              | error hs hk => exact .error hs (hk.trans (hn.trans hpart))
              | ok hvalues hs hk =>
                refine .ok ?_ hs (hk.trans (hn.trans hpart))
                rw [List.map_cons, List.map_cons, hvalue, hvalues]
            · exact .ok hone hu (hn.trans hpart)

theorem separated_sim {item item' : Production α} (hitem : F.Sim f item item')
    (hmore : F.Sim id more more') :
    F.Sim (List.map f) (separated item more) (separated item' more') :=
  listed_sim (hitem.map fun _ _ ha => congrArg some ha) hmore

theorem repeated_sim {item item' : Production (Option α)} (hitem : F.Sim (Option.map f) item item') :
    F.Sim (List.map f) (repeated item) (repeated item') :=
  listed_sim hitem (.pure rfl)

theorem commaSeparated_sim {item item' : Production α} (hitem : F.Sim f item item') :
    F.Sim (List.map f) (commaSeparated item) (commaSeparated item') :=
  separated_sim hitem (eat_sim rfl)

theorem introduced_sim {item item' : Production α} (k : Keyword) (hitem : F.Sim f item item') :
    F.Sim (Option.map f) (introduced k item) (introduced k item') :=
  (eatKeyword_sim k).bindSame fun b => by
    cases b with
    | false => exact .pure rfl
    | true => exact hitem.bind fun _ _ ha => .pure (congrArg some ha)

-- ---------------------------------------------------------------------------
-- Skipping
-- ---------------------------------------------------------------------------

/-- Tokens are left alone up to some place of the script. -/
theorem modify_sim {g : List Token → List Token}
    (h : ∀ ts ts', F.Related ts ts' → F.Related (g ts) (g ts') ∧ g ts <:+ ts) :
    F.Sim id (modify g : Production Unit) (modify g) :=
  fun ts ts' hs => .ok rfl (h ts ts' hs).1 (h ts ts' hs).2

theorem headIs_statementEnd (ts : List Token) : headIs Lexeme.endsStatement (statementEnd ts) = true := by
  induction ts with
  | nil => rfl
  | cons t ts ih =>
    rw [statementEnd]
    split
    · assumption
    · exact ih

theorem statementEnd_related (h : F.Related ts ts') :
    F.Related (statementEnd ts) (statementEnd ts') ∧ statementEnd ts <:+ ts := by
  induction h with
  | ended =>
    rw [statementEnd, if_pos F.last_ends, statementEnd, if_pos F.next_ends]
    exact ⟨.ended, List.suffix_rfl⟩
  | @token t t' ts ts' ht hfinish hnext hs ih =>
    rw [statementEnd, statementEnd, ← ht.lexeme]
    split
    · exact ⟨.token ht hfinish hnext hs, List.suffix_rfl⟩
    · exact ⟨ih.1, ih.2.trans (List.suffix_cons _ _)⟩

theorem skipStatement_sim : F.Sim id skipStatement skipStatement :=
  modify_sim fun _ _ => statementEnd_related

theorem groupEnd_stops (hl : t.lexeme.endsStatement = true) (depth : Nat) :
    groupEnd depth (t :: ts) = t :: ts := by
  rw [groupEnd]
  split <;> simp_all [Lexeme.endsStatement]

theorem groupEnd_related (h : F.Related ts ts') (depth : Nat) :
    F.Related (groupEnd depth ts) (groupEnd depth ts') ∧ groupEnd depth ts <:+ ts := by
  induction h generalizing depth with
  | ended =>
    rw [groupEnd_stops F.last_ends, groupEnd_stops F.next_ends]
    exact ⟨.ended, List.suffix_rfl⟩
  | @token t t' ts ts' ht hfinish hnext hs ih =>
    have hlonger : ∀ depth, groupEnd depth ts <:+ t :: ts :=
      fun depth => (ih depth).2.trans (List.suffix_cons _ _)
    rw [groupEnd, groupEnd, ← ht.lexeme]
    split
    · exact ⟨(ih _).1, hlonger _⟩
    · split
      · exact ⟨hs, List.suffix_cons _ _⟩
      · exact ⟨(ih _).1, hlonger _⟩
    · exact ⟨.token ht hfinish hnext hs, List.suffix_rfl⟩
    · exact ⟨.token ht hfinish hnext hs, List.suffix_rfl⟩
    · exact ⟨(ih _).1, hlonger _⟩

theorem skipGroup_sim : F.Sim id skipGroup skipGroup :=
  modify_sim fun _ _ h => groupEnd_related h 0

-- ---------------------------------------------------------------------------
-- Names
-- ---------------------------------------------------------------------------

theorem identifier?_of_ends {t : Token} (h : t.lexeme.endsStatement = true) : identifier? t = none := by
  rw [identifier?]
  split <;> simp_all [Lexeme.endsStatement]

theorem identifier?_bare (t : Token) : identifier? t.bare = (identifier? t).map Identifier.bare := by
  cases hl : t.lexeme <;> simp [identifier?, Token.bare, hl, Identifier.bare]
  split <;> rfl

theorem bare_identifier? (h : F.Alike t t') :
    (identifier? t).map Identifier.bare = (identifier? t').map Identifier.bare := by
  rw [← identifier?_bare, ← identifier?_bare, h.bare]

theorem identifier?_isSome {t : Token} (h : t.lexeme.isNameLike = true) : (identifier? t).isSome = true := by
  cases hl : t.lexeme <;> simp_all [identifier?, Lexeme.isNameLike, Lexeme.isName]

theorem ident_cons (what : String) (t : Token) (s : List Token) :
    ident what (t :: s) = ((identifier? t).elim (failExpecting what) fun i => do advance; return i) (t :: s) := by
  have hrun (step : Token → Production Identifier) : (current >>= step) (t :: s) = step t (t :: s) := rfl
  rw [ident, hrun]
  cases identifier? t <;> rfl

theorem ident_of_identifier? (h : identifier? t = some i) (hne : s ≠ []) (what : String) :
    ident what (t :: s) = .ok i s := by
  rw [ident_cons, h]
  cases s with
  | nil => exact absurd rfl hne
  | cons => rfl

theorem ident_of_none (h : identifier? t = none) (what : String) :
    ident what (t :: s) = (failExpecting what : Production Identifier) (t :: s) := by
  rw [ident_cons, h]
  rfl

theorem ident_sim (what : String) : F.Sim Identifier.bare (ident what) (ident what) := by
  intro ts ts' h
  have hfail : F.Agree Identifier.bare ts _ _ := failExpecting_sim Identifier.bare what ts ts' h
  cases h with
  | ended =>
    rw [ident_of_none (identifier?_of_ends F.last_ends), ident_of_none (identifier?_of_ends F.next_ends)]
    exact hfail
  | @token t t' s s' ht _ _ hs =>
    obtain ⟨hi, hi'⟩ | ⟨i, i', hi, hi', hbare⟩ := option_cases (bare_identifier? ht)
    · rw [ident_of_none hi, ident_of_none hi']
      exact hfail
    · rw [ident_of_identifier? hi hs.ne_nil.1, ident_of_identifier? hi' hs.ne_nil.2]
      exact .ok hbare hs (List.suffix_cons _ _)

theorem someIdent_sim (what : String) : F.Sim (Option.map Identifier.bare)
    (some <$> ident what : Production (Option Identifier)) (some <$> ident what) :=
  (ident_sim what).map fun _ _ h => congrArg some h

/-- A name that is there is stepped over. -/
theorem ident_bind {k k' : Identifier → Production α} (ht : F.Alike t t')
    (hname : t.lexeme.isNameLike = true) (hs : F.Related s s')
    (hk : ∀ i i', i.bare = i'.bare → F.Agree f all (k i s) (k' i' s')) :
    F.Agree f all ((ident what >>= k) (t :: s)) ((ident what >>= k') (t' :: s')) := by
  show F.Agree f all (EStateM.bind (ident what) k (t :: s)) (EStateM.bind (ident what) k' (t' :: s'))
  obtain ⟨hi, -⟩ | ⟨i, i', hi, hi', hbare⟩ := option_cases (bare_identifier? ht)
  · have hsome := identifier?_isSome hname
    rw [hi] at hsome
    contradiction
  · rw [EStateM.bind, EStateM.bind, ident_of_identifier? hi hs.ne_nil.1,
      ident_of_identifier? hi' hs.ne_nil.2]
    exact hk i i' hbare

theorem qualifiedName_sim (what : String) :
    F.Sim QualifiedName.bare (qualifiedName what) (qualifiedName what) :=
  (separated_sim (ident_sim what) (eat_sim rfl)).bind fun _ _ h => .pure (congrArg QualifiedName.mk h)

theorem ifNotExists_sim : F.Sim id ifNotExists ifNotExists :=
  (eatKeyword_sim .IF).bindSame fun b => by
    cases b with
    | false => exact .pure rfl
    | true =>
      exact (expectKeyword_sim .NOT).bindSame fun _ => (expectKeyword_sim .EXISTS).bindSame fun _ => .pure rfl

theorem identList_sim : F.Sim (List.map Identifier.bare) identList identList := by
  refine (expect_sim rfl _).bindSame fun _ => separated_sim ?_ ?_
  · refine (ident_sim _).bind fun i i' hi => .lexeme rfl rfl fun l => ?_
    refine .step skipGroup_sim ((eatKeyword_sim .ASC).bindSame fun b => ?_)
    exact .step (skipKeyword_sim .DESC) (.pure hi)
  · refine .look rfl (failExpecting_sim id _) fun t t' s s' ht h hs => ?_
    generalize t.lexeme = l
    split
    · exact .over hs (.pure rfl)
    · exact .over hs (.pure rfl)
    · exact failExpecting_sim id _ _ _ h

-- ---------------------------------------------------------------------------
-- Expressions
-- ---------------------------------------------------------------------------

theorem splitExpression_ends {stop : List Token → Bool} (ht : t.lexeme.endsStatement = true)
    (depth : Nat) : splitExpression stop depth (t :: ts) = ([], t :: ts) := by
  rw [splitExpression]
  split <;> simp_all [Lexeme.endsStatement]

theorem splitExpression_related {stop stop' : List Token → Bool}
    (hstop : ∀ ts ts', F.Related ts ts' → stop ts = stop' ts') (h : F.Related ts ts') (depth : Nat) :
    (splitExpression stop depth ts).1.map Token.bare = (splitExpression stop' depth ts').1.map Token.bare ∧
      F.Related (splitExpression stop depth ts).2 (splitExpression stop' depth ts').2 ∧
      (splitExpression stop depth ts).2 <:+ ts := by
  induction h generalizing depth with
  | ended =>
    rw [splitExpression_ends F.last_ends, splitExpression_ends F.next_ends]
    exact ⟨rfl, .ended, List.suffix_rfl⟩
  | @token t t' ts ts' ht hfinish hnext hs ih =>
    have hall : F.Related (t :: ts) (t' :: ts') := .token ht hfinish hnext hs
    have hinside : ∀ depth, (t :: (splitExpression stop depth ts).1).map Token.bare =
        (t' :: (splitExpression stop' depth ts').1).map Token.bare := fun depth => by
      rw [List.map_cons, List.map_cons, ht.bare, (ih depth).1]
    have hbehind : ∀ depth, (splitExpression stop depth ts).2 <:+ t :: ts :=
      fun depth => (ih depth).2.2.trans (List.suffix_cons _ _)
    rw [splitExpression, splitExpression, ← ht.lexeme, ← hstop _ _ hall]
    split
    · exact ⟨rfl, hall, List.suffix_rfl⟩
    · exact ⟨rfl, hall, List.suffix_rfl⟩
    · exact ⟨hinside _, (ih _).2.1, hbehind _⟩
    · split
      · exact ⟨rfl, hall, List.suffix_rfl⟩
      · exact ⟨hinside _, (ih _).2.1, hbehind _⟩
    · split
      · exact ⟨rfl, hall, List.suffix_rfl⟩
      · exact ⟨hinside _, (ih _).2.1, hbehind _⟩

/-- Splits an expression off the tokens that are left. -/
def splitOff (stop : List Token → Bool) : Production (List Token) := do
  let (inside, behind) := splitExpression stop 0 (← get)
  set behind
  return inside

theorem splitOff_sim {stop stop' : List Token → Bool}
    (hstop : ∀ ts ts', F.Related ts ts' → stop ts = stop' ts') :
    F.Sim (List.map Token.bare) (splitOff stop) (splitOff stop') := by
  intro ts ts' h
  obtain ⟨htokens, hbehind, hpart⟩ := splitExpression_related hstop h 0
  exact .ok htokens hbehind hpart

theorem expressionTokens_sim (hstop : Inside stop) :
    F.Sim (List.map Token.bare) (expressionTokens stop) (expressionTokens stop) :=
  splitOff_sim fun _ _ => headIs_eq hstop

theorem isEmpty_congr {as bs : List Token} (h : as.map Token.bare = bs.map Token.bare) :
    as.isEmpty = bs.isEmpty := by
  simpa using congrArg List.isEmpty h

theorem expressionUntil_sim (hstop : Inside stop) (what : String) :
    F.Sim Expression.bare (expressionUntil stop what) (expressionUntil stop what) := by
  refine (expressionTokens_sim hstop).bind fun ts ts' h => ?_
  rw [isEmpty_congr h]
  exact .ite (failExpecting_sim _ what) (.pure (bare_ofTokens h))

theorem parenthesized_sim : F.Sim Expression.bare parenthesized parenthesized :=
  (expect_sim rfl _).bindSame fun _ => (expressionUntil_sim ⟨rfl, rfl⟩ _).bind fun _ _ h =>
    (expect_sim rfl _).bindSame fun _ => .pure h

end Frame

end SchemaDialects.Sql
