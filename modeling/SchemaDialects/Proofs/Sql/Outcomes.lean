import SchemaDialects.Proofs.Sql.Respelling
import SchemaDialects.Proofs.Sql.Separation
import SchemaDialects.Proofs.Sql.Spellable

/-!
# What productions give

`Frame.Gives` is a post-condition of a production: a value that it gives somewhere in a script satisfies a
predicate. That what is left then is the rest of the same script needs no proof of its own: a production that
does the same in two scripts (`Frame.Sim`) stays within them. So a post-condition is composed along `>>=`,
and parts that are of no interest are stepped over (`Frame.Gives.behind`). A script without a backslash has
none in its string literals either (`formed_of_mem_placed`).
-/

namespace SchemaDialects.Sql

open Production Text

-- ---------------------------------------------------------------------------
-- String literals
-- ---------------------------------------------------------------------------

/-- A string literal has no backslash. -/
def Piece.Formed : Piece → Prop
  | .token (.str text) => Literal text
  | _ => True

theorem formed_wordLexeme (text : String) : (Piece.token (wordLexeme text)).Formed := by
  unfold wordLexeme
  split <;> trivial

theorem Forms.formed {lexeme : Lexeme} (h : Forms c body rest lexeme) (hplain : '\\' ∉ body) :
    (Piece.token lexeme).Formed := by
  have hliteral : ∀ {content : List Char}, content ⊆ body → Literal (String.ofList content) := by
    intro content hcontent hmem
    rw [String.toList_ofList] at hmem
    exact hplain (hcontent hmem)
  cases h with
  | string hbody =>
    have hinside := hbody.subset fun hmem => hplain (List.mem_append_left _ hmem)
    exact hliteral (List.subset_append_of_subset_left _ hinside)
  | dollar => exact hliteral fun c hc => by simp [hc]
  | word => exact formed_wordLexeme _
  | _ => trivial

theorem formed_cut (hplain : '\\' ∉ cs) : (cut c cs).1.Formed := by
  cases hpiece : (cut c cs).1 with
  | gap | problem => trivial
  | token lexeme =>
    obtain ⟨body, rest, rfl, hforms, -⟩ := forms_of_cut (Prod.ext hpiece rfl)
    exact hforms.formed fun hmem => hplain (List.mem_append_left _ hmem)

/-- The end of the script is not cut from a text. -/
theorem whole_of_mem_placed (h : t ∈ placed place (tiles cut cs)) : t.Whole := by
  obtain ⟨c, rest, -, heq⟩ := mem_tiles (mem_of_mem_placed h)
  obtain ⟨hpiece, htext⟩ := Prod.mk.inj heq
  obtain ⟨hcut, hle⟩ := cut_take (Prod.ext hpiece.symm rfl : cut c rest = (.token t.lexeme, (cut c rest).2))
  exact ⟨c, _, htext, by rw [List.length_take_of_le hle]; exact hcut⟩

theorem formed_of_mem_placed (hplain : '\\' ∉ cs) (h : t ∈ placed place (tiles cut cs)) :
    (Piece.token t.lexeme).Formed := by
  obtain ⟨c, rest, hsuffix, heq⟩ := mem_tiles (mem_of_mem_placed h)
  rw [(Prod.mk.inj heq).1]
  exact formed_cut fun hc => hplain (hsuffix.subset (List.mem_cons_of_mem _ hc))

-- ---------------------------------------------------------------------------
-- Rounds of a loop
-- ---------------------------------------------------------------------------

/-- The rounds of a loop that gives `as` and leaves `u`. Where a separator takes no token, no round follows. -/
inductive Lists (item : Production (Option α)) (more : Production Bool) : List Token → List α → List Token → Prop
  | none (hitem : item ts = .ok none u) : Lists item more ts [] u
  | last (hitem : item ts = .ok (some a) s) (hmore : more s = .ok false u) : Lists item more ts [a] u
  | stuck (hitem : item ts = .ok (some a) s) (hmore : more s = .ok true u) (hlong : ¬u.length < ts.length) :
      Lists item more ts [a] u
  | next (hitem : item ts = .ok (some a) s) (hmore : more s = .ok true v) (hless : v.length < ts.length)
      (hothers : Lists item more v as u) : Lists item more ts (a :: as) u

theorem lists_of_listed {item : Production (Option α)} {more : Production Bool} (h : listed item more ts = .ok as u) :
    Lists item more ts as u := by
  induction hn : ts.length using Nat.strongRecOn generalizing ts as u with
  | ind n ih =>
    subst hn
    rw [listed] at h
    split at h
    · cases h
    · next hitem =>
      cases h
      exact .none hitem
    · next hitem =>
      split at h
      · cases h
      · next hmore =>
        cases h
        exact .last hitem hmore
      · next hmore =>
        split at h
        · next hless =>
          split at h
          · cases h
          · next hothers =>
            cases h
            exact .next hitem hmore hless (ih _ hless hothers rfl)
        · next hlong =>
          cases h
          exact .stuck hitem hmore hlong

-- ---------------------------------------------------------------------------
-- What productions give
-- ---------------------------------------------------------------------------

namespace Frame

variable {F : Frame}

/-- The tokens that are left of a script. Its string literals have no backslash, and no neighbours fuse. -/
structure Left (F : Frame) (ts : List Token) : Prop where
  related : ∃ ts', F.Related ts ts'
  formed : ∀ t ∈ ts, (Piece.token t.lexeme).Formed
  whole : ∀ t ∈ ts, t.lexeme ≠ .finish → t.Whole
  apart : ts.IsChain fun t u => fuses t u = false

theorem Left.suffix (h : F.Left ts) (hs : F.Related s s') (hpart : s <:+ ts) : F.Left s where
  related := ⟨s', hs⟩
  formed t ht := h.formed t (hpart.subset ht)
  whole t ht := h.whole t (hpart.subset ht)
  apart := h.apart.suffix hpart

/-- Wherever in the script a production gives a value, this and the tokens that are left then satisfy `Q`. -/
def Ends (F : Frame) (p : Production α) (Q : α → List Token → Prop) : Prop :=
  ∀ ts, F.Left ts → ∀ a s, p ts = .ok a s → Q a s ∧ F.Left s

/-- Wherever in the script a production gives a value, this satisfies `Q`. -/
def Gives (F : Frame) (p : Production α) (Q : α → Prop) : Prop := F.Ends p fun a _ => Q a

theorem Ends.bind {p : Production α} {k : α → Production β} (hp : F.Ends p P)
    (hk : ∀ a s, F.Left s → P a s → ∀ b u, k a s = .ok b u → Q b u ∧ F.Left u) : F.Ends (p >>= k) Q := by
  intro ts hts b u hrun
  change EStateM.bind p k ts = .ok b u at hrun
  unfold EStateM.bind at hrun
  split at hrun
  · rename_i a s hfirst
    obtain ⟨ha, hs⟩ := hp ts hts a s hfirst
    exact hk a s hs ha b u hrun
  · cases hrun

theorem Ends.mono {p : Production α} (h : F.Ends p P) (hQ : ∀ a s, P a s → Q a s) : F.Ends p Q := by
  intro ts hts a s hrun
  obtain ⟨ha, hs⟩ := h ts hts a s hrun
  exact ⟨hQ a s ha, hs⟩

theorem Ends.and {p : Production α} (hp : F.Ends p P) (hq : F.Ends p Q) : F.Ends p fun a s => P a s ∧ Q a s :=
  fun ts hts a s hrun => ⟨⟨(hp ts hts a s hrun).1, (hq ts hts a s hrun).1⟩, (hp ts hts a s hrun).2⟩

/-- What the items of a list and the tokens behind it satisfy: it holds behind an item, and reading a separator or
finding none keeps it. -/
theorem Ends.listed {P : α → List Token → Prop} {item : Production (Option α)} {more : Production Bool}
    (hitem : F.Ends item fun a s => ∀ b ∈ a, P b s) (hmore : F.Gives more fun _ => True)
    (hlast : ∀ a s s', P a s → more s = .ok false s' → P a s')
    (hnext : ∀ a s s', P a s → more s = .ok true s' → ∀ u, P a u) :
    F.Ends (listed item more) fun as s => ∀ a ∈ as, P a s := by
  intro ts hts as u hrun
  have hrounds := lists_of_listed hrun
  clear hrun
  induction hrounds with
  | none hfirst => exact ⟨nofun, (hitem _ hts _ _ hfirst).2⟩
  | last hfirst hsep =>
    obtain ⟨ha, hs⟩ := hitem _ hts _ _ hfirst
    exact ⟨List.forall_mem_singleton.mpr (hlast _ _ _ (ha _ rfl) hsep), (hmore _ hs _ _ hsep).2⟩
  | stuck hfirst hsep =>
    obtain ⟨ha, hs⟩ := hitem _ hts _ _ hfirst
    exact ⟨List.forall_mem_singleton.mpr (hnext _ _ _ (ha _ rfl) hsep _), (hmore _ hs _ _ hsep).2⟩
  | next hfirst hsep _ _ ih =>
    obtain ⟨ha, hs⟩ := hitem _ hts _ _ hfirst
    obtain ⟨hothers, hu⟩ := ih (hmore _ hs _ _ hsep).2
    exact ⟨List.forall_mem_cons.mpr ⟨hnext _ _ _ (ha _ rfl) hsep _, hothers⟩, hu⟩

namespace Gives

theorem pure (h : Q a) : F.Gives (Pure.pure a) Q := by
  rintro ts hts _ _ ⟨⟩
  exact ⟨h, hts⟩

theorem fail (what : String) : F.Gives (failExpecting what) Q := by
  intro ts _ a s h
  cases h

theorem bind {p : Production α} {k : α → Production β} (hp : F.Gives p P) (hk : ∀ a, P a → F.Gives (k a) Q) :
    F.Gives (p >>= k) Q :=
  Ends.bind hp fun a s hs ha => hk a ha s hs

theorem mono {p : Production α} (h : F.Gives p P) (hQ : ∀ a, P a → Q a) : F.Gives p Q :=
  Ends.mono h fun a _ => hQ a

theorem map {p : Production α} {k : α → β} (hp : F.Gives p P) (hk : ∀ a, P a → Q (k a)) : F.Gives (k <$> p) Q := by
  rw [← bind_pure_comp]
  exact hp.bind fun a ha => .pure (hk a ha)

theorem ite {p q : Production α} {c : Prop} [Decidable c] (hp : F.Gives p Q) (hq : F.Gives q Q) :
    F.Gives (if c then p else q) Q := by
  split
  · exact hp
  · exact hq

/-- A production that does the same in every script. -/
theorem of_sim {p p' : Production α} (h : F.Sim f p p') : F.Gives p fun _ => True := by
  intro ts hts a s hrun
  obtain ⟨ts', hrelated⟩ := hts.related
  have hagree := h ts ts' hrelated
  rw [hrun] at hagree
  generalize p' ts' = r at hagree
  cases hagree with
  | ok _ hs hpart => exact ⟨trivial, hts.suffix hs hpart⟩

/-- What follows it. -/
theorem behind {p p' : Production α} {k : α → Production β} (h : F.Sim f p p') (hk : ∀ a, F.Gives (k a) Q) :
    F.Gives (p >>= k) Q :=
  (of_sim h).bind fun a _ => hk a

/-- A step that is taken only if `c` holds. -/
theorem step {x x' : Production Unit} {k : Unit → Production α} {c : Prop} [Decidable c] (hx : F.Sim f x x')
    (hk : F.Gives (k ()) Q) : F.Gives (if c then x >>= k else k ()) Q :=
  ite (behind hx fun _ => hk) hk

theorem advance {k : Unit → Production α} (hk : F.Gives (k ()) Q) : F.Gives (Production.advance >>= k) Q := by
  intro ts hts
  show ∀ a s, k () (stepOver ts) = .ok a s → _
  refine hk _ ?_
  obtain ⟨ts', hrelated⟩ := hts.related
  cases hrelated with
  | ended => exact hts
  | token _ _ _ hs =>
    rw [stepOver_cons _ hs.ne_nil.1]
    exact hts.suffix hs (List.suffix_cons _ _)

theorem lexeme {k : Lexeme → Production α} (h : ∀ l, (Piece.token l).Formed → F.Gives (k l) Q) :
    F.Gives (Production.lexeme >>= k) Q := by
  intro ts hts
  show ∀ a s, k (ts.headD endToken).lexeme ts = .ok a s → _
  refine h _ ?_ ts hts
  cases ts with
  | nil => trivial
  | cons t ts => exact hts.formed t List.mem_cons_self

theorem peek {k : Lexeme → Production α} (n : Nat) (h : ∀ l, F.Gives (k l) Q) : F.Gives (Production.peek n >>= k) Q :=
  fun ts hts => h _ ts hts

theorem tokens {k : List Token → Production α} (h : ∀ ts, (∃ ts', F.Related ts ts') → F.Gives (k ts) Q) :
    F.Gives (Production.tokens >>= k) Q :=
  fun ts hts => h ts hts.related ts hts

theorem introduced {P : α → Prop} {item : Production α} (h : F.Gives item P) (k : Keyword) :
    F.Gives (introduced k item) fun a => ∀ b ∈ a, P b :=
  .behind (eatKeyword_sim k) fun _ =>
    .ite (h.bind fun _ ha => .pure (by rintro _ ⟨⟩; exact ha)) (.pure nofun)

theorem listed {P : α → Prop} {item : Production (Option α)} {more : Production Bool}
    (hitem : F.Gives item fun a => ∀ b ∈ a, P b) (hmore : F.Gives more fun _ => True) :
    F.Gives (listed item more) fun as => ∀ a ∈ as, P a :=
  Ends.listed (P := fun a _ => P a) hitem hmore (fun _ _ _ h _ => h) fun _ _ _ h _ _ => h

theorem repeated {P : α → Prop} {item : Production (Option α)} (hitem : F.Gives item fun a => ∀ b ∈ a, P b) :
    F.Gives (repeated item) fun as => ∀ a ∈ as, P a :=
  listed hitem (pure trivial)

theorem separated {P : α → Prop} {item : Production α} {more : Production Bool} (hitem : F.Gives item P)
    (hmore : F.Gives more fun _ => True) : F.Gives (separated item more) fun as => as ≠ [] ∧ ∀ a ∈ as, P a := by
  have hsome : F.Gives (some <$> item) fun o => ∃ a, o = some a ∧ P a := hitem.map fun a ha => ⟨a, rfl, ha⟩
  have hlisted := listed (hsome.mono fun o ho => by obtain ⟨a, rfl, ha⟩ := ho; rintro _ ⟨⟩; exact ha) hmore
  intro ts hts as s hrun
  obtain ⟨hall, hs⟩ := hlisted ts hts as s hrun
  refine ⟨⟨?_, hall⟩, hs⟩
  rintro rfl
  cases lists_of_listed hrun with
  | none hfirst =>
    obtain ⟨a, hnone, -⟩ := (hsome ts hts _ _ hfirst).1
    cases hnone

theorem commaSeparated {P : α → Prop} {item : Production α} (hitem : F.Gives item P) :
    F.Gives (commaSeparated item) fun as => as ≠ [] ∧ ∀ a ∈ as, P a :=
  separated hitem (of_sim (eat_sim rfl))

end Gives

end Frame

end SchemaDialects.Sql
