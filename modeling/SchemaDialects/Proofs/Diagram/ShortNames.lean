import Mathlib.Data.List.Nodup
import Mathlib.Data.Set.Function
import SchemaDialects.Diagram.ShortNames

/-!
# Short names tell apart

A substitute is searched among numbered choices until one is free. `firstFree_search`: the search ends, because more
choices differ than names are taken. `calls_eq_map`: whatever is asked for in a row is answered by one function of the
ids, and this function is injective on them.
-/

namespace SchemaDialects.Diagram

theorem mem_sanitize {allowed : Char → Bool} {s : String} (h : c ∈ (sanitize allowed s).toList) :
    Text.isAlphanumeric c = true ∨ allowed c = true ∨ c = '_' := by
  rw [sanitize, String.toList_map] at h
  obtain ⟨d, -, rfl⟩ := List.mem_map.mp h
  split
  · rename_i hd
    exact (Bool.or_eq_true_iff.mp hd).imp_right .inl
  · exact .inr (.inr rfl)

namespace ShortNames

-- ---------------------------------------------------------------------------
-- Choices
-- ---------------------------------------------------------------------------

theorem toString_injective : Function.Injective (toString : Nat → String) := by
  intro m n h
  have hdigits : Nat.toDigits 10 m = Nat.toDigits 10 n := String.ofList_injective h
  calc
    m = Nat.ofDigitChars 10 (Nat.toDigits 10 m) 0 := Nat.ofDigitChars_ten_toDigits.symm
    _ = Nat.ofDigitChars 10 (Nat.toDigits 10 n) 0 := by rw [hdigits]
    _ = n := Nat.ofDigitChars_ten_toDigits

theorem toList_candidate (base : String) (n : Nat) :
    (candidate base (n + 1)).toList = base.toList ++ '_' :: Nat.toDigits 10 (n + 2) := by
  simp [candidate, Nat.repr]

theorem candidate_injective (base : String) : Function.Injective (candidate base) := by
  intro m n h
  have hlists := congrArg String.toList h
  cases m with
  | zero =>
    cases n with
    | zero => rfl
    | succ n => simp [candidate] at hlists
  | succ m =>
    cases n with
    | zero => simp [candidate] at hlists
    | succ n =>
      rw [toList_candidate, toList_candidate, List.append_cancel_left_eq, List.cons.injEq] at hlists
      have := toString_injective (congrArg String.ofList hlists.2)
      omega

-- ---------------------------------------------------------------------------
-- The search
-- ---------------------------------------------------------------------------

/-- Going through the choices from the `n`-th one on until one is not taken. -/
inductive Search (taken : List String) (base : String) : Nat → String → Prop
  | free : candidate base n ∉ taken → Search taken base n (candidate base n)
  | next : candidate base n ∈ taken → Search taken base (n + 1) name → Search taken base n name

section

variable {taken : List String} {base name : String}

theorem Search.not_mem (h : Search taken base n name) : name ∉ taken := by
  induction h with
  | free h => exact h
  | next _ _ ih => exact ih

theorem Search.exists_candidate (h : Search taken base n name) : ∃ k, name = candidate base k := by
  induction h with
  | free h => exact ⟨_, rfl⟩
  | next _ _ ih => exact ih

/-- The search passes over the choices that are taken. -/
theorem Search.of_taken (h : ∀ m, n ≤ m → m < n + more → candidate base m ∈ taken)
    (hfree : candidate base (n + more) ∉ taken) : Search taken base n (candidate base (n + more)) := by
  induction more generalizing n with
  | zero => exact .free hfree
  | succ more ih =>
    have hshift : n + 1 + more = n + (more + 1) := by omega
    refine .next (h n (Nat.le_refl n) (by omega)) ?_
    rw [← hshift] at hfree ⊢
    exact ih (fun m hle hlt => h m (by omega) (by omega)) hfree

/-- Of more choices than names are taken, not all are taken. -/
theorem exists_free (taken : List String) (base : String) :
    ∃ n ∈ List.range (taken.length + 1), candidate base n ∉ taken := by
  by_contra hnone
  push Not at hnone
  have hnodup : ((List.range (taken.length + 1)).map (candidate base)).Nodup :=
    List.Nodup.map (candidate_injective base) List.nodup_range
  have hlength := hnodup.length_le_of_subset (List.forall_mem_map.mpr hnone)
  rw [List.length_map, List.length_range] at hlength
  omega

theorem firstFree_search (taken : List String) (base : String) : Search taken base 0 (firstFree taken base) := by
  obtain ⟨n, hn, hfree⟩ := exists_free taken base
  rw [firstFree, List.find?_map]
  cases hfind : (List.range (taken.length + 1)).find? ((!taken.contains ·) ∘ candidate base) with
  | none =>
    have htaken := List.find?_eq_none.mp hfind n hn
    simp [hfree] at htaken
  | some k =>
    obtain ⟨hk, -, hbefore⟩ := List.find?_range_eq_some.mp hfind
    have hsearch : Search taken base 0 (candidate base (0 + k)) :=
      .of_taken (fun m _ hm => by simpa using hbefore m (by omega)) (by simpa using hk)
    simpa using hsearch

end

-- ---------------------------------------------------------------------------
-- The table
-- ---------------------------------------------------------------------------

/-- The substitute for `id`, and the table behind it: what the table holds, or what the search finds. -/
inductive Call (names : ShortNames) (id : String) : String → ShortNames → Prop
  | known : names.given.lookup id = some name → Call names id name names
  | new : names.given.lookup id = none → Search (names.given.map (·.2)) (sanitize isNameMark id) 0 name →
      Call names id name ⟨(id, name) :: names.given⟩

theorem call_get (names : ShortNames) (id : String) : Call names id (names.get id).1 (names.get id).2 := by
  unfold get
  split
  · rename_i h
    exact .known h
  · rename_i h
    exact .new h (firstFree_search _ _)

/-- No two ids have one substitute. -/
def Apart (names : ShortNames) : Prop :=
  ∀ id id' name, names.given.lookup id = some name → names.given.lookup id' = some name → id = id'

/-- A word of the characters that names are made of. -/
def IsWord (name : String) : Prop := ∀ c ∈ name.toList, Text.isAlphanumeric c = true ∨ isNameMark c = true

section

variable {names names' : ShortNames} {id id' name : String} {ids more : List String}

theorem mem_of_lookup {given : List (String × String)} (h : given.lookup id = some name) :
    name ∈ given.map (·.2) := by
  obtain ⟨before, behind, rfl, -⟩ := List.lookup_eq_some_iff.mp h
  simp

theorem Call.lookup (h : Call names id name names') : names'.given.lookup id = some name := by
  cases h with
  | known h => exact h
  | new _ _ => simp

theorem Call.keeps (h : Call names id name names') (hknown : names.given.lookup id' = some name') :
    names'.given.lookup id' = some name' := by
  cases h with
  | known _ => exact hknown
  | new hnone _ =>
    have hne : id' ≠ id := by
      rintro rfl
      rw [hnone] at hknown
      cases hknown
    rwa [List.lookup_cons, beq_false_of_ne hne]

theorem Call.apart (h : Call names id name names') (hapart : names.Apart) : names'.Apart := by
  cases h with
  | known _ => exact hapart
  | new hnone hsearch =>
    intro a b shared ha hb
    -- What was found is not among the names that were given before.
    have hold : ∀ c, c ≠ id → ((id, name) :: names.given).lookup c = some shared →
        names.given.lookup c = some shared ∧ shared ≠ name := by
      intro c hc hlookup
      rw [List.lookup_cons, beq_false_of_ne hc] at hlookup
      exact ⟨hlookup, fun heq => hsearch.not_mem (heq ▸ mem_of_lookup hlookup)⟩
    have hself : ((id, name) :: names.given).lookup id = some name := by simp
    by_cases hai : a = id <;> by_cases hbi : b = id
    · rw [hai, hbi]
    · rw [hai, hself] at ha
      exact absurd (Option.some.inj ha).symm (hold b hbi hb).2
    · rw [hbi, hself] at hb
      exact absurd (Option.some.inj hb).symm (hold a hai ha).2
    · exact hapart a b shared (hold a hai ha).1 (hold b hbi hb).1

theorem isWord_candidate (h : IsWord base) (n : Nat) : IsWord (candidate base n) := by
  cases n with
  | zero => exact h
  | succ n =>
    intro c hc
    rw [toList_candidate, List.mem_append, List.mem_cons] at hc
    rcases hc with hc | rfl | hc
    · exact h c hc
    · exact .inr rfl
    · have hdigit : c.isDigit = true := Nat.isDigit_of_mem_toDigits (b := 10) (by decide) (by decide) hc
      have hascii : c.toNat < 0x80 := by
        have := (Char.isDigit_iff_toNat.mp hdigit).2
        exact Nat.lt_of_le_of_lt this (by decide)
      exact .inl (by simp [Text.isAlphanumeric, Text.isNumeral, hascii, hdigit])

theorem isWord_sanitize (id : String) : IsWord (sanitize isNameMark id) := by
  intro c hc
  rcases mem_sanitize hc with h | h | rfl
  · exact .inl h
  · exact .inr h
  · exact .inr rfl

theorem Call.isWord (h : Call names id name names') (hwords : ∀ p ∈ names.given, IsWord p.2) :
    IsWord name ∧ ∀ p ∈ names'.given, IsWord p.2 := by
  cases h with
  | known h =>
    obtain ⟨p, hp, rfl⟩ := List.mem_map.mp (mem_of_lookup h)
    exact ⟨hwords p hp, hwords⟩
  | new _ hsearch =>
    obtain ⟨k, rfl⟩ := hsearch.exists_candidate
    have hname := isWord_candidate (isWord_sanitize id) k
    exact ⟨hname, List.forall_mem_cons.mpr ⟨hname, hwords⟩⟩

-- ---------------------------------------------------------------------------
-- Calls in a row
-- ---------------------------------------------------------------------------

/-- What is answered when all `ids` are asked for, one after the other. -/
def calls (names : ShortNames) : List String → List String
  | [] => []
  | id :: ids => (names.get id).1 :: (names.get id).2.calls ids

/-- The table behind these calls. -/
def after (names : ShortNames) (ids : List String) : ShortNames :=
  ids.foldl (fun names id => (names.get id).2) names

theorem after_rec {P : ShortNames → Prop} (hstep : ∀ names id, P names → P (names.get id).2) (h : P names)
    (ids : List String) : P (names.after ids) := by
  induction ids generalizing names with
  | nil => exact h
  | cons id ids ih => exact ih (hstep names id h)

theorem lookup_after (h : names.given.lookup id = some name) (ids : List String) :
    (names.after ids).given.lookup id = some name :=
  after_rec (P := (·.given.lookup id = some name)) (fun _ _ hname => (call_get _ _).keeps hname) h ids

theorem get_of_lookup (h : names.given.lookup id = some name) : (names.get id).1 = name := by
  rw [get, h]

/-- A call is answered as every later one for the same id. -/
theorem get_after (names : ShortNames) (h : id ∈ ids) :
    ∃ name, (names.after ids).given.lookup id = some name := by
  induction ids generalizing names with
  | nil => cases h
  | cons first ids ih =>
    rcases List.mem_cons.mp h with rfl | h
    · exact ⟨_, lookup_after (call_get names id).lookup ids⟩
    · exact ih _ h

theorem calls_eq_map (names : ShortNames) (ids : List String) :
    names.calls ids = ids.map fun id => ((names.after ids).get id).1 := by
  induction ids generalizing names with
  | nil => rfl
  | cons id ids ih =>
    have hself := get_of_lookup (lookup_after (call_get names id).lookup ids)
    rw [calls, ih, List.map_cons]
    exact congrArg (· :: _) hself.symm

/-- Asking again changes nothing. -/
theorem after_of_known (h : ∀ id ∈ more, ∃ name, names.given.lookup id = some name) : names.after more = names := by
  induction more with
  | nil => rfl
  | cons id more ih =>
    obtain ⟨⟨name, hname⟩, hmore⟩ := List.forall_mem_cons.mp h
    have hsame : (names.get id).2 = names := by rw [get, hname]
    rw [after, List.foldl_cons, hsame]
    exact ih hmore

theorem apart_empty : Apart {} := by
  intro id id' name h
  cases h

/-- Every substitute is a word, also of an id that is asked for afterwards. -/
theorem isWord_get (ids : List String) (id : String) : IsWord ((ofIds ids).get id).1 := by
  have hempty : ∀ p ∈ given {}, IsWord p.2 := by simp
  have hgiven := after_rec (P := fun names => ∀ p ∈ names.given, IsWord p.2)
    (fun names id h => ((call_get names id).isWord h).2) hempty ids
  exact ((call_get _ id).isWord hgiven).1

/-- Different ids have different substitutes in the end. -/
theorem get_after_injOn (ids : List String) :
    Set.InjOn (fun id => ((after {} ids).get id).1) {id | id ∈ ids} := by
  intro a ha b hb heq
  obtain ⟨name, hname⟩ := get_after {} ha
  obtain ⟨name', hname'⟩ := get_after {} hb
  have hapart : (after {} ids).Apart := after_rec (fun _ _ => (call_get _ _).apart) apart_empty ids
  have hsame : name = name' := (get_of_lookup hname).symm.trans (heq.trans (get_of_lookup hname'))
  exact hapart a b name hname (hsame ▸ hname')

end

end ShortNames

end SchemaDialects.Diagram
