import SchemaDialects.Model

/-!
# The orders of names are lawful

Namespaces, names and the keys of relations are ordered field by field. Each of these orders is
transitive and calls equal only what is equal, so a table sorted by it has each key once.
-/

namespace SchemaDialects

open Std

theorem compareOn_eq [Ord β] [LawfulEqOrd β] {f : α → β} : compareOn f a b = .eq ↔ f a = f b :=
  LawfulEqCmp.compare_eq_iff_eq

instance : TransOrd Namespace :=
  inferInstanceAs (TransCmp (compareLex (compareOn Namespace.database)
    (compareLex (compareOn Namespace.catalog) (compareOn Namespace.schema))))

instance : LawfulEqOrd Namespace where
  eq_of_compare {a b} h := by
    obtain ⟨hd, hc, hs⟩ := (compareLex_eq_eq.trans (and_congr_right' compareLex_eq_eq)).mp h
    cases a
    cases b
    simp only [Namespace.mk.injEq]
    exact ⟨compareOn_eq.mp hd, compareOn_eq.mp hc, compareOn_eq.mp hs⟩

instance : TransOrd EntityName :=
  inferInstanceAs (TransCmp (compareLex (compareOn EntityName.space) (compareOn EntityName.name)))

instance : LawfulEqOrd EntityName where
  eq_of_compare {a b} h := by
    obtain ⟨hs, hn⟩ := compareLex_eq_eq.mp h
    cases a
    cases b
    simp only [EntityName.mk.injEq]
    exact ⟨compareOn_eq.mp hs, compareOn_eq.mp hn⟩

instance : TransOrd TypeName :=
  inferInstanceAs (TransCmp (compareLex (compareOn TypeName.space) (compareOn TypeName.name)))

instance : LawfulEqOrd TypeName where
  eq_of_compare {a b} h := by
    obtain ⟨hs, hn⟩ := compareLex_eq_eq.mp h
    cases a
    cases b
    simp only [TypeName.mk.injEq]
    exact ⟨compareOn_eq.mp hs, compareOn_eq.mp hn⟩

instance : TransOrd RelationKey :=
  inferInstanceAs (TransCmp (compareLex (compareOn RelationKey.source)
    (compareLex (compareOn RelationKey.sourceAttrs)
      (compareLex (compareOn RelationKey.target) (compareOn RelationKey.targetAttrs)))))

instance : LawfulEqOrd RelationKey where
  eq_of_compare {a b} h := by
    obtain ⟨hs, h⟩ := compareLex_eq_eq.mp h
    obtain ⟨hsa, h⟩ := compareLex_eq_eq.mp h
    obtain ⟨ht, hta⟩ := compareLex_eq_eq.mp h
    cases a
    cases b
    simp only [RelationKey.mk.injEq]
    exact ⟨compareOn_eq.mp hs, compareOn_eq.mp hsa, compareOn_eq.mp ht, compareOn_eq.mp hta⟩

end SchemaDialects
