import Mathlib.Data.List.Nodup
import Mathlib.Data.List.Perm.Basic
import SchemaDialects.Model

/-!
# Keys and indexes counted

What is asked of a dialect at least is that it keeps the keys: an entity that has a primary key comes back
with one, and with as many indexes as it had (`Entity.tally`). A unique index of one column may be written at
the column; `length_of_columns` counts the columns that are marked so.
-/

namespace SchemaDialects

/-- Whether an entity has a primary key, and how many indexes it has. -/
structure Tally where
  id : EntityName
  keyed : Bool
  indexes : Nat
  deriving DecidableEq, Repr

namespace Tally

/-- Keyed by something more, or with more indexes. -/
def more (t : Tally) (keyed : Bool) (indexes : Nat) : Tally :=
  { t with keyed := t.keyed || keyed, indexes := t.indexes + indexes }

@[simp] theorem more_none (t : Tally) : t.more false 0 = t := by
  simp [more]

theorem more_more (t : Tally) (keyed again : Bool) (m n : Nat) :
    (t.more keyed m).more again n = t.more (keyed || again) (m + n) := by
  simp [more, Bool.or_assoc, Nat.add_assoc]

end Tally

def Entity.tally (e : Entity) : Tally := ⟨e.id, e.primaryKey.isSome, e.indexes.length⟩

/-- A key and indexes that are about attributes of the entity, in full; no two indexes are the same. -/
structure SoundKeys (e : Entity) : Prop where
  names : (e.attrs.map (·.name)).Nodup
  key : ∀ key ∈ e.primaryKey, key.attrs ≠ [] ∧ ∀ path ∈ key.attrs, e.hasAttribute path = true
  index : ∀ i ∈ e.indexes, i.attrs ≠ [] ∧ ∀ path ∈ i.attrs, e.hasAttribute path = true
  plain : ∀ i ∈ e.indexes, i.condition = none ∧ i.definition = none
  indexes : e.indexes.Nodup

/-- A primary key on one attribute that has no name is on an attribute of the entity itself. -/
def KeyInPlace (e : Entity) : Prop :=
  ∀ path, e.primaryKey = some { attrs := [path] } → ∃ name, path = [name]

instance (path : AttributePath) : Decidable (∃ name, path = [name]) :=
  decidable_of_iff (path.length = 1) List.length_eq_one_iff

/-- Attributes of the entity itself are found by their names. -/
theorem hasAttribute_iff {e : Entity} :
    e.hasAttribute [name] = true ↔ ∃ a ∈ e.attrs, a.name = name := by
  simp [Entity.hasAttribute, Entity.attribute?, findAttribute?, List.find?_isSome]

/-- Of indexes on single columns, no two on one column, there are as many as there are columns with one. -/
theorem length_of_columns {attrs : List Attribute} {own : List Index} (hnames : (attrs.map (·.name)).Nodup)
    (hown : (own.map (·.attrs)).Nodup) (hcolumns : ∀ i ∈ own, ∃ a ∈ attrs, i.attrs = [[a.name]]) :
    (attrs.filter fun a => own.any (·.attrs == [[a.name]])).length = own.length := by
  let path (a : Attribute) : List AttributePath := [[a.name]]
  have hpaths : ((attrs.filter fun a => own.any (·.attrs == [[a.name]])).map path).Nodup := by
    have hsingle : Function.Injective fun name : String => ([[name]] : List AttributePath) :=
      fun a b h => by simpa using h
    have hall : (attrs.map path).Nodup := by
      have := hnames.map hsingle
      rwa [List.map_map] at this
    exact hall.sublist (List.filter_sublist.map path)
  have hperm : ((attrs.filter fun a => own.any (·.attrs == [[a.name]])).map path).Perm
      (own.map (·.attrs)) := by
    refine (List.perm_ext_iff_of_nodup hpaths hown).mpr fun paths => ?_
    constructor
    · intro hmem
      obtain ⟨a, ha, rfl⟩ := List.mem_map.mp hmem
      obtain ⟨i, hi, hattrs⟩ := List.any_eq_true.mp (List.mem_filter.mp ha).2
      exact List.mem_map.mpr ⟨i, hi, beq_iff_eq.mp hattrs⟩
    · intro hmem
      obtain ⟨i, hi, rfl⟩ := List.mem_map.mp hmem
      obtain ⟨a, ha, hattrs⟩ := hcolumns i hi
      have hany : own.any (·.attrs == [[a.name]]) = true :=
        List.any_eq_true.mpr ⟨i, hi, beq_iff_eq.mpr hattrs⟩
      exact List.mem_map.mpr ⟨a, List.mem_filter.mpr ⟨ha, hany⟩, hattrs.symm⟩
  simpa using hperm.length_eq

end SchemaDialects
