import Mathlib.Data.List.Nodup
import SchemaDialects.Model.Validate
import SchemaDialects.Proofs.Lookup

/-!
# When a schema is consistent

`inconsistencies_eq_nil`: nothing is wrong with a schema if its entities have distinct names, keys, indexes and
checks have their attributes, and the ends of relations are attributes of known entities.
-/

namespace SchemaDialects

/-- Keys and checks speak of attributes of the entity. -/
structure Entity.Keyed (e : Entity) : Prop where
  key : ∀ key ∈ e.primaryKey, ∀ path ∈ key.attrs, e.hasAttribute path = true
  check : ∀ c ∈ e.checks, ∀ path ∈ c.attrs, e.hasAttribute path = true

/-- Indexes speak of attributes of the entity. -/
def Entity.Indexed (e : Entity) : Prop := ∀ i ∈ e.indexes, ∀ path ∈ i.attrs, e.hasAttribute path = true

/-- The attributes of the link are those of its entity, if there is one. -/
def Link.Resolves (db : Database) (link : Link) : Prop :=
  ∀ e ∈ db.entity? link.entity, ∀ path ∈ link.attrs, e.hasAttribute path = true

/-- What can be said of a schema without looking at the attributes of indexes and relations. -/
structure Database.Anchored (db : Database) : Prop where
  distinct : (db.entities.map Entity.id).Nodup
  keyed : ∀ e ∈ db.entities, e.Keyed
  known : ∀ r ∈ db.relations, (db.entity? r.source.entity).isSome ∧ (db.entity? r.target.entity).isSome

/-- All relations start from attributes and lead to attributes. -/
def Database.EndsResolve (db : Database) : Prop :=
  ∀ r ∈ db.relations, r.source.Resolves db ∧ r.target.Resolves db

theorem mem_mentioned {e : Entity} : path ∈ e.mentioned ↔
    (∃ key ∈ e.primaryKey, path ∈ key.attrs) ∨ (∃ i ∈ e.indexes, path ∈ i.attrs) ∨
      ∃ c ∈ e.checks, path ∈ c.attrs := by
  rw [Entity.mentioned, List.mem_append, List.mem_append, List.mem_flatMap, List.mem_flatMap, or_assoc]
  cases e.primaryKey <;> simp

theorem missing_eq_nil {e : Entity} {paths : List AttributePath} {problem : AttributePath → Inconsistency} :
    (paths.filter fun path => !e.hasAttribute path).map problem = [] ↔ ∀ path ∈ paths, e.hasAttribute path = true := by
  rw [List.map_eq_nil_iff, List.filter_eq_nil_iff]
  simp

theorem forall_mentioned {e : Entity} :
    (∀ path ∈ e.mentioned, e.hasAttribute path = true) ↔ e.Keyed ∧ e.Indexed := by
  constructor
  · intro h
    exact ⟨⟨fun key hkey path hpath => h path (mem_mentioned.mpr (.inl ⟨key, hkey, hpath⟩)),
      fun c hc path hpath => h path (mem_mentioned.mpr (.inr (.inr ⟨c, hc, hpath⟩)))⟩,
      fun i hi path hpath => h path (mem_mentioned.mpr (.inr (.inl ⟨i, hi, hpath⟩)))⟩
  · rintro ⟨hkeyed, hindexed⟩ path hpath
    rcases mem_mentioned.mp hpath with ⟨key, hkey, hpath⟩ | ⟨i, hi, hpath⟩ | ⟨c, hc, hpath⟩
    · exact hkeyed.key key hkey path hpath
    · exact hindexed i hi path hpath
    · exact hkeyed.check c hc path hpath

theorem entityInconsistencies_eq_nil (seen : List EntityName) (entities : List Entity) :
    entityInconsistencies seen entities = [] ↔
      (entities.map Entity.id).Nodup ∧ (∀ e ∈ entities, e.id ∉ seen) ∧ ∀ e ∈ entities, e.Keyed ∧ e.Indexed := by
  induction entities generalizing seen with
  | nil => simp [entityInconsistencies]
  | cons e rest ih =>
    have htaken : (if seen.contains e.id then [Inconsistency.duplicateEntity e.id] else []) = [] ↔ e.id ∉ seen := by
      simp
    rw [entityInconsistencies, List.append_eq_nil_iff, List.append_eq_nil_iff, htaken, missing_eq_nil,
      forall_mentioned, ih, List.map_cons, List.nodup_cons, List.forall_mem_cons, List.forall_mem_cons]
    simp only [List.mem_cons, not_or, List.mem_map, not_exists, not_and]
    constructor
    · rintro ⟨⟨hfresh, hfirst⟩, hnodup, hrest, hmore⟩
      exact ⟨⟨fun f hf heq => (hrest f hf).1 heq, hnodup⟩, ⟨hfresh, fun f hf => (hrest f hf).2⟩, hfirst, hmore⟩
    · rintro ⟨⟨hother, hnodup⟩, ⟨hfresh, hrest⟩, hfirst, hmore⟩
      exact ⟨⟨hfresh, hfirst⟩, hnodup, fun f hf => ⟨hother f hf, hrest f hf⟩, hmore⟩

theorem inconsistencies_link {db : Database} {link : Link} :
    link.inconsistencies db = [] ↔ (db.entity? link.entity).isSome ∧ link.Resolves db := by
  rw [Link.inconsistencies, Link.Resolves]
  cases db.entity? link.entity with
  | none => simp
  | some e => simp

theorem inconsistencies_eq_nil {db : Database} :
    db.inconsistencies = [] ↔ db.Anchored ∧ (∀ e ∈ db.entities, e.Indexed) ∧ db.EndsResolve := by
  rw [Database.inconsistencies, List.append_eq_nil_iff, entityInconsistencies_eq_nil, List.flatMap_eq_nil_iff]
  simp only [List.append_eq_nil_iff, inconsistencies_link]
  constructor
  · rintro ⟨⟨hdistinct, -, hentities⟩, hrelations⟩
    exact ⟨⟨hdistinct, fun e he => (hentities e he).1, fun r hr => ⟨(hrelations r hr).1.1, (hrelations r hr).2.1⟩⟩,
      fun e he => (hentities e he).2, fun r hr => ⟨(hrelations r hr).1.2, (hrelations r hr).2.2⟩⟩
  · rintro ⟨⟨hdistinct, hkeyed, hknown⟩, hindexed, hends⟩
    exact ⟨⟨hdistinct, fun _ _ => List.not_mem_nil, fun e he => ⟨hkeyed e he, hindexed e he⟩⟩,
      fun r hr => ⟨⟨(hknown r hr).1, (hends r hr).1⟩, (hknown r hr).2, (hends r hr).2⟩⟩

theorem validate_eq_nil {db : Database} : db.validate = [] ↔ db.inconsistencies = [] := List.map_eq_nil_iff

end SchemaDialects
