import SchemaDialects.Proofs.Sql.RoundTrip
import SchemaDialects.Proofs.Sql.Tallies
import SchemaDialects.Proofs.Tables.Tallies

/-!
# Keys are kept

A script and a table document both leave a key to the column that it is about, where one column is all that
there is to say, and write it among the constraints or indexes of its table otherwise. `keys_kept`: between the
two no key and no index is lost, if the columns that are left to carry one are there. A nested attribute has no
column, and a key on it alone is lost (`key_lost`).
-/

namespace SchemaDialects

/-- Written and read again, every entity has a primary key if it had one, and as many indexes as it had. -/
theorem keys_kept {db : Database} (hids : (db.entities.map Entity.id).Nodup)
    (hkeys : ∀ e ∈ db.entities, SoundKeys e ∧ KeyInPlace e) :
    (Sql.Scriptable db → (∀ e ∈ db.entities, Sql.UniqueInPlace e ∧ Sql.SpellableSpace e.space) →
      ∃ script, Sql.writeSchema db .postgres = .ok script ∧ (db.entities ≠ [] →
        ∃ again, (Sql.readSchema script .postgres).value = some again ∧
          again.entities.map Entity.tally = db.entities.map Entity.tally)) ∧
    ((∀ t ∈ db.types, t.values.isSome = true) → ∀ groups, db.groups = .ok groups →
      ∃ document, Tables.Document.ofDatabase db = .ok document ∧
        (document.database.entities.map Entity.tally).Perm
          (db.entities.map fun e => { e.tally with id := Tables.nameInDocument e.id })) := by
  constructor
  · intro hscript hplaces
    refine ⟨_, Sql.writeSchema_sections hscript, fun hne => ?_⟩
    have hkept : ∀ e ∈ db.entities, Sql.KeptKeys e := fun e he =>
      { (hkeys e he).1, (hplaces e he).1 with place := (hkeys e he).2, space := (hplaces e he).2 }
    obtain ⟨script, again, hwrite, hread, htallies⟩ := Sql.exists_script_tallies hscript hkept hids hne
    have hsame := Except.ok.inj ((Sql.writeSchema_sections hscript).symm.trans hwrite)
    exact ⟨again, hsame ▸ hread, htallies⟩
  · intro hvalues groups hgroups
    exact Tables.exists_document_tallies hkeys hvalues hgroups

/-- Users by number and city, with a unique index for every place where one can be written. -/
def addressedUsers : Entity where
  name := "users"
  attrs := [
    { name := "id", type := "int" },
    { name := "email", type := "text" },
    { name := "address", type := "text", nested := [{ name := "city", type := "text" }] }]
  primaryKey := some { attrs := [["id"], ["address", "city"]] }
  indexes := [
    { attrs := [["email"]], unique := true },
    { name := some "users_by_city", attrs := [["address", "city"]], unique := true },
    { attrs := [["email"], ["address", "city"]], unique := true },
    { attrs := [["email"]] }]

def addressedVisits : Entity where
  space := { schema := some "shop" }
  name := "visits"
  attrs := [{ name := "user_id", type := "int" }]
  primaryKey := some { attrs := [["user_id"]] }

def addressed : Database where
  entities := [addressedUsers, addressedVisits]
  types := [{ name := "state", values := some ["new", "sent"] }]
  relations := [{ Relation.manyToOne addressedVisits.id [["user_id"]] addressedUsers.id [["id"]] with
    onDelete := some "cascade" }]

theorem soundKeys_addressedUsers : SoundKeys addressedUsers where
  names := by decide
  key := by decide
  index := by decide
  plain := by decide
  indexes := by decide

theorem soundKeys_addressedVisits : SoundKeys addressedVisits where
  names := by decide
  key := by decide
  index := by decide
  plain := by decide
  indexes := by decide

theorem keyInPlace_addressed : KeyInPlace addressedUsers ∧ KeyInPlace addressedVisits := by
  simp [KeyInPlace, addressedUsers, addressedVisits]

theorem scriptable_addressed : Sql.Scriptable addressed where
  type := List.forall_mem_singleton.mpr ⟨by decide, by simp⟩
  entity := by
    have hspellInt : Sql.spellType "int" .postgres = "int" := by decide
    have hspellText : Sql.spellType "text" .postgres = "text" := by decide
    have hint (name : String) : Sql.ScriptableAttribute { name, type := "int" } :=
      ⟨hspellInt.symm ▸ Sql.typeText_int.readable, rfl, by simp⟩
    have htext (name : String) (nested : List Attribute) : Sql.ScriptableAttribute { name, type := "text", nested } :=
      ⟨hspellText.symm ▸ Sql.typeText_text.readable, rfl, by simp⟩
    refine List.forall_mem_cons.mpr ⟨⟨?_, by decide, ?_, rfl, by decide⟩,
      List.forall_mem_singleton.mpr ⟨?_, by decide, by simp [addressedVisits], rfl, by decide⟩⟩
    · simp only [addressedUsers, List.forall_mem_cons]
      exact ⟨hint "id", htext "email" [], htext "address" _, by simp⟩
    · simp only [addressedUsers, List.forall_mem_cons]
      exact ⟨⟨by decide, rfl, rfl, by decide, by decide⟩,
        ⟨by decide, rfl, rfl, by decide, by decide⟩,
        ⟨by decide, rfl, rfl, by decide, by decide⟩,
        ⟨by decide, rfl, rfl, by decide, by decide⟩, by simp⟩
    · exact List.forall_mem_singleton.mpr (hint "user_id")
  relation := List.forall_mem_singleton.mpr ⟨by decide, by decide⟩

theorem keys_kept_addressed :
    (addressed.entities.map Entity.id).Nodup ∧ (∀ e ∈ addressed.entities, SoundKeys e ∧ KeyInPlace e) ∧
      Sql.Scriptable addressed ∧ (∀ e ∈ addressed.entities, Sql.UniqueInPlace e ∧ Sql.SpellableSpace e.space) ∧
      (∃ script again, Sql.writeSchema addressed .postgres = .ok script ∧
        (Sql.readSchema script .postgres).value = some again ∧
        again.entities.map Entity.tally = [⟨addressedUsers.id, true, 4⟩, ⟨addressedVisits.id, true, 0⟩]) ∧
      (∀ t ∈ addressed.types, t.values.isSome = true) ∧ addressed.groups = .ok none ∧
      ∃ document, Tables.Document.ofDatabase addressed = .ok document ∧
        (document.database.entities.map Entity.tally).Perm
          [⟨addressedUsers.id, true, 4⟩, ⟨addressedVisits.id, true, 0⟩] := by
  have hids : (addressed.entities.map Entity.id).Nodup := by decide
  have hkeys : ∀ e ∈ addressed.entities, SoundKeys e ∧ KeyInPlace e := List.forall_mem_cons.mpr
    ⟨⟨soundKeys_addressedUsers, keyInPlace_addressed.1⟩,
      List.forall_mem_singleton.mpr ⟨soundKeys_addressedVisits, keyInPlace_addressed.2⟩⟩
  have hplaces : ∀ e ∈ addressed.entities, Sql.UniqueInPlace e ∧ Sql.SpellableSpace e.space := by
    refine List.forall_mem_cons.mpr ⟨⟨⟨?_, by decide⟩, by decide, by decide⟩,
      List.forall_mem_singleton.mpr ⟨⟨by simp [addressedVisits], by decide⟩, by decide, by decide⟩⟩
    simp [addressedUsers, Sql.isOwnColumnUnique, Sql.isColumnUnique]
  have hvalues : ∀ t ∈ addressed.types, t.values.isSome = true := by decide
  have hgroups : addressed.groups = .ok none := rfl
  obtain ⟨hscript, hdocument⟩ := keys_kept hids hkeys
  obtain ⟨script, hwrite, hread⟩ := hscript scriptable_addressed hplaces
  obtain ⟨again, hvalue, htallies⟩ := hread (List.cons_ne_nil _ _)
  exact ⟨hids, hkeys, scriptable_addressed, hplaces, ⟨script, again, hwrite, hvalue, htallies⟩, hvalues, hgroups,
    hdocument hvalues none hgroups⟩

/-- Users whose key is a nested attribute. -/
def nestedKeyUsers : Entity where
  name := "users"
  attrs := [{ name := "address", type := "jsonb", nested := [{ name := "city", type := "text" }] }]
  primaryKey := some { attrs := [["address", "city"]] }

theorem soundKeys_nestedKeyUsers : SoundKeys nestedKeyUsers where
  names := by decide
  key := by decide
  index := by decide
  plain := by decide
  indexes := by decide

/-- The key of a nested attribute is written neither at a column nor among the constraints, and no field carries it. -/
theorem key_lost : SoundKeys nestedKeyUsers ∧ nestedKeyUsers.tally = ⟨nestedKeyUsers.id, true, 0⟩ ∧
    (Sql.writeSchema { entities := [nestedKeyUsers] } .postgres).toOption =
      some "CREATE TABLE users (\n  address jsonb NOT NULL\n);\n" ∧
    ((Sql.readSchema "CREATE TABLE users (\n  address jsonb NOT NULL\n);\n" .postgres).value.map
      (·.entities.map Entity.tally)) = some [⟨nestedKeyUsers.id, false, 0⟩] ∧
    ((Tables.Document.ofDatabase { entities := [nestedKeyUsers] }).toOption.map
      (·.database.entities.map Entity.tally)) = some [⟨nestedKeyUsers.id, false, 0⟩] :=
  ⟨soundKeys_nestedKeyUsers, by decide +kernel⟩

end SchemaDialects
