import SchemaDialects.Proofs.Tables.Settling

/-!
# Which way references point

`relations_directed`: a reference points at the end that is unique and, of two unique ends, at the one that alone
names the primary key of its table, whichever of its two ends comes first. Only where neither decides does the order
of the ends. What the key of a table is, and which table an end means, is said of the document itself
(`Table.KeyFields`, `Document.NamesKey`); the schema that has been read gives the same answer (`isKeyOf_link`).
-/

namespace SchemaDialects.Tables

-- ---------------------------------------------------------------------------
-- Keys of tables
-- ---------------------------------------------------------------------------

/-- The names of the fields of a primary key, in its order: the columns of the last index that is one, and only
without such an index the fields that are marked. -/
inductive Table.KeyFields (t : Table) : List String → Prop
  | index (hindexes : t.indexes = before ++ i :: after) (hkey : i.isKey = true)
      (hlast : ∀ j ∈ after, j.isKey = false) : t.KeyFields (i.texts .column)
  | marked (hindexes : ∀ i ∈ t.indexes, i.isKey = false) (hmarked : t.fields.filter (·.inKey) ≠ []) :
      t.KeyFields ((t.fields.filter (·.inKey)).map (·.name))

theorem map_singleton_inj {names others : List String} :
    (names.map fun name => [name]) = others.map (fun name => [name]) ↔ names = others :=
  List.map_inj_right fun _ _ => List.singleton_inj.mp

/-- The last index that is a key. -/
theorem find?_reverse_isKey {indexes : List TableIndex} : indexes.reverse.find? (·.isKey) = some i ↔
    i.isKey = true ∧ ∃ before after, indexes = before ++ i :: after ∧ ∀ j ∈ after, j.isKey = false := by
  rw [List.find?_eq_some_iff_append]
  refine and_congr_right fun _ => ⟨?_, ?_⟩
  · rintro ⟨later, earlier, hsplit, hlater⟩
    refine ⟨earlier.reverse, later.reverse, ?_, by simpa using hlater⟩
    rw [← List.reverse_reverse indexes, hsplit]
    simp
  · rintro ⟨before, after, rfl, hafter⟩
    exact ⟨after.reverse, before.reverse, by simp, by simpa using hafter⟩

theorem Table.keyFields_iff {t : Table} : t.KeyFields names ↔
    ∃ key, t.primaryKey = some key ∧ key.attrs = names.map fun name => [name] := by
  have hmarks : ((t.fields.filter (·.inKey)).map fun f => [f.name]) =
      ((t.fields.filter (·.inKey)).map (·.name)).map fun name => [name] := by
    rw [List.map_map]
    rfl
  constructor
  · rintro (⟨hindexes, hkey, hlast⟩ | ⟨hindexes, hmarked⟩)
    · rw [Table.primaryKey, find?_reverse_isKey.mpr ⟨hkey, _, _, hindexes, hlast⟩]
      exact ⟨_, rfl, rfl⟩
    · have hnone : t.indexes.reverse.find? (·.isKey) = none := by simpa using hindexes
      refine ⟨{ attrs := _ }, ?_, rfl⟩
      rw [Table.primaryKey, hnone, ← hmarks]
      exact if_neg (by simpa using hmarked)
  · rintro ⟨key, hkey, hattrs⟩
    rw [Table.primaryKey] at hkey
    split at hkey
    · next i hfind =>
      obtain ⟨hi, before, after, hindexes, hlast⟩ := find?_reverse_isKey.mp hfind
      obtain rfl := Option.some.inj hkey
      obtain rfl : i.texts .column = names := map_singleton_inj.mp hattrs
      exact .index hindexes hi hlast
    · next hfind =>
      dsimp only at hkey
      split at hkey
      · cases hkey
      · next hmarked =>
        obtain rfl := Option.some.inj hkey
        obtain rfl : (t.fields.filter (·.inKey)).map (·.name) = names := map_singleton_inj.mp (hmarks ▸ hattrs)
        exact .marked (by simpa using hfind) (by simpa using hmarked)

-- ---------------------------------------------------------------------------
-- Tables that ends mean
-- ---------------------------------------------------------------------------

/-- The table of this name in this schema; no schema, an empty name and `public` are the same. -/
def Endpoint.Means (e : Endpoint) (item : String × Table) : Prop :=
  spaceOf (some item.1) = spaceOf e.schema ∧ item.2.name = e.table

/-- The end names the whole primary key of its table, in the order of the key. Of several tables that it may mean it
means the first, in whatever schema. -/
def Document.NamesKey (d : Document) (e : Endpoint) : Prop :=
  ∃ before item after, contents Schema.tables d.schemas = before ++ item :: after ∧ e.Means item ∧
    (∀ other ∈ before, ¬e.Means other) ∧ item.2.KeyFields e.fields

theorem id_entity_eq {e : Endpoint} {item : String × Table} :
    (Table.entity (spaceOf (some item.1)) item.2).id = e.link.entity ↔ e.Means item := by
  rw [EntityName.mk.injEq]
  rfl

/-- The entity of an end is that of the first table it may mean. -/
theorem entity?_link (d : Document) (e : Endpoint) : d.database.entity? e.link.entity = some entity ↔
    ∃ before item after, contents Schema.tables d.schemas = before ++ item :: after ∧ e.Means item ∧
      (∀ other ∈ before, ¬e.Means other) ∧ Table.entity (spaceOf (some item.1)) item.2 = entity := by
  have hentities : d.database.entities = (contents Schema.tables d.schemas).map fun item =>
      Table.entity (spaceOf (some item.1)) item.2 := map_contents Table.entity Schema.tables d.schemas
  simp only [Database.entity?, hentities, List.find?_map, Option.map_eq_some_iff, List.find?_eq_some_iff_append,
    Function.comp_apply, Bool.not_eq_true', beq_iff_eq, beq_eq_false_iff_ne, ne_eq, id_entity_eq]
  constructor
  · rintro ⟨item, ⟨hmeans, before, after, hsplit, hbefore⟩, hentity⟩
    exact ⟨before, item, after, hsplit, hmeans, hbefore, hentity⟩
  · rintro ⟨before, item, after, hsplit, hmeans, hbefore, hentity⟩
    exact ⟨item, ⟨hmeans, before, after, hsplit, hbefore⟩, hentity⟩

theorem isKeyOf_eq_true {db : Database} {l : Link} : isKeyOf db l = true ↔
    ∃ entity, db.entity? l.entity = some entity ∧ ∃ key, entity.primaryKey = some key ∧ key.attrs = l.attrs := by
  rw [isKeyOf]
  cases hentity : db.entity? l.entity with
  | none => simp
  | some entity => cases hkey : entity.primaryKey <;> simp [hkey]

/-- The schema that was read finds the same keys as the document. -/
theorem isKeyOf_link (d : Document) (e : Endpoint) : isKeyOf d.database e.link = true ↔ d.NamesKey e := by
  rw [isKeyOf_eq_true]
  constructor
  · rintro ⟨entity, hentity, hkey⟩
    obtain ⟨before, item, after, hsplit, hmeans, hbefore, rfl⟩ := (entity?_link d e).mp hentity
    exact ⟨before, item, after, hsplit, hmeans, hbefore, Table.keyFields_iff.mpr hkey⟩
  · rintro ⟨before, item, after, hsplit, hmeans, hbefore, hfields⟩
    exact ⟨_, (entity?_link d e).mpr ⟨before, item, after, hsplit, hmeans, hbefore, rfl⟩,
      Table.keyFields_iff.mp hfields⟩

-- ---------------------------------------------------------------------------
-- Directions
-- ---------------------------------------------------------------------------

/-- A reference between these ends points at `target`: it alone is unique or, both being unique, it alone names a
primary key. -/
inductive Document.PointsAt (d : Document) (source target : Endpoint) : Prop
  | unique (htarget : target.relation = "1") (hsource : source.relation ≠ "1")
  | key (htarget : target.relation = "1") (hsource : source.relation = "1") (hkey : d.NamesKey target)
      (hother : ¬d.NamesKey source)

/-- The relation from one end of a reference to the other. -/
def Reference.relationFrom (r : Reference) (source target : Endpoint) : Relation where
  name := r.name
  source := source.link
  target := target.link
  onDelete := r.onDelete
  onUpdate := r.onUpdate

/-- The reference with its ends the other way round. -/
def Reference.turned (r : Reference) : Reference := { r with endpoints := r.endpoints.swap }

/-- The document in which one of the references is turned. -/
def Document.turn (d : Document) (i : Nat) : Document :=
  { d with references := d.references.modify i Reference.turned }

theorem pointsAtFirst_iff (d : Document) (first second : Endpoint) :
    pointsAtFirst d.database first.link second.link = true ↔ d.PointsAt second first := by
  have hcardinality (e : Endpoint) :
      e.link.cardinality = some (if e.relation = "1" then .one else .many) := rfl
  rw [pointsAtFirst, hcardinality, hcardinality]
  by_cases hfirst : first.relation = "1" <;> by_cases hsecond : second.relation = "1"
  · simp only [hfirst, hsecond, ↓reduceIte, Bool.and_eq_true, Bool.not_eq_true', ← Bool.not_eq_true, isKeyOf_link]
    constructor
    · rintro ⟨hkey, hother⟩
      exact .key hfirst hsecond hkey hother
    · rintro (⟨-, hmany⟩ | ⟨-, -, hkey, hother⟩)
      · exact absurd hsecond hmany
      · exact ⟨hkey, hother⟩
  · simpa [hfirst, hsecond] using Document.PointsAt.unique hfirst hsecond
  · simp only [hfirst, hsecond, ↓reduceIte, Bool.false_eq_true, false_iff]
    rintro (⟨hone, -⟩ | ⟨hone, -⟩) <;> exact hfirst hone
  · simp only [hfirst, hsecond, ↓reduceIte, Bool.false_eq_true, false_iff]
    rintro (⟨hone, -⟩ | ⟨hone, -⟩) <;> exact hfirst hone

theorem Document.PointsAt.asymm {d : Document} (h : d.PointsAt source target) : ¬d.PointsAt target source := by
  rintro (⟨hone, hmany⟩ | ⟨hone, hone', hkey, hother⟩)
  · rcases h with ⟨hone', -⟩ | ⟨hone', -⟩ <;> exact hmany hone'
  · rcases h with ⟨-, hmany⟩ | ⟨-, -, hkey', hother'⟩
    · exact hmany hone
    · exact hother hkey'

theorem relation_of_pointsAt (d : Document) (r : Reference) (h : d.PointsAt r.endpoints.2 r.endpoints.1) :
    r.relation d.database = r.relationFrom r.endpoints.2 r.endpoints.1 := by
  rw [Reference.relation, (pointsAtFirst_iff d _ _).mpr h]
  rfl

theorem relation_of_not_pointsAt (d : Document) (r : Reference) (h : ¬d.PointsAt r.endpoints.2 r.endpoints.1) :
    r.relation d.database = r.relationFrom r.endpoints.1 r.endpoints.2 := by
  rw [Reference.relation, Bool.eq_false_iff.mpr fun hfirst => h ((pointsAtFirst_iff d _ _).mp hfirst)]
  rfl

/-- Where the ends are told apart, the order in which they stand makes no difference. -/
theorem relation_turned (d : Document) (r : Reference)
    (h : d.PointsAt r.endpoints.1 r.endpoints.2 ∨ d.PointsAt r.endpoints.2 r.endpoints.1) :
    r.turned.relation d.database = r.relation d.database := by
  rcases h with h | h
  · rw [relation_of_not_pointsAt d r h.asymm, relation_of_pointsAt d r.turned h]
    rfl
  · rw [relation_of_pointsAt d r h, relation_of_not_pointsAt d r.turned h.asymm]
    rfl

theorem database_turn (d : Document) (i : Nat) :
    (d.turn i).database = { d.database with relations := (d.turn i).references.map (·.relation d.database) } := rfl

/-- A reference points from `source` to `target` if it alone refers to a unique end or, both ends being unique, to the
only one that names a primary key. The schema that is read does not depend on the order of the ends then. Every other
reference points from its first end to its second. -/
theorem relations_directed (d : Document) (i : Nat) (r : Reference) (hr : d.references[i]? = some r) :
    (∀ source target, r.endpoints = (source, target) ∨ r.endpoints = (target, source) → d.PointsAt source target →
      d.database.relations[i]? = some (r.relationFrom source target) ∧ (d.turn i).database = d.database) ∧
    (¬d.PointsAt r.endpoints.1 r.endpoints.2 → ¬d.PointsAt r.endpoints.2 r.endpoints.1 →
      d.database.relations[i]? = some (r.relationFrom r.endpoints.1 r.endpoints.2)) := by
  have hread : d.database.relations[i]? = some (r.relation d.database) := by
    rw [relations_database, List.getElem?_map, hr, Option.map_some]
  refine ⟨fun source target hends hpoints => ⟨?_, ?_⟩, fun _ hsecond => ?_⟩
  · rw [hread]
    rcases hends with hends | hends
    · rw [relation_of_not_pointsAt d r (by rw [hends]; exact hpoints.asymm), hends]
    · rw [relation_of_pointsAt d r (by rw [hends]; exact hpoints), hends]
  · have hsame : r.turned.relation d.database = r.relation d.database := by
      refine relation_turned d r ?_
      rcases hends with hends | hends <;> rw [hends]
      · exact .inl hpoints
      · exact .inr hpoints
    have hrelations : (d.turn i).references.map (·.relation d.database) = d.database.relations := by
      rw [relations_database, Document.turn]
      refine List.ext_getElem? fun j => ?_
      rw [List.getElem?_map, List.getElem?_modify, List.getElem?_map]
      by_cases hj : i = j
      · subst hj
        simp [hr, hsame]
      · simp [hj]
    rw [database_turn, hrelations]
  · rw [hread, relation_of_not_pointsAt d r hsecond]

def usersEnd : Endpoint := { schema := some "auth", table := "users", fields := ["login"], relation := "1" }

def profilesEnd : Endpoint := { table := "profiles", fields := ["login"], relation := "1" }

def profileOfUser : Reference := { endpoints := (usersEnd, profilesEnd), onDelete := some "cascade" }

/-- The users stand in a later schema, and an index of theirs overrides the key that their fields mark. -/
def accounts : Document where
  schemas := [
    { name := "public"
      tables := [{
        name := "profiles"
        fields := [{ name := "id", type := { name := "int" }, inKey := true },
          { name := "login", type := { name := "text" } }] }] },
    { name := "auth"
      tables := [{
        name := "users"
        fields := [{ name := "id", type := { name := "int" }, inKey := true },
          { name := "login", type := { name := "text" } }]
        indexes := [{ columns := [⟨.column, "login"⟩], isKey := true }] }] }]
  references := [profileOfUser]

theorem pointsAt_accounts : accounts.PointsAt profilesEnd usersEnd := by
  refine .key rfl rfl ?_ ?_
  · exact (isKeyOf_link accounts usersEnd).mp (by decide)
  · exact fun hkey => absurd ((isKeyOf_link accounts profilesEnd).mpr hkey) (by decide)

theorem relations_directed_accounts :
    accounts.references[0]? = some profileOfUser ∧ accounts.PointsAt profilesEnd usersEnd ∧
      accounts.database.relations[0]? = some (profileOfUser.relationFrom profilesEnd usersEnd) ∧
      (accounts.turn 0).database = accounts.database :=
  ⟨rfl, pointsAt_accounts,
    (relations_directed accounts 0 profileOfUser rfl).1 profilesEnd usersEnd (.inr rfl) pointsAt_accounts⟩

end SchemaDialects.Tables
