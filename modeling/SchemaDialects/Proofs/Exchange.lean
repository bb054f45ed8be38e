import SchemaDialects.Model.Exchange
import SchemaDialects.Proofs.Json.Records

/-!
# The exchange format loses nothing

Each structure of the model is decoded from what it is encoded as: `Gets` follows the fields of its reader,
and what the reader finds under a name is what the writer has put there. `readExchange_writeExchange`: a
schema without doubles in its free-form members, which text may nest deeply enough, is read back from
its exchange format as it is, with its inconsistencies.
-/

namespace SchemaDialects

open Json Json.Record

-- ---------------------------------------------------------------------------
-- Free-form members
-- ---------------------------------------------------------------------------

mutual

/-- The free-form members of an attribute and of those nested in it. -/
def Attribute.freeForm : Attribute → List Extra
  | ⟨_, _, _, _, _, nested, _, extra⟩ => extra :: freeFormOf nested

def freeFormOf : List Attribute → List Extra
  | [] => []
  | a :: as => a.freeForm ++ freeFormOf as

end

def Entity.freeForm (e : Entity) : List Extra :=
  e.stats :: e.extra :: freeFormOf e.attrs

/-- All free-form members of a schema. -/
def Database.freeForm (db : Database) : List Extra :=
  db.extra :: (db.entities.flatMap Entity.freeForm ++ db.relations.map (·.extra) ++ db.types.map (·.extra))

/-- A schema that text can hold: free-form members are without doubles and in order, and no more brackets
are open at once than a reader allows. -/
structure Exchangeable (db : Database) : Prop where
  exact : ∀ extra ∈ db.freeForm, Exact (.obj extra)
  ordered : ∀ extra ∈ db.freeForm, Ordered (.obj extra)
  shallow : depth db.encode ≤ nestingLimit

theorem freeForm_of_mem {as : List Attribute} (ha : a ∈ as) : ∀ extra ∈ a.freeForm, extra ∈ freeFormOf as := by
  induction as with
  | nil => simp at ha
  | cons b as ih =>
    intro extra hextra
    rw [freeFormOf]
    rcases List.mem_cons.mp ha with rfl | ha
    · exact List.mem_append_left _ hextra
    · exact List.mem_append_right _ (ih ha extra hextra)

-- ---------------------------------------------------------------------------
-- Names and keys
-- ---------------------------------------------------------------------------

theorem decodes_path (path : AttributePath) : Decodes decodePath path.encode path :=
  decodes_list fun s _ => decodes_string s

theorem decodes_paths (paths : List AttributePath) :
    Decodes (Decoder.list decodePath) (.arr (paths.map AttributePath.encode)) paths :=
  decodes_list fun path _ => decodes_path path

section
variable {found : String → List Json}

theorem gets_namespace {n : Namespace} (hdatabase : found "database" = (n.database.map Json.str).toList)
    (hcatalog : found "catalog" = (n.catalog.map Json.str).toList)
    (hschema : found "schema" = (n.schema.map Json.str).toList) :
    Gets Namespace.record ["database", "catalog", "schema"] found n :=
  (((Gets.text hdatabase).map _).seq (.text hcatalog)).seq (.text hschema)

theorem gets_entityName {e : EntityName} (hname : found "entity" = [.str e.name])
    (hspace : Gets Namespace.record names found e.space) :
    Gets EntityName.record ("entity" :: names) found e :=
  ((Gets.required hname (decodes_string e.name)).map _).seq hspace.inlined

end

theorem decodes_primaryKey (k : PrimaryKey) : Decodes decodePrimaryKey k.encode k := by
  refine Gets.decodes (((Gets.text ?_).map _).seq (.required ?_ (decodes_paths k.attrs))) (by decide) <;> simp

theorem decodes_index (i : Index) : Decodes decodeIndex i.encode i := by
  refine Gets.decodes
    (((((((Gets.text ?_).map _).seq (.required ?_ (decodes_paths i.attrs))).seq (.flag ?_)).seq
      (.text ?_)).seq (.text ?_)).seq (.text ?_)) (by decide) <;> simp

theorem decodes_check (c : Check) : Decodes decodeCheck c.encode c := by
  refine Gets.decodes
    (((((Gets.text ?_).map _).seq (.many ?_ fun path _ => decodes_path path)).seq
      (.required ?_ (decodes_string c.predicate))).seq (.text ?_)) (by decide) <;> simp

-- ---------------------------------------------------------------------------
-- Attributes and entities
-- ---------------------------------------------------------------------------

theorem depth_lt_of_item {items : List Json} (h : v ∈ items) : depth v < depth (.arr items) := by
  rw [depth]
  induction items with
  | nil => simp at h
  | cons w items ih =>
    rw [depthItems]
    rcases List.mem_cons.mp h with rfl | h
    · omega
    · have := ih h
      omega

theorem depth_lt_of_member {members : List (String × Json)} (h : (k, v) ∈ members) :
    depth v < depth (.obj members) := by
  rw [depth]
  induction members with
  | nil => simp at h
  | cons m members ih =>
    obtain ⟨l, w⟩ := m
    rw [depthMembers]
    rcases List.mem_cons.mp h with heq | h
    · obtain ⟨rfl, rfl⟩ := Prod.mk.inj heq
      omega
    · have := ih h
      omega

theorem encodeAttributes_eq (as : List Attribute) : encodeAttributes as = as.map Attribute.encode := by
  induction as with
  | nil => rfl
  | cons a as ih => rw [encodeAttributes, ih, List.map_cons]

/-- Attributes are a list that is left out when it is empty, as others are. -/
theorem attrs_eq (as : List Attribute) :
    (if as.isEmpty then none else some ("attrs", .arr (encodeAttributes as))) =
      ifMany "attrs" Attribute.encode as := by
  rw [ifMany, encodeAttributes_eq]

theorem depth_of_ifMany {encode : α → Json} (hx : x ∈ xs) (hmember : ifMany k encode xs ∈ members) :
    depth (encode x) + 1 < depth (Json.record members) := by
  have hsome : ifMany k encode xs = some (k, .arr (xs.map encode)) := by
    cases xs with
    | nil => simp at hx
    | cons y xs => rfl
  have hlist : (k, .arr (xs.map encode)) ∈ members.filterMap id :=
    List.mem_filterMap.mpr ⟨_, hmember, hsome⟩
  have hitem := depth_lt_of_item (List.mem_map_of_mem (f := encode) hx)
  have hrecord := depth_lt_of_member hlist
  exact Nat.lt_of_le_of_lt hitem hrecord

theorem decodes_attribute : ∀ (n : Nat) {a : Attribute}, depth a.encode ≤ n →
    (∀ extra ∈ a.freeForm, Ordered (.obj extra)) → Decodes (decodeAttributeWithin n) a.encode a
  | 0, ⟨_, _, _, _, _, _, _, _⟩, hdepth, _ => by simp [Attribute.encode, Json.record, depth] at hdepth
  | n + 1, ⟨name, type, nullable, generated, defaultValue, nested, doc, extra⟩, hdepth, hordered => by
    rw [Attribute.encode, attrs_eq] at hdepth ⊢
    have hnested : ∀ a ∈ nested, Decodes (decodeAttributeWithin n) a.encode a := fun a ha => by
      have hlt : depth a.encode + 1 < n + 1 :=
        Nat.lt_of_lt_of_le (depth_of_ifMany (k := "attrs") ha (by simp)) hdepth
      refine decodes_attribute n (by omega) fun x hx => hordered x ?_
      simp [Attribute.freeForm, freeForm_of_mem ha x hx]
    refine Gets.decodes
      (((((((((Gets.required ?_ (decodes_string name)).map _).seq (.required ?_ (decodes_string type))).seq
        (.flag ?_)).seq (.flag ?_)).seq (.text ?_)).seq (.many ?_ hnested)).seq (.text ?_)).seq
        (.extra ?_ (hordered extra (by simp [Attribute.freeForm])))) (by decide) <;> simp

theorem decodes_entity (e : Entity) (hdepth : depth e.encode ≤ nestingLimit)
    (hordered : ∀ extra ∈ e.freeForm, Ordered (.obj extra)) : Decodes decodeEntity e.encode e := by
  rw [Entity.encode, attrs_eq] at hdepth ⊢
  have hattrs : ∀ a ∈ e.attrs, Decodes decodeAttribute a.encode a := fun a ha => by
    have hlt : depth a.encode + 1 < nestingLimit :=
      Nat.lt_of_lt_of_le (depth_of_ifMany (k := "attrs") ha (by simp)) hdepth
    refine decodes_attribute (nestingLimit + 1) (by omega) fun x hx => hordered x ?_
    simp [Entity.freeForm, freeForm_of_mem ha x hx]
  have hkey : ∀ k ∈ e.primaryKey, Decodes (Decoder.option decodePrimaryKey) k.encode (some k) :=
    fun k _ => Decodes.option (decodes_primaryKey k) Json.noConfusion
  refine Gets.decodes
    ((((((((((Gets.required ?_ (decodes_string e.name)).map _).seq (.many ?_ hattrs)).seq
      (.optional ?_ hkey)).seq (.many ?_ fun i _ => decodes_index i)).seq
      (.many ?_ fun c _ => decodes_check c)).seq (.text ?_)).seq
      (.extra ?_ (hordered e.stats (by simp [Entity.freeForm])))).seq
      (.extra ?_ (hordered e.extra (by simp [Entity.freeForm])))).seq
      (Gets.inlined (gets_namespace ?_ ?_ ?_))) (by decide) <;> simp [Namespace.members]

-- ---------------------------------------------------------------------------
-- Relations and types
-- ---------------------------------------------------------------------------

theorem decodes_cardinality (c : Cardinality) :
    Decodes (Decoder.option decodeCardinality) (.str c.name) (some c) := by
  refine Decodes.option (decodes_variant ?_) Json.noConfusion
  cases c <;> rfl

theorem decodes_link (l : Link) : Decodes decodeLink l.encode l := by
  refine Gets.decodes
    ((((Gets.required ?_ (decodes_paths l.attrs)).map _).seq
      (.optional ?_ fun c _ => decodes_cardinality c)).seq
      (Gets.inlined (gets_entityName ?_ (gets_namespace ?_ ?_ ?_)))) (by decide) <;>
    simp [EntityName.members, Namespace.members]

theorem decodes_relation (r : Relation) (hordered : Ordered (.obj r.extra)) :
    Decodes decodeRelation r.encode r := by
  refine Gets.decodes
    ((((((((Gets.text ?_).map _).seq (.required ?_ (decodes_link r.source))).seq
      (.required ?_ (decodes_link r.target))).seq (.text ?_)).seq (.text ?_)).seq (.text ?_)).seq
      (.extra ?_ hordered)) (by decide) <;> simp

theorem decodes_namedType (t : NamedType) (hordered : Ordered (.obj t.extra)) :
    Decodes decodeNamedType t.encode t := by
  have hvalues : ∀ values ∈ t.values, Decodes (Decoder.option (Decoder.list Decoder.string))
      (strings values) (some values) := fun values _ =>
    Decodes.option (decodes_list fun s _ => decodes_string s) Json.noConfusion
  refine Gets.decodes
    (((((((Gets.required ?_ (decodes_string t.name)).map _).seq (.optional ?_ hvalues)).seq
      (.text ?_)).seq (.text ?_)).seq (.extra ?_ hordered)).seq
      (Gets.inlined (gets_namespace ?_ ?_ ?_))) (by decide) <;> simp [Namespace.members]

theorem decodes_stats (s : DatabaseStats) : Decodes decodeDatabaseStats s.encode s := by
  refine Gets.decodes (((Gets.text ?_).map _).seq (.text ?_)) (by decide) <;> simp

/-- A schema is decoded from what it is encoded as. -/
theorem decodes_database (hdepth : depth db.encode ≤ nestingLimit)
    (hordered : ∀ extra ∈ db.freeForm, Ordered (.obj extra)) : Decodes decodeDatabase db.encode db := by
  have hentities : ∀ e ∈ db.entities, Decodes decodeEntity e.encode e := fun e he => by
    have hlt : depth e.encode + 1 < nestingLimit :=
      Nat.lt_of_lt_of_le (depth_of_ifMany (k := "entities") he (by simp)) hdepth
    refine decodes_entity e (by omega) fun x hx => hordered x ?_
    simp only [Database.freeForm, List.mem_cons, List.mem_append, List.mem_flatMap]
    exact .inr (.inl (.inl ⟨e, he, hx⟩))
  have hrelations : ∀ r ∈ db.relations, Decodes decodeRelation r.encode r := fun r hr => by
    refine decodes_relation r (hordered r.extra ?_)
    simp only [Database.freeForm, List.mem_cons, List.mem_append, List.mem_map]
    exact .inr (.inl (.inr ⟨r, hr, rfl⟩))
  have htypes : ∀ t ∈ db.types, Decodes decodeNamedType t.encode t := fun t ht => by
    refine decodes_namedType t (hordered t.extra ?_)
    simp only [Database.freeForm, List.mem_cons, List.mem_append, List.mem_map]
    exact .inr (.inr ⟨t, ht, rfl⟩)
  have hstats : ∀ s ∈ db.stats, Decodes (Decoder.option decodeDatabaseStats) s.encode (some s) :=
    fun s _ => Decodes.option (decodes_stats s) Json.noConfusion
  refine Gets.decodes
    ((((((Gets.many ?_ hentities).map _).seq (.many ?_ hrelations)).seq (.many ?_ htypes)).seq
      (.extra ?_ (hordered db.extra (by simp [Database.freeForm])))).seq (.optional ?_ hstats)) (by decide) <;>
    simp

-- ---------------------------------------------------------------------------
-- Numbers
-- ---------------------------------------------------------------------------

/-- A member whose value text can hold. -/
def ExactMember (m : Member) : Prop :=
  ∀ p ∈ m, Exact p.2

theorem exactItems_iff {items : List Json} : ExactItems items ↔ ∀ v ∈ items, Exact v := by
  induction items with
  | nil => simp [ExactItems]
  | cons v items ih => simp [ExactItems, ih]

theorem exact_record (h : ∀ m ∈ members, ExactMember m) : Exact (Json.record members) := by
  rw [Json.record, Exact]
  induction members with
  | nil => trivial
  | cons m members ih =>
    obtain ⟨hm, hms⟩ := List.forall_mem_cons.mp h
    cases m with
    | none => exact ih hms
    | some p => exact ⟨hm p rfl, ih hms⟩

@[simp] theorem exactMember_always : ExactMember (always k v) ↔ Exact v := by
  simp [ExactMember, always]

@[simp] theorem exactMember_ifSome {encode : α → Json} :
    ExactMember (ifSome k encode x) ↔ ∀ a ∈ x, Exact (encode a) := by
  simp [ExactMember, ifSome]

@[simp] theorem exactMember_ifTrue : ExactMember (ifTrue k b) := by
  cases b <;> simp [ExactMember, ifTrue, Exact]

@[simp] theorem exactMember_ifMany {encode : α → Json} :
    ExactMember (ifMany k encode xs) ↔ ∀ x ∈ xs, Exact (encode x) := by
  cases xs with
  | nil => simp [ExactMember, ifMany]
  | cons x xs => simp [ExactMember, ifMany, Exact, ExactItems, exactItems_iff]

@[simp] theorem exactMember_ifExtra : ExactMember (ifExtra k extra) ↔ Exact (.obj extra) := by
  cases extra with
  | nil => simp [ExactMember, ifExtra, Exact, ExactMembers]
  | cons m extra => simp [ExactMember, ifExtra]

@[simp] theorem exact_str (s : String) : Exact (.str s) := trivial

@[simp] theorem exact_strings (values : List String) : Exact (strings values) := by
  simp [strings, Exact, exactItems_iff]

@[simp] theorem exact_paths (paths : List AttributePath) :
    Exact (.arr (paths.map AttributePath.encode)) := by
  simp [Exact, exactItems_iff, AttributePath.encode]

theorem exact_primaryKey (k : PrimaryKey) : Exact k.encode :=
  exact_record (by simp)

theorem exact_index (i : Index) : Exact i.encode :=
  exact_record (by simp)

theorem exact_check (c : Check) : Exact c.encode :=
  exact_record (by simp [AttributePath.encode])

theorem exact_link (l : Link) : Exact l.encode :=
  exact_record (by simp [EntityName.members, Namespace.members])

theorem exact_stats (s : DatabaseStats) : Exact s.encode :=
  exact_record (by simp)

mutual

theorem exact_attribute : ∀ a : Attribute, (∀ extra ∈ a.freeForm, Exact (.obj extra)) → Exact a.encode
  | ⟨name, type, nullable, generated, defaultValue, nested, doc, extra⟩, h => by
    obtain ⟨hextra, hnested⟩ := List.forall_mem_cons.mp h
    rw [Attribute.encode, attrs_eq]
    exact exact_record (by simpa [hextra] using exact_attributes nested hnested)

theorem exact_attributes : ∀ as : List Attribute, (∀ extra ∈ freeFormOf as, Exact (.obj extra)) →
    ∀ a ∈ as, Exact a.encode
  | [], _, _, ha => by simp at ha
  | a :: as, h, b, hb => by
    obtain ⟨hfirst, hrest⟩ := List.forall_mem_append.mp h
    rcases List.mem_cons.mp hb with heq | hb
    · rw [heq]
      exact exact_attribute a hfirst
    · exact exact_attributes as hrest b hb

end

theorem exact_entity (e : Entity) (h : ∀ extra ∈ e.freeForm, Exact (.obj extra)) : Exact e.encode := by
  obtain ⟨hstats, h⟩ := List.forall_mem_cons.mp h
  obtain ⟨hextra, hattrs⟩ := List.forall_mem_cons.mp h
  have hnested := exact_attributes e.attrs hattrs
  rw [Entity.encode, attrs_eq]
  refine exact_record ?_
  simpa [Namespace.members, hstats, hextra, exact_primaryKey, exact_index, exact_check] using hnested

/-- What a schema is encoded as is without doubles if its free-form members are. -/
theorem exact_database {db : Database} (h : ∀ extra ∈ db.freeForm, Exact (.obj extra)) : Exact db.encode := by
  obtain ⟨hextra, h⟩ := List.forall_mem_cons.mp h
  obtain ⟨h, htypes⟩ := List.forall_mem_append.mp h
  obtain ⟨hentities, hrelations⟩ := List.forall_mem_append.mp h
  have hentity : ∀ e ∈ db.entities, Exact e.encode := fun e he =>
    exact_entity e fun x hx => hentities x (List.mem_flatMap.mpr ⟨e, he, hx⟩)
  have hrelation : ∀ r ∈ db.relations, Exact r.encode := fun r hr => by
    have hmember := hrelations r.extra (List.mem_map_of_mem (f := Relation.extra) hr)
    exact exact_record (by simpa [exact_link] using hmember)
  have htype : ∀ t ∈ db.types, Exact t.encode := fun t ht => by
    have hmember := htypes t.extra (List.mem_map_of_mem (f := NamedType.extra) ht)
    exact exact_record (by simpa [Namespace.members] using hmember)
  refine exact_record ?_
  simpa [hextra, exact_stats] using ⟨hentity, hrelation, htype⟩

-- ---------------------------------------------------------------------------
-- The text
-- ---------------------------------------------------------------------------

/-- The exchange format of a schema is read back as the schema, with its inconsistencies. -/
theorem readExchange_writeExchange (h : Exchangeable db) :
    Database.readExchange db.writeExchange = { value := some db, diagnostics := db.validate } := by
  obtain ⟨node, hshows, htree⟩ := ofText_pretty (exact_database h.exact) h.shallow
  have hdecode : decodeText decodeDatabase db.writeExchange = .ok db := by
    rw [decodeText, Database.writeExchange, htree]
    simp only [decodes_database h.shallow h.ordered node hshows]
    rfl
  simp [Database.readExchange, readJson, hdecode, Parsed.andThen, Parsed.success]

/-- A schema with empty and absent parts, nested attributes and metadata, and texts that need escapes. -/
def exchangeSample : Database where
  entities := [
    { space := { catalog := some "main", schema := some "shop" }
      name := "orders"
      attrs := [
        { name := "id", type := "int" },
        { name := "ship\"to", type := "record", nullable := true, doc := some "back\\slash\nand line",
          nested := [
            { name := "street", type := "text", defaultValue := some "'\x01'",
              extra := [("depth", .int (-3))] }] }]
      primaryKey := some { attrs := [["id"], ["ship\"to", "street"]] }
      indexes := [{ attrs := [], unique := true, definition := some "" }]
      checks := [{ name := some "positive", predicate := "id > 0" }]
      stats := [("rows", .int 18446744073709551615)] },
    { name := "", doc := some "" }]
  relations := [
    { source := { entity := { name := "orders" }, attrs := [["id"]], cardinality := some .many }
      target := { entity := { name := "" }, attrs := [] }
      onDelete := some "cascade" }]
  types := [{ name := "state", values := some [] }, { name := "pair", definition := some "(a, b)" }]
  extra := [
    ("groups", .arr [.null, .obj [("a", .bool true), ("b", .arr [])]]),
    ("note", .str "caf\u00e9\x7f")]
  stats := some {}

theorem exchangeable_sample : Exchangeable exchangeSample where
  exact := by decide
  ordered := by decide
  shallow := by decide

theorem readExchange_writeExchange_sample : Exchangeable exchangeSample ∧
    Database.readExchange exchangeSample.writeExchange =
      { value := some exchangeSample, diagnostics := exchangeSample.validate } :=
  ⟨exchangeable_sample, readExchange_writeExchange exchangeable_sample⟩

end SchemaDialects
