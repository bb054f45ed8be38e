import Mathlib.Data.List.Forall2
import SchemaDialects.Proofs.Diagram.Graphs
import SchemaDialects.Proofs.Lookup

/-!
# What a graph keeps of a schema

`Graph.projects`: a graph has a node for each entity, with a column for each of its attributes, however deeply nested,
and an edge for each relation between entities that exist. The place of an attribute is the list of its numbers among
its siblings on every level; columns come in the order of places, an attribute before those nested in it. Less detail
leaves columns out and does nothing else.
-/

namespace SchemaDialects.Diagram

-- ---------------------------------------------------------------------------
-- Places of attributes
-- ---------------------------------------------------------------------------

/-- The attribute at a place, with its path. -/
def attributeAt? (parent : AttributePath) (attrs : List Attribute) : List Nat → Option (AttributePath × Attribute)
  | [] => none
  | [i] => attrs[i]?.map fun attr => (parent ++ [attr.name], attr)
  | i :: place => attrs[i]?.bind fun attr => attributeAt? (parent ++ [attr.name]) attr.nested place

/-- All places in their order, the first of the attributes having the number `i`. -/
def placesFrom (i : Nat) : List Attribute → List (List Nat)
  | [] => []
  | ⟨_, _, _, _, _, nested, _, _⟩ :: rest => [i] :: ((placesFrom 0 nested).map (i :: ·) ++ placesFrom (i + 1) rest)

@[simp] theorem placesFrom_nil : placesFrom i [] = [] := by rw [placesFrom]

theorem placesFrom_cons (i : Nat) (attr : Attribute) (rest : List Attribute) : placesFrom i (attr :: rest) =
    [i] :: ((placesFrom 0 attr.nested).map (i :: ·) ++ placesFrom (i + 1) rest) := by
  cases attr
  rw [placesFrom]

theorem attributeAt?_cons (parent : AttributePath) (attrs : List Attribute) (i j : Nat) (place : List Nat) :
    attributeAt? parent attrs (i :: j :: place) =
      attrs[i]?.bind fun attr => attributeAt? (parent ++ [attr.name]) attr.nested (j :: place) := rfl

/-- Whether there is an attribute does not depend on how its path begins. -/
theorem attributeAt?_isSome (parent other : AttributePath) (attrs : List Attribute) (place : List Nat) :
    (attributeAt? parent attrs place).isSome = (attributeAt? other attrs place).isSome := by
  induction place generalizing parent other attrs with
  | nil => rfl
  | cons i place ih =>
    cases place with
    | nil => simp [attributeAt?]
    | cons j place =>
      rw [attributeAt?_cons, attributeAt?_cons]
      cases attrs[i]? with
      | none => rfl
      | some attr => exact ih _ _ _

theorem attributeAt?_tail (parent : AttributePath) (attr : Attribute) (rest : List Attribute) (i : Nat)
    (place : List Nat) :
    attributeAt? parent (attr :: rest) ((i + 1) :: place) = attributeAt? parent rest (i :: place) := by
  cases place <;> simp [attributeAt?]

theorem exists_cons_of_mem_placesFrom (h : place ∈ placesFrom i attrs) : ∃ j more, place = j :: more ∧ i ≤ j := by
  induction attrs generalizing i with
  | nil => simp at h
  | cons attr rest ih =>
    rw [placesFrom_cons] at h
    rcases List.mem_cons.mp h with rfl | h
    · exact ⟨i, [], rfl, Nat.le_refl i⟩
    · rcases List.mem_append.mp h with h | h
      · obtain ⟨more, -, rfl⟩ := List.mem_map.mp h
        exact ⟨i, more, rfl, Nat.le_refl i⟩
      · obtain ⟨j, more, rfl, hj⟩ := ih h
        exact ⟨j, more, rfl, Nat.le_of_succ_le hj⟩

theorem mem_placesFrom :
    (i + j) :: place ∈ placesFrom i attrs ↔ (attributeAt? [] attrs (j :: place)).isSome = true := by
  induction attrs using attributes_induction generalizing i j place with
  | nil => cases place <;> simp [attributeAt?]
  | cons attr rest ihn ihr =>
    rw [placesFrom_cons]
    cases j with
    | zero =>
      have hlater : ∀ more, i :: more ∉ placesFrom (i + 1) rest := fun more hmem => by
        obtain ⟨j, _, heq, hj⟩ := exists_cons_of_mem_placesFrom hmem
        obtain ⟨rfl, -⟩ := List.cons.inj heq
        omega
      cases place with
      | nil => simp [attributeAt?]
      | cons k place =>
        have hnested : (0 + k) :: place ∈ placesFrom 0 attr.nested ↔
            (attributeAt? [] attr.nested (k :: place)).isSome = true := ihn
        rw [Nat.zero_add] at hnested
        rw [attributeAt?_cons, List.getElem?_cons_zero, Option.bind_some, attributeAt?_isSome _ [], ← hnested]
        simp [hlater]
    | succ j =>
      rw [attributeAt?_tail, ← ihr (i := i + 1) (j := j), show i + 1 + j = i + (j + 1) by omega]
      simp

/-- The places of all attributes, each once, in ascending order: an attribute comes before those nested in it, and these
before its later siblings. -/
structure IsPreorder (attrs : List Attribute) (places : List (List Nat)) : Prop where
  ascending : places.Pairwise (· < ·)
  complete : ∀ place, place ∈ places ↔ (attributeAt? [] attrs place).isSome = true

theorem ascending_placesFrom (i : Nat) (attrs : List Attribute) : (placesFrom i attrs).Pairwise (· < ·) := by
  induction attrs using attributes_induction generalizing i with
  | nil => simp
  | cons attr rest ihn ihr =>
    rw [placesFrom_cons]
    have hnested : ((placesFrom 0 attr.nested).map (i :: ·)).Pairwise (· < ·) :=
      (ihn 0).map _ fun a b h => List.cons_lt_cons_iff.mpr (.inr ⟨rfl, h⟩)
    refine List.pairwise_cons.mpr ⟨fun place hplace => ?_, List.pairwise_append.mpr ⟨hnested, ihr (i + 1), ?_⟩⟩
    · rcases List.mem_append.mp hplace with hplace | hplace
      · obtain ⟨inner, hinner, rfl⟩ := List.mem_map.mp hplace
        obtain ⟨j, more, rfl, -⟩ := exists_cons_of_mem_placesFrom hinner
        exact List.cons_lt_cons_iff.mpr (.inr ⟨rfl, List.nil_lt_cons _ _⟩)
      · obtain ⟨j, more, rfl, hj⟩ := exists_cons_of_mem_placesFrom hplace
        exact List.cons_lt_cons_iff.mpr (.inl hj)
    · intro place hplace later hlater
      obtain ⟨inner, -, rfl⟩ := List.mem_map.mp hplace
      obtain ⟨j, more, rfl, hj⟩ := exists_cons_of_mem_placesFrom hlater
      exact List.cons_lt_cons_iff.mpr (.inl hj)

theorem isPreorder_placesFrom (attrs : List Attribute) : IsPreorder attrs (placesFrom 0 attrs) where
  ascending := ascending_placesFrom 0 attrs
  complete place := by
    cases place with
    | nil =>
      refine iff_of_false (fun hmem => ?_) (by simp [attributeAt?])
      obtain ⟨_, _, heq, -⟩ := exists_cons_of_mem_placesFrom hmem
      cases heq
    | cons i place =>
      rw [← mem_placesFrom (i := 0), Nat.zero_add]

-- ---------------------------------------------------------------------------
-- Columns
-- ---------------------------------------------------------------------------

/-- The column shows the attribute that has this path in the entity. -/
structure Shows (db : Database) (e : Entity) (path : AttributePath) (attr : Attribute) (c : Column) : Prop where
  name : c.name = path.render
  type : c.type = attr.type
  nullable : c.nullable = attr.nullable
  doc : c.doc = attr.doc
  inKey : c.inKey = true ↔ ∃ key, e.primaryKey = some key ∧ path ∈ key.attrs
  isReference : c.isReference = true ↔ ∃ r ∈ db.relations, r.source.entity = e.id ∧ path ∈ r.source.attrs

/-- The column shows the attribute at this place. -/
def ShowsAt (db : Database) (e : Entity) (parent : AttributePath) (attrs : List Attribute) (place : List Nat)
    (c : Column) : Prop :=
  ∃ path attr, attributeAt? parent attrs place = some (path, attr) ∧ Shows db e path attr c

theorem inKey_iff {e : Entity} : e.inKey path = true ↔ ∃ key, e.primaryKey = some key ∧ path ∈ key.attrs := by
  rw [Entity.inKey]
  cases e.primaryKey <;> simp

theorem isSource_iff {db : Database} {e : Entity} :
    isSource db e path = true ↔ ∃ r ∈ db.relations, r.source.entity = e.id ∧ path ∈ r.source.attrs := by
  simp [isSource]

theorem columnsOfAll_cons (db : Database) (e : Entity) (parent : AttributePath) (attr : Attribute)
    (rest : List Attribute) : ∃ c, Shows db e (parent ++ [attr.name]) attr c ∧
      columnsOfAll db e parent (attr :: rest) =
        c :: (columnsOfAll db e (parent ++ [attr.name]) attr.nested ++ columnsOfAll db e parent rest) := by
  cases attr
  rw [columnsOfAll, columnsOf]
  exact ⟨_, ⟨rfl, rfl, rfl, rfl, inKey_iff, isSource_iff⟩, rfl⟩

/-- An attribute is nested in the one that has the first number of its place. -/
theorem ShowsAt.outward {attr : Attribute} (h : ShowsAt db e (parent ++ [attr.name]) attr.nested place c)
    (hattr : attrs[i]? = some attr) : ShowsAt db e parent attrs (i :: place) c := by
  obtain ⟨path, found, hfound, hshows⟩ := h
  cases place with
  | nil => cases hfound
  | cons j place =>
    refine ⟨path, found, ?_, hshows⟩
    rw [attributeAt?_cons, hattr, Option.bind_some, hfound]

/-- By recursion over the attributes from the number `front.length` on. -/
theorem columnsOfAll_shows (db : Database) (e : Entity) (parent : AttributePath) (front attrs : List Attribute) :
    List.Forall₂ (ShowsAt db e parent (front ++ attrs)) (placesFrom front.length attrs)
      (columnsOfAll db e parent attrs) := by
  induction attrs using attributes_induction generalizing parent front with
  | nil => simp [columnsOfAll]
  | cons attr rest ihn ihr =>
    have hattr : (front ++ attr :: rest)[front.length]? = some attr := by simp
    obtain ⟨c, hc, hcolumns⟩ := columnsOfAll_cons db e parent attr rest
    have hnested := List.forall₂_map_left_iff.mpr
      ((ihn (parent ++ [attr.name]) []).imp fun _ _ (h : ShowsAt db e _ _ _ _) => h.outward hattr)
    have hrest := ihr parent (front ++ [attr])
    rw [List.length_append, List.append_assoc] at hrest
    rw [placesFrom_cons, hcolumns]
    exact .cons ⟨_, attr, by simp [attributeAt?], hc⟩ (List.rel_append hnested hrest)

-- ---------------------------------------------------------------------------
-- Graphs
-- ---------------------------------------------------------------------------

/-- The columns of every node. -/
def columnsAt (db : Database) (detail : Detail) : List (List Column) :=
  (Graph.ofDatabase db detail).nodes.map (·.columns)

theorem columnsAt_eq (db : Database) (detail : Detail) :
    columnsAt db detail = db.entities.map fun e => (columnsOfAll db e [] e.attrs).filter detail.shows := by
  obtain ⟨groups, hnodes⟩ := Graph.exists_nodes db detail
  rw [columnsAt, hnodes, List.map_map]
  rfl

theorem columnsAt_all (db : Database) :
    columnsAt db .all = db.entities.map fun e => columnsOfAll db e [] e.attrs := by
  rw [columnsAt_eq]
  exact List.map_congr_left fun e _ => List.filter_true _

theorem columnsAt_filter (db : Database) (detail : Detail) :
    columnsAt db detail = (columnsAt db .all).map (List.filter detail.shows) := by
  rw [columnsAt_all, columnsAt_eq, List.map_map]
  rfl

theorem columnsAt_sublist (db : Database) {less more : Detail}
    (h : ∀ c, less.shows c = true → more.shows c = true) :
    List.Forall₂ List.Sublist (columnsAt db less) (columnsAt db more) := by
  rw [columnsAt_eq, columnsAt_eq, List.forall₂_map_left_iff, List.forall₂_map_right_iff, List.forall₂_same]
  exact fun e _ => List.monotone_filter_right _ h

/-- The edge draws this relation. -/
structure Draws (r : Relation) (edge : Edge) : Prop where
  source : edge.source = r.source.entity.render
  target : edge.target = r.target.entity.render
  sourceCardinality : edge.sourceCardinality = r.source.cardinality.getD .many
  targetCardinality : edge.targetCardinality = r.target.cardinality.getD .one
  label : edge.label = r.name

/-- Both entities exist. -/
def isDrawn (db : Database) (r : Relation) : Bool :=
  (db.entities.map (·.id)).contains r.source.entity && (db.entities.map (·.id)).contains r.target.entity

theorem isSome_entity? (db : Database) (id : EntityName) :
    (db.entity? id).isSome = (db.entities.map (·.id)).contains id := by
  rw [Bool.eq_iff_iff]
  simp [Database.entity?, List.find?_isSome]

theorem edges_draw (db : Database) (detail : Detail) :
    List.Forall₂ Draws (db.relations.filter (isDrawn db)) (Graph.ofDatabase db detail).edges := by
  show List.Forall₂ Draws _ (db.relations.filterMap (Edge.ofRelation? db))
  induction db.relations with
  | nil => exact .nil
  | cons r relations ih =>
    rw [List.filter_cons, List.filterMap_cons, Edge.ofRelation?, isSome_entity?, isSome_entity?, ← isDrawn]
    split
    · exact .cons ⟨rfl, rfl, rfl, rfl, rfl⟩ ih
    · exact ih

/-- What the graph of this detail keeps of a schema, and how the levels of detail differ. -/
structure Graph.Projects (db : Database) (detail : Detail) : Prop where
  /-- There is a node for each entity. -/
  nodes : ((ofDatabase db detail).nodes.map fun n => (n.id, n.label, n.doc)) =
    db.entities.map fun e => (e.id.render, e.id.render, e.doc)
  /-- In full detail there is a column for each attribute, at any depth. -/
  columns : List.Forall₂ (fun e columns => ∃ places, IsPreorder e.attrs places ∧
    List.Forall₂ (ShowsAt db e [] e.attrs) places columns) db.entities (columnsAt db .all)
  /-- Any other level leaves some of these columns out. -/
  level : columnsAt db detail = (columnsAt db .all).map (List.filter detail.shows)
  none_empty : ∀ columns ∈ columnsAt db .none, columns = []
  none_keys : List.Forall₂ List.Sublist (columnsAt db .none) (columnsAt db .keys)
  keys_references : List.Forall₂ List.Sublist (columnsAt db .keys) (columnsAt db .keysAndReferences)
  references_all : List.Forall₂ List.Sublist (columnsAt db .keysAndReferences) (columnsAt db .all)
  /-- There is an edge for each relation between entities that exist, whatever the level. -/
  edges : List.Forall₂ Draws (db.relations.filter (isDrawn db)) (ofDatabase db detail).edges
  sameEdges : (ofDatabase db detail).edges = (ofDatabase db .all).edges
  joined : ∀ edge ∈ (ofDatabase db detail).edges, ∃ source ∈ (ofDatabase db detail).nodes,
    ∃ target ∈ (ofDatabase db detail).nodes, edge.source = source.id ∧ edge.target = target.id

theorem Graph.exists_node {x : Entity} (detail : Detail) (hx : x ∈ db.entities) :
    ∃ n ∈ (ofDatabase db detail).nodes, n.id = x.id.render :=
  List.mem_map.mp (render_mem_ids hx)

theorem Graph.projects (db : Database) (detail : Detail) : Projects db detail where
  nodes := by
    obtain ⟨groups, hnodes⟩ := exists_nodes db detail
    rw [hnodes, List.map_map]
    rfl
  columns := by
    rw [columnsAt_all, List.forall₂_map_right_iff, List.forall₂_same]
    exact fun e _ => ⟨_, isPreorder_placesFrom e.attrs, columnsOfAll_shows db e [] [] e.attrs⟩
  level := columnsAt_filter db detail
  none_empty := by
    rw [columnsAt_eq]
    exact List.forall_mem_map.mpr fun e _ => List.filter_false _
  none_keys := columnsAt_sublist db fun c h => by cases h
  keys_references := columnsAt_sublist db fun c hkey => Bool.or_eq_true_iff.mpr (.inl hkey)
  references_all := columnsAt_sublist db fun c _ => rfl
  edges := edges_draw db detail
  sameEdges := rfl
  joined edge hedge := by
    obtain ⟨r, -, hr⟩ := List.mem_filterMap.mp hedge
    obtain ⟨⟨hsource, htarget⟩, ⟨x, hx, hxid⟩, ⟨y, hy, hyid⟩⟩ := Edge.of_relation hr
    obtain ⟨source, hmem, hid⟩ := exists_node detail hx
    obtain ⟨target, hmem', hid'⟩ := exists_node detail hy
    exact ⟨source, hmem, target, hmem', by rw [hsource, hid, hxid], by rw [htarget, hid', hyid]⟩

end SchemaDialects.Diagram
