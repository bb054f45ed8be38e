import SchemaDialects.Model.Codec

/-!
# Differences of two schemas

Items are matched by identity, never by place: entities and types by name, relations by their two
ends, attributes by name, indexes by `Index.key`. Of several items with one key the first counts.
Each list of a difference ascends by key, and what is equal on both sides is not listed.
-/

namespace SchemaDialects

/-- Two versions of an item. -/
structure Changed (α : Type) where
  left : α
  right : α

/-- The difference of two collections of `α`; `δ` says how two versions of one item differ. -/
structure CollectionDiff (α δ : Type) where
  /-- Only on the left. -/
  left : List α
  /-- Only on the right. -/
  right : List α
  /-- On both sides with different content. -/
  both : List δ

structure EntityDiff where
  id : EntityName
  left : Entity
  right : Entity
  attributes : CollectionDiff Attribute (Changed Attribute)
  indexes : CollectionDiff Index (Changed Index)
  primaryKey : Option (Changed (Option PrimaryKey))

structure DatabaseDiff where
  entities : CollectionDiff Entity EntityDiff
  relations : CollectionDiff Relation (Changed Relation)
  types : CollectionDiff NamedType (Changed NamedType)

/-! ### Keyed collections -/

section Keyed

variable {α δ κ : Type} [Ord κ]

/-- Adds an item at the place of its key unless the key is taken. -/
def insertNew (key : κ) (item : α) : List (κ × α) → List (κ × α)
  | [] => [(key, item)]
  | (k, a) :: rest =>
    match compare key k with
    | .lt => (key, item) :: (k, a) :: rest
    | .eq => (k, a) :: rest
    | .gt => (k, a) :: insertNew key item rest

/-- The first item of each key, in ascending order of the keys. -/
def keyed (key : α → κ) (items : List α) : List (κ × α) :=
  items.foldl (fun table item => insertNew (key item) item table) []

/-- The item of a key, and the table without it. -/
def takeOut? (key : κ) : List (κ × α) → Option (α × List (κ × α))
  | [] => none
  | (k, a) :: rest =>
    if compare key k == .eq then some (a, rest)
    else (takeOut? key rest).map fun (b, others) => (b, (k, a) :: others)

/-- Every item of the left table takes the item of its key out of the right one. What is left there
in the end is on the right only. -/
def classify [BEq α] (changed : α → α → δ) :
    (left right : List (κ × α)) → CollectionDiff α δ
  | [], right => { left := [], right := right.map (·.2), both := [] }
  | (key, a) :: rest, right =>
    match takeOut? key right with
    | none =>
      let d := classify changed rest right
      { d with left := a :: d.left }
    | some (b, others) =>
      let d := classify changed rest others
      if a == b then d else { d with both := changed a b :: d.both }

/-- Items are in both collections, with equal or different content, or in one of them. -/
def diffBy [BEq α] (key : α → κ) (changed : α → α → δ) (left right : List α) :
    CollectionDiff α δ :=
  classify changed (keyed key left) (keyed key right)

def diffCollection [BEq α] (key : α → κ) : (left right : List α) → CollectionDiff α (Changed α) :=
  diffBy key Changed.mk

end Keyed

def CollectionDiff.isEmpty {α δ : Type} (d : CollectionDiff α δ) : Bool :=
  d.left.isEmpty && d.right.isEmpty && d.both.isEmpty

def EntityDiff.ofEntities (left right : Entity) : EntityDiff where
  id := left.id
  left := left
  right := right
  attributes := diffCollection (·.name) left.attrs right.attrs
  indexes := diffCollection Index.key left.indexes right.indexes
  primaryKey :=
    if left.primaryKey == right.primaryKey then none else some ⟨left.primaryKey, right.primaryKey⟩

/-- The difference of two schemas. -/
def Database.diff (left right : Database) : DatabaseDiff where
  entities := diffBy Entity.id EntityDiff.ofEntities left.entities right.entities
  relations := diffCollection Relation.key left.relations right.relations
  types := diffCollection NamedType.id left.types right.types

def DatabaseDiff.isEmpty (d : DatabaseDiff) : Bool :=
  d.entities.isEmpty && d.relations.isEmpty && d.types.isEmpty

/-! ### Exchanging the sides -/

def Changed.swapped {α : Type} (c : Changed α) : Changed α := ⟨c.right, c.left⟩

def CollectionDiff.swapped {α δ : Type} (swap : δ → δ) (d : CollectionDiff α δ) :
    CollectionDiff α δ :=
  ⟨d.right, d.left, d.both.map swap⟩

def EntityDiff.swapped (d : EntityDiff) : EntityDiff where
  id := d.id
  left := d.right
  right := d.left
  attributes := d.attributes.swapped Changed.swapped
  indexes := d.indexes.swapped Changed.swapped
  primaryKey := d.primaryKey.map Changed.swapped

def DatabaseDiff.swapped (d : DatabaseDiff) : DatabaseDiff where
  entities := d.entities.swapped EntityDiff.swapped
  relations := d.relations.swapped Changed.swapped
  types := d.types.swapped Changed.swapped

/-! ### As JSON -/

open Json

def Changed.encode {α : Type} (encode : α → Json) (c : Changed α) : Json :=
  Json.record [always "left" (encode c.left), always "right" (encode c.right)]

def CollectionDiff.encode {α δ : Type} (item : α → Json) (change : δ → Json)
    (d : CollectionDiff α δ) : Json :=
  Json.record [
    always "left" (.arr (d.left.map item)),
    always "right" (.arr (d.right.map item)),
    always "both" (.arr (d.both.map change))]

def EntityDiff.encode (d : EntityDiff) : Json :=
  Json.record [
    always "id" d.id.encode,
    always "left" d.left.encode,
    always "right" d.right.encode,
    always "attributes" (d.attributes.encode Attribute.encode (Changed.encode Attribute.encode)),
    always "indexes" (d.indexes.encode Index.encode (Changed.encode Index.encode)),
    ifSome "pk" (Changed.encode (orNull PrimaryKey.encode)) d.primaryKey]

def DatabaseDiff.encode (d : DatabaseDiff) : Json :=
  Json.record [
    always "entities" (d.entities.encode Entity.encode EntityDiff.encode),
    always "relations" (d.relations.encode Relation.encode (Changed.encode Relation.encode)),
    always "types" (d.types.encode NamedType.encode (Changed.encode NamedType.encode))]

end SchemaDialects
