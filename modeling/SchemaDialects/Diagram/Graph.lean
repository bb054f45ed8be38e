import SchemaDialects.Diagram.Detail
import SchemaDialects.Model.Group

/-!
# Schema graphs

What a diagram shows: a node for each entity, an edge for each relation between known entities.
-/

namespace SchemaDialects.Diagram

structure Column where
  /-- The path of the attribute, with dots. -/
  name : String
  type : String
  nullable : Bool
  inKey : Bool
  isReference : Bool
  doc : Option String
  deriving DecidableEq, Repr

structure Node where
  /-- The name of the entity. -/
  id : String
  label : String
  doc : Option String
  columns : List Column
  group : Option String
  deriving DecidableEq, Repr

structure Edge where
  source : String
  target : String
  sourceCardinality : Cardinality
  targetCardinality : Cardinality
  label : Option String
  deriving DecidableEq, Repr

structure Graph where
  nodes : List Node
  edges : List Edge
  deriving DecidableEq, Repr

/-! ### Columns -/

/-- Whether some relation starts from `path` of the entity. -/
def isSource (db : Database) (e : Entity) (path : AttributePath) : Bool :=
  db.relations.any fun r => r.source.entity == e.id && r.source.attrs.contains path

mutual

/-- The column of an attribute inside `parent`, then those of the attributes nested in it. -/
def columnsOf (db : Database) (e : Entity) (parent : AttributePath) : Attribute → List Column
  | ⟨name, type, nullable, _, _, nested, doc, _⟩ =>
    let path := parent ++ [name]
    { name := AttributePath.render path
      type
      nullable
      inKey := e.inKey path
      isReference := isSource db e path
      doc } :: columnsOfAll db e path nested

def columnsOfAll (db : Database) (e : Entity) (parent : AttributePath) : List Attribute → List Column
  | [] => []
  | attr :: rest => columnsOf db e parent attr ++ columnsOfAll db e parent rest

end

/-- Whether a diagram of this detail shows the column. -/
def Detail.shows (detail : Detail) (c : Column) : Bool :=
  match detail with
  | .none => false
  | .keys => c.inKey
  | .keysAndReferences => c.inKey || c.isReference
  | .all => true

/-! ### Graphs -/

/-- The last group that lists the entity. -/
def groupOf (groups : List Group) (id : EntityName) : Option String :=
  (groups.reverse.find? (·.entities.contains id)).map (·.name)

def Node.ofEntity (db : Database) (groups : List Group) (detail : Detail) (e : Entity) : Node where
  id := e.id.render
  label := e.id.render
  doc := e.doc
  columns := (columnsOfAll db e [] e.attrs).filter detail.shows
  group := groupOf groups e.id

/-- The edge of a relation between two known entities. -/
def Edge.ofRelation? (db : Database) (r : Relation) : Option Edge :=
  if (db.entity? r.source.entity).isSome && (db.entity? r.target.entity).isSome then
    some {
      source := r.source.entity.render
      target := r.target.entity.render
      sourceCardinality := r.source.cardinality.getD .many
      targetCardinality := r.target.cardinality.getD .one
      label := r.name }
  else none

/-- The graph of a schema. Metadata that are no groups count as none. -/
def Graph.ofDatabase (db : Database) (detail : Detail) : Graph :=
  let groups := match db.groups with
    | .ok (some groups) => groups
    | _ => []
  { nodes := db.entities.map (Node.ofEntity db groups detail)
    edges := db.relations.filterMap (Edge.ofRelation? db) }

/-- The groups in the order of their first nodes. -/
def Graph.groups (g : Graph) : List String :=
  (g.nodes.filterMap (·.group)).foldl
    (fun seen name => if seen.contains name then seen else seen ++ [name]) []

end SchemaDialects.Diagram
