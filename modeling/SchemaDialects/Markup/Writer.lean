import SchemaDialects.Model
import SchemaDialects.Text.Letter

/-!
# Schemas as markup

Types, then each entity with its attributes, then the relations that are not written at an attribute.
Blank lines stand between these blocks.
-/

namespace SchemaDialects.Markup

/-- The note and the comment at the end of a line. -/
def trailer (doc : Option String) (extra : Json.Extra) : String :=
  let note := match doc with
    | some doc => " | " ++ doc
    | none => ""
  let comment := match extra.lookup "comment" with
    | some (.str text) => " # " ++ text
    | _ => ""
  note ++ comment ++ "\n"

def typeLine (t : NamedType) : String :=
  let body := match t.values, t.definition with
    | some values, _ => " (" ++ ", ".intercalate (values.map quote) ++ ")"
    | none, some definition => " `" ++ definition ++ "`"
    | none, none => ""
  "type " ++ t.id.render ++ body ++ trailer t.doc t.extra

/-! ### Attributes -/

/-- Characters that the text of a type may hold only in quotes. -/
def needsQuotes (c : Char) : Bool :=
  Text.isBlank c || c = '=' || c = '#' || c = '|' || c = '"'

def typeText (type : String) : String :=
  if type.toList.any needsQuotes then
    String.ofList ('"' :: doubleQuotes type.toList ++ ['"'])
  else type

/-- Whether a default value can stand without backticks. -/
def isSimpleDefault (value : String) : Bool :=
  !value.isEmpty &&
    value.toList.all fun c => Text.isAlphanumeric c || "_.-+:'".toList.contains c

def defaultText (value : String) : String :=
  if isSimpleDefault value then "=" ++ value else "=`" ++ value ++ "`"

def pathList (attrs : List AttributePath) : String :=
  ", ".intercalate (attrs.map fun path => ".".intercalate (path.map quote))

def operator (r : Relation) : String :=
  match r.source.cardinality, r.target.cardinality with
  | some .one, some .one => "--"
  | some .many, some .many => "<>"
  | _, _ => "->"

def endpointText (l : Link) : String :=
  l.entity.render ++ "(" ++ pathList l.attrs ++ ")"

/-- The name by which the attributes of an index or check find together. One with several attributes
gets a name if it has none. -/
def groupName (e : Entity) (name : Option String) (attrs : List AttributePath) (suffix : String) :
    Option String :=
  match name with
  | some name => some name
  | none =>
    if attrs.length ≤ 1 then none
    else
      let columns := attrs.map fun path => "_".intercalate path
      some (e.name ++ "_" ++ "_".intercalate columns ++ "_" ++ suffix)

def assigned : Option String → String
  | some name => "=" ++ quote name
  | none => ""

def indexText (e : Entity) (i : Index) : String :=
  let keyword := if i.unique then "unique" else "index"
  " " ++ keyword ++ assigned (groupName e i.name i.attrs keyword)

def checkText (e : Entity) (c : Check) : String :=
  let predicate := if c.predicate.isEmpty then "" else "(`" ++ c.predicate ++ "`)"
  " check" ++ assigned (groupName e c.name c.attrs "check") ++ predicate

def keyText (e : Entity) (path : AttributePath) : String :=
  match e.primaryKey with
  | some key => if key.attrs.contains path then " pk" ++ assigned key.name else ""
  | none => ""

/-- The line of the attribute at `path`, without its indentation. -/
def attributeText (e : Entity) (relations : List Relation) (path : AttributePath) (attr : Attribute) :
    String :=
  let indexes := e.indexes.filter (·.attrs.contains path)
  let checks := e.checks.filter (·.attrs.contains path)
  let own := relations.filter (·.source.attrs == [path])
  quote attr.name ++ " " ++ typeText attr.type ++ (attr.defaultValue.map defaultText).getD "" ++
    keyText e path ++ (if attr.nullable then " nullable" else "") ++
    (if attr.generated then " generated" else "") ++ String.join (indexes.map (indexText e)) ++
    String.join (checks.map (checkText e)) ++
    String.join (own.map fun r => " " ++ operator r ++ " " ++ endpointText r.target) ++
    trailer attr.doc attr.extra

def indentation (depth : Nat) : String := String.ofList (List.replicate (2 * depth) ' ')

mutual

/-- The lines of an attribute inside `parent` and of those nested in it. -/
def attributeLines (e : Entity) (relations : List Relation) (parent : AttributePath) :
    Attribute → List String
  | ⟨name, type, nullable, generated, defaultValue, nested, doc, extra⟩ =>
    let path := parent ++ [name]
    let attr : Attribute := { name, type, nullable, generated, defaultValue, doc, extra }
    (indentation path.length ++ attributeText e relations path attr) ::
      attributesLines e relations path nested

def attributesLines (e : Entity) (relations : List Relation) (parent : AttributePath) :
    List Attribute → List String
  | [] => []
  | attr :: rest => attributeLines e relations parent attr ++ attributesLines e relations parent rest

end

/-! ### The whole document -/

def entityText (e : Entity) (relations : List Relation) : String :=
  e.id.render ++ trailer e.doc e.extra ++ String.join (attributesLines e relations [] e.attrs)

def relationLine (r : Relation) : String :=
  "rel " ++ endpointText r.source ++ " " ++ operator r ++ " " ++ endpointText r.target ++
    trailer r.doc r.extra

/-- Whether a relation is written at an attribute: it has to start from exactly one that exists, and
to say nothing more. -/
def isAtAttribute (db : Database) (r : Relation) : Bool :=
  match r.source.attrs, db.entity? r.source.entity with
  | [path], some e => r.doc.isNone && r.extra.isEmpty && e.hasAttribute path
  | _, _ => false

/-- Writes a schema. -/
def writeSchema (db : Database) : String :=
  let (own, standalone) := db.relations.partition (isAtAttribute db)
  let section_ (texts : List String) := if texts.isEmpty then [] else [String.join texts]
  let entities := db.entities.map fun e => entityText e (own.filter (·.source.entity == e.id))
  "\n".intercalate
    (section_ (db.types.map typeLine) ++ entities ++ section_ (standalone.map relationLine))

end SchemaDialects.Markup
