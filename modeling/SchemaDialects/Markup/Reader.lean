import SchemaDialects.Markup.Line
import SchemaDialects.Markup.TypeNames
import SchemaDialects.Model

/-!
# Schemas from markup

A line without indentation opens an entity or holds a `namespace`, `rel` or `type` directive. An
indented line is an attribute of the open entity, nested in the closest attribute above with less
indentation. A blank line closes the entity. A line that cannot be read is reported and has no other
effect; relations wait until all entities are known.
-/

namespace SchemaDialects.Markup

/-! ### What can be wrong -/

inductive Problem
  | attributeOutsideEntity
  | missingEntityName
  | afterEntityName (word : String)
  | duplicateEntity (id : EntityName)
  | missingAttributeName
  | unknownModifier (word : String)
  | missingTarget (operator : String)
  | malformedRelation
  | unknownOperator (word : String)
  | missingSourceAttributes (id : EntityName)
  | duplicateType (id : TypeName)
  | afterType (word : String)
  | unknownType (type : String)
  | unknownSource (id : EntityName)
  | unknownTarget (id : EntityName)
  deriving DecidableEq, Repr

namespace Problem

def level : Problem → Level
  | .unknownType _ | .unknownSource _ | .unknownTarget _ => .warning
  | _ => .error

def kind : Problem → DiagnosticKind
  | .afterEntityName _ | .unknownModifier _ | .unknownOperator _ | .afterType _ => .unexpectedToken
  | .duplicateEntity _ | .duplicateType _ => .duplicateEntity
  | .unknownType _ => .unknownType
  | .unknownSource _ | .unknownTarget _ => .unknownEntity
  | _ => .invalidSyntax

def message : Problem → String
  | .attributeOutsideEntity => "Attribute line outside of an entity block"
  | .missingEntityName => "Expected an entity name"
  | .afterEntityName word => "Unexpected '" ++ word ++ "' after entity name"
  | .duplicateEntity id => "Entity " ++ id.render ++ " is already defined"
  | .missingAttributeName => "Expected an attribute name"
  | .unknownModifier word => "Unknown attribute modifier '" ++ word ++ "'"
  | .missingTarget operator => "Expected a referenced entity after '" ++ operator ++ "'"
  | .malformedRelation => "Expected `rel <entity>(<attrs>) -> <entity>(<attrs>)`"
  | .unknownOperator word => "Expected '->', '--' or '<>', found '" ++ word ++ "'"
  | .missingSourceAttributes id => "Missing attributes for " ++ id.render
  | .duplicateType id => "Type " ++ id.render ++ " is already defined"
  | .afterType word => "Unexpected '" ++ word ++ "' after type definition"
  | .unknownType type => "Unknown type '" ++ type ++ "', kept as is"
  | .unknownSource id => "Relation from unknown entity " ++ id.render
  | .unknownTarget id => "Relation to unknown entity " ++ id.render

def diagnostic (p : Problem) (position : Position) : Diagnostic :=
  ⟨p.level, p.kind, p.message, position⟩

end Problem

/-! ### Words -/

/-- The content between two quotes around the text, with doubled quotes made single. -/
def undoubled : List Char → List Char
  | '"' :: '"' :: cs => '"' :: undoubled cs
  | c :: cs => c :: undoubled cs
  | [] => []

/-- What stands between `opening` and `closing` at the two ends. -/
def between? (opening closing : Char) (cs : List Char) : Option (List Char) :=
  (Text.dropHead? [opening] cs).bind (Text.dropTail? [closing])

/-- A name without its quotes. -/
def unquote (cs : List Char) : String :=
  match between? '"' '"' cs with
  | some inner => String.ofList (undoubled inner)
  | none => String.ofList cs

/-- A text without its backticks. -/
def unbacktick (cs : List Char) : String :=
  String.ofList ((between? '`' '`' cs).getD cs)

/-- The items of a list with commas in it; empty ones do not count. -/
def listItems (cs : List Char) : List (List Char) :=
  ((splitUnquotedChars ',' false cs).map (Text.stripWhile Text.isBlank)).filter (!·.isEmpty)

/-- The cardinalities that an operator gives to the source and the target. -/
def cardinalities? (word : String) : Option (Cardinality × Cardinality) :=
  match word.toLower with
  | "->" | "fk" => some (.many, .one)
  | "--" => some (.one, .one)
  | "<>" => some (.many, .many)
  | _ => none

/-- The entity with this name, in `space` unless the name says otherwise. -/
def entityIn (space : Namespace) (cs : List Char) : EntityName :=
  let id := EntityName.parse (String.ofList cs)
  if id.space = {} then { id with space } else id

/-- One side of a relation. -/
structure Endpoint where
  entity : EntityName
  attrs : List AttributePath
  deriving DecidableEq, Repr

/-- What stands before and after the last parenthesis that opens. -/
def breakAtLastOpen? (cs : List Char) : Option (List Char × List Char) :=
  (Text.breakAt? (· = '(') cs.reverse).map fun (after, before) => (before.reverse, after.reverse)

/-- Reads `entity(a, b.c)`, or an entity alone. -/
def Endpoint.read (space : Namespace) (text : String) : Endpoint :=
  match (Text.dropTail? [')'] text.toList).bind breakAtLastOpen? with
  | some (entity, attrs) =>
    { entity := entityIn space entity
      attrs := (listItems attrs).map fun path => (splitUnquotedChars '.' false path).map unquote }
  | none => { entity := entityIn space text.toList, attrs := [] }

def isDefaultQuote (c : Char) : Bool := c = '"' || c = '`' || c = '\''

/-- Cuts `type=default` at the first equals sign outside quotes and parentheses. -/
def splitDefault (depth : Nat) (quote : Option Char) : List Char → List Char × Option (List Char)
  | [] => ([], none)
  | c :: cs =>
    let more (depth : Nat) (quote : Option Char) :=
      let (type, value) := splitDefault depth quote cs
      (c :: type, value)
    match quote with
    | some q => more depth (if c = q then none else some q)
    | none =>
      if isDefaultQuote c then more depth (some c)
      else if c = '(' then more (depth + 1) none
      else if c = ')' then more (depth - 1) none
      else if c = '=' ∧ depth = 0 then ([], some cs)
      else more depth none

/-! ### Modifiers -/

/-- What may follow the type of an attribute. -/
inductive Modifier
  | key (name : Option String)
  | nullable
  | generated
  | index (name : Option String) (unique : Bool)
  | check (name : Option String) (predicate : String)
  /-- The next word is the entity referred to. -/
  | reference (cardinalities : Cardinality × Cardinality)
  deriving DecidableEq, Repr

/-- A name behind an equals sign. -/
def modifierName? (rest : List Char) : Option String := do
  let name ← Text.dropHead? ['='] rest
  let name := Text.stripWhile Text.isBlank name
  if name.isEmpty then none else some (unquote name)

/-- A predicate in parentheses; empty if they are missing. -/
def modifierPredicate (cs : List Char) : String :=
  match between? '(' ')' cs with
  | some predicate => unbacktick predicate
  | none => ""

/-- The modifier that a word spells, in any case. -/
def Modifier.ofWord? (text : String) : Option Modifier :=
  let isEnd := fun c => c = '=' || c = '('
  let keyword := text.toList.takeWhile (!isEnd ·)
  let rest := text.toList.dropWhile (!isEnd ·)
  match (String.ofList keyword).toLower with
  | "pk" => some (.key (modifierName? rest))
  | "nullable" => some .nullable
  | "generated" => some .generated
  | "unique" => some (.index (modifierName? rest) true)
  | "index" => some (.index (modifierName? rest) false)
  | "check" =>
    let name := rest.takeWhile (· ≠ '(')
    some (.check (modifierName? name) (modifierPredicate (rest.dropWhile (· ≠ '('))))
  | _ => (cardinalities? text).map .reference

/-! ### Attribute lines -/

structure Reference where
  cardinalities : Cardinality × Cardinality
  target : Endpoint
  position : Position
  deriving DecidableEq, Repr

/-- An attribute line by itself, before it is attached to an entity. -/
structure AttributeLine where
  attr : Attribute
  /-- Where the type is given. -/
  typePosition : Option Position := none
  /-- The name of the primary key it belongs to. -/
  key : Option (Option String) := none
  indexes : List (Option String × Bool) := []
  checks : List (Option String × String) := []
  references : List Reference := []

namespace AttributeLine

/-- Takes in a modifier that needs no other word. -/
def apply (l : AttributeLine) : Modifier → AttributeLine
  | .key name => { l with key := some name }
  | .nullable => { l with attr := { l.attr with nullable := true } }
  | .generated => { l with attr := { l.attr with generated := true } }
  | .index name unique => { l with indexes := l.indexes ++ [(name, unique)] }
  | .check name predicate => { l with checks := l.checks ++ [(name, predicate)] }
  | .reference _ => l

def applyAll (space : Namespace) (l : AttributeLine) :
    List Word → Except (Problem × Position) AttributeLine
  | [] => .ok l
  | word :: rest =>
    match Modifier.ofWord? word.text with
    | none => .error (.unknownModifier word.text, word.position)
    | some (.reference cardinalities) =>
      match rest with
      | [] => .error (.missingTarget word.text, word.position)
      | target :: rest =>
        let reference := ⟨cardinalities, .read space target.text, target.position⟩
        applyAll space { l with references := l.references ++ [reference] } rest
    | some m => applyAll space (l.apply m) rest

/-- Takes in the word of the type, with the default value in it. -/
def withType (l : AttributeLine) (word : Word) : AttributeLine :=
  let (type, value) := splitDefault 0 none word.text.toList
  { l with
    attr := { l.attr with type := unquote type, defaultValue := value.map unbacktick }
    typePosition := some word.position }

end AttributeLine

/-- A comment is kept among the metadata. -/
def commentExtra (l : Line) : Json.Extra :=
  l.comment.toList.map fun c => ("comment", .str c.text)

def noteText (l : Line) : Option String := l.note.map (·.text)

/-- The type of an attribute that gives none. -/
def unknownTypeName : String := "unknown"

/-- Reads a name, then a type unless a modifier follows at once, then modifiers. -/
def AttributeLine.read (space : Namespace) (l : Line) : Except (Problem × Position) AttributeLine :=
  match l.words with
  | [] => .error (.missingAttributeName, l.position)
  | name :: rest =>
    let plain : AttributeLine := { attr := {
      name := unquote name.text.toList
      type := unknownTypeName
      doc := noteText l
      extra := commentExtra l } }
    match rest with
    | [] => .ok plain
    | word :: more =>
      if (Modifier.ofWord? word.text).isSome then plain.applyAll space rest
      else (plain.withType word).applyAll space more

/-! ### Entities -/

/-- Adds `path` to the first item of its group, or begins a group. -/
def addToGroup {α : Type} (inGroup : α → Bool) (extend : α → α) (fresh : α) (groups : List α) :
    List α :=
  if groups.any inGroup then modifyFirst inGroup extend groups else groups ++ [fresh]

/-- Whether an item with this name takes part in a group of that name. -/
def sameGroup (a b : Option String) : Bool := a.isSome && a == b

def addToKey (path : AttributePath) (name : Option String) : Option PrimaryKey → PrimaryKey
  | some key => { name := name <|> key.name, attrs := key.attrs ++ [path] }
  | none => { name, attrs := [path] }

def addToIndex (path : AttributePath) (indexes : List Index) (item : Option String × Bool) :
    List Index :=
  let (name, unique) := item
  addToGroup (fun i => i.unique == unique && sameGroup i.name name)
    (fun i => { i with attrs := i.attrs ++ [path] }) { name, attrs := [path], unique } indexes

def addToCheck (path : AttributePath) (checks : List Check) (item : Option String × String) :
    List Check :=
  let (name, predicate) := item
  addToGroup (fun c => sameGroup c.name name)
    (fun c => { c with attrs := c.attrs ++ [path] }) { name, attrs := [path], predicate } checks

/-- Puts an attribute at the end of those inside `parent`. -/
def attach (attr : Attribute) (attrs : List Attribute) : (parent : AttributePath) → List Attribute
  | [] => attrs ++ [attr]
  | parent => modifyAttribute (fun p => { p with nested := p.nested ++ [attr] }) attrs parent

/-- The entity with one more attribute, at the end of those inside `parent`. -/
def addAttribute (parent : AttributePath) (l : AttributeLine) (e : Entity) : Entity :=
  let path := parent ++ [l.attr.name]
  { e with
    attrs := attach l.attr e.attrs parent
    primaryKey := match l.key with
      | some name => some (addToKey path name e.primaryKey)
      | none => e.primaryKey
    indexes := l.indexes.foldl (addToIndex path) e.indexes
    checks := l.checks.foldl (addToCheck path) e.checks }

/-- The attributes that may hold the next one, the innermost first, with their indentation. -/
abbrev Parents := List (Nat × AttributePath)

/-- The parents of a line with this indentation. -/
def Parents.around (parents : Parents) (indent : Nat) : Parents :=
  parents.dropWhile fun p => indent ≤ p.1

def Parents.path (parents : Parents) : AttributePath :=
  (parents.head?.map (·.2)).getD []

/-! ### Documents -/

inductive Block
  | closed
  /-- The attributes of a rejected entity are dropped. -/
  | skipped
  | entity (id : EntityName) (parents : Parents)

structure PendingRelation where
  relation : Relation
  position : Position

/-- A schema under construction. -/
structure State where
  /-- The namespace of names that give none. -/
  space : Namespace := {}
  block : Block := .closed
  entities : List Entity := []
  types : List NamedType := []
  pending : List PendingRelation := []
  typeUses : List (String × Position) := []
  diagnostics : List Diagnostic := []

namespace State

def report (s : State) (p : Problem) (position : Position) : State :=
  { s with diagnostics := s.diagnostics ++ [p.diagnostic position] }

def reportEach (s : State) (p : String → Problem) (words : List Word) : State :=
  { s with diagnostics := s.diagnostics ++ words.map fun w => (p w.text).diagnostic w.position }

def addAttributeLine (s : State) (id : EntityName) (parents : Parents) (indent : Nat)
    (l : AttributeLine) : State :=
  let around := parents.around indent
  let path := around.path ++ [l.attr.name]
  let relations := l.references.map fun r =>
    let source : Link := { entity := id, attrs := [path], cardinality := some r.cardinalities.1 }
    let target : Link :=
      { entity := r.target.entity, attrs := r.target.attrs, cardinality := some r.cardinalities.2 }
    (⟨{ source, target }, r.position⟩ : PendingRelation)
  { s with
    block := .entity id ((indent, path) :: around)
    entities := modifyFirst (·.id == id) (addAttribute around.path l) s.entities
    pending := s.pending ++ relations
    typeUses := s.typeUses ++ l.typePosition.toList.map fun p => (l.attr.type, p) }

/-- A line inside a block. -/
def indented (s : State) (l : Line) : State :=
  match s.block with
  | .skipped => s
  | .closed => s.report .attributeOutsideEntity l.position
  | .entity id parents =>
    match AttributeLine.read s.space l with
    | .ok parsed => s.addAttributeLine id parents l.indent parsed
    | .error (problem, position) => s.report problem position

def openEntity (s : State) (l : Line) (name : Word) (rest : List Word) : State :=
  let id := entityIn s.space name.text.toList
  let s := s.reportEach .afterEntityName rest
  if s.entities.any (·.id == id) then
    { s.report (.duplicateEntity id) name.position with block := .skipped }
  else
    let entity : Entity :=
      { space := id.space, name := id.name, doc := noteText l, extra := commentExtra l }
    { s with entities := s.entities ++ [entity], block := .entity id [] }

/-- Reads `rel source(attrs) operator target(attrs)`. -/
def relation (s : State) (l : Line) : State :=
  match l.words with
  | [_, source, operator, target] =>
    match cardinalities? operator.text with
    | none => s.report (.unknownOperator operator.text) operator.position
    | some (ofSource, ofTarget) =>
      let origin := Endpoint.read s.space source.text
      if origin.attrs.isEmpty then s.report (.missingSourceAttributes origin.entity) source.position
      else
        let aim := Endpoint.read s.space target.text
        let relation : Relation := {
          source := { entity := origin.entity, attrs := origin.attrs, cardinality := some ofSource }
          target := { entity := aim.entity, attrs := aim.attrs, cardinality := some ofTarget }
          doc := noteText l
          extra := commentExtra l }
        { s with pending := s.pending ++ [⟨relation, l.position⟩] }
  | _ => s.report .malformedRelation l.position

/-- Values in parentheses, or a definition. -/
def withBody (t : NamedType) (body : Option Word) : NamedType :=
  match body with
  | none => t
  | some word =>
    match between? '(' ')' word.text.toList with
    | some values => { t with values := some ((listItems values).map unquote) }
    | none => { t with definition := some (unbacktick word.text.toList) }

/-- Reads `type name (values)` or `type name definition`. -/
def type (s : State) (l : Line) (name : Word) (rest : List Word) : State :=
  let written := TypeName.parse name.text
  let id : TypeName := if written.space = {} then { written with space := s.space } else written
  if s.types.any (·.id == id) then s.report (.duplicateType id) name.position
  else
    let plain : NamedType :=
      { space := id.space, name := id.name, doc := noteText l, extra := commentExtra l }
    let s := s.reportEach .afterType (rest.drop 1)
    { s with types := s.types ++ [withBody plain rest.head?] }

/-- A line without indentation. -/
def outermost (s : State) (l : Line) : State :=
  let s := { s with block := .closed }
  match l.words with
  | [] => s.report .missingEntityName l.position
  | first :: rest =>
    if first.is "namespace" ∧ rest.length ≤ 1 then
      { s with space := (rest.head?.map fun w => Namespace.parse w.text).getD {} }
    else if first.is "rel" ∧ !rest.isEmpty then s.relation l
    else
      match rest with
      | name :: rest' => if first.is "type" then s.type l name rest' else s.openEntity l first rest
      | [] => s.openEntity l first []

def line (s : State) (l : Line) : State :=
  if l.isBlank then { s with block := .closed }
  else if l.isComment then s
  else if l.indent = 0 then s.outermost l
  else s.indented l

/-! ### The whole document -/

/-- Whether a type is well known or declared, by its own name or with its namespace. -/
def knowsType (s : State) (type : String) : Bool :=
  isKnownType type || s.types.any fun t => t.name == type || t.id.render == type

def find? (s : State) (id : EntityName) : Option Entity :=
  s.entities.find? (·.id == id)

/-- The attribute a relation refers to when nothing names one. -/
def fallbackTarget : List AttributePath := [["id"]]

/-- Fills in the attributes that a relation leaves out. -/
def resolve (s : State) (p : PendingRelation) : Relation :=
  let target := p.relation.target
  let implied := (((s.find? target.entity).bind (·.primaryKey)).map (·.attrs)).getD fallbackTarget
  if target.attrs.isEmpty then { p.relation with target := { target with attrs := implied } }
  else p.relation

/-- Remarks on the entities that a relation names. -/
def relationProblems (s : State) (p : PendingRelation) : List Problem :=
  let source := p.relation.source.entity
  let target := p.relation.target.entity
  (if (s.find? source).isNone then [.unknownSource source] else []) ++
    (if (s.find? target).isNone then [.unknownTarget target] else [])

/-- Diagnostics in the order of the text. -/
def inOrder (diagnostics : List Diagnostic) : List Diagnostic :=
  diagnostics.mergeSort fun a b => a.position.offset.start ≤ b.position.offset.start

def finish (s : State) : Parsed Database :=
  let unknownTypes := s.typeUses.filter fun (type, _) => !s.knowsType type
  let ofTypes := unknownTypes.map fun (type, p) => (Problem.unknownType type).diagnostic p
  let ofRelations := s.pending.flatMap fun p =>
    (s.relationProblems p).map fun problem => problem.diagnostic p.position
  { value := some {
      entities := s.entities
      relations := s.pending.map s.resolve
      types := s.types }
    diagnostics := inOrder (s.diagnostics ++ ofTypes ++ ofRelations) }

end State

/-- Reads a schema. There always is one, if only an empty one. -/
def readSchema (text : String) : Parsed Database :=
  let (lines, problems) := readLines text
  (lines.foldl State.line { diagnostics := problems }).finish

end SchemaDialects.Markup
