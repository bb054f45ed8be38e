import SchemaDialects.Json.Node

/-!
# Decoding JSON

Readers of typed values. A record is read field by field in the order of the text; `Record` composes
the fields of a structure as an applicative, and reads a structure either from an object or,
field after field, from a list.
-/

namespace SchemaDialects.Json

abbrev Decoder (α : Type) := Node → Except Fault α

def Scalar.found : Scalar → Found
  | .null => .null
  | .bool b => .bool b
  | .int n => .int n
  | .float x => .float x
  | .str s => .str s

/-- The fault of a value of the wrong kind: behind a scalar, in front of anything else. -/
def wrongType {α : Type} (expected : String) : Decoder α
  | .scalar _ _ stop (.ok s) => .error ⟨.wrongType s.found expected, stop⟩
  | .scalar _ _ _ (.error fault) => .error fault
  | .broken _ _ read _ => .error read
  | .list start .. => .error ⟨.wrongType .list expected, start⟩
  | .record start .. => .error ⟨.wrongType .record expected, start⟩

namespace Decoder

def string : Decoder String
  | .scalar _ _ _ (.ok (.str s)) => .ok s
  | node => wrongType "a string" node

def bool : Decoder Bool
  | .scalar _ _ _ (.ok (.bool b)) => .ok b
  | node => wrongType "a boolean" node

/-- A count of at most one machine word. -/
def count : Decoder Nat
  | .scalar _ _ stop (.ok (.int n)) =>
    if 0 ≤ n then .ok n.toNat else .error ⟨.wrongValue (.int n) "usize", stop⟩
  | node => wrongType "usize" node

/-- An integer of 64 bits. -/
def int64 : Decoder Int
  | .scalar _ _ stop (.ok (.int n)) =>
    if n < Nat.pow 2 63 then .ok n else .error ⟨.wrongValue (.int n) "i64", stop⟩
  | node => wrongType "i64" node

def option {α : Type} (d : Decoder α) : Decoder (Option α)
  | .scalar _ _ _ (.ok .null) => .ok none
  | .broken (some (.word .null)) _ read _ => .error read
  | node => some <$> d node

def list {α : Type} (d : Decoder α) : Decoder (List α)
  | .list start deep items close => do
    if deep then throw (Node.depthFault (.list start deep [] close))
    let values ← items.mapM d
    close.read
    return values
  | node => wrongType "a sequence" node

/-- Free-form members. -/
def extra : Decoder Extra
  | .record start deep members close turn => do
    if deep then throw (Node.depthFault (.record start deep [] close turn))
    let ms ← Node.readMembers members
    close.read
    return sortMembers ms
  | node => wrongType "a map" node

/-- Any value at all. -/
def any : Decoder Json :=
  Node.read

/-- The name of one of several alternatives. -/
def alternative? {α : Type} (known : List (String × α)) (name : String) : Except Cause α :=
  match known.lookup name with
  | some value => .ok value
  | none => .error (.unknownVariant name (known.map (·.1)))

/-- The fault of a token where the name of an alternative is expected. -/
def noNameFault (t : Token) : Fault :=
  match t.lexeme with
  | .broken .text fault _ => fault
  | .endRecord => ⟨.expectedValue, t.peek⟩
  | .finish => ⟨.endInValue, t.start⟩
  | _ => ⟨.keyNotString, t.peek⟩

/-- The fault of a token behind an alternative that is written as an object. -/
def noEndFault? (t : Token) : Option Fault :=
  match t.lexeme with
  | .endRecord => none
  | .finish => some ⟨.endInRecord, t.start⟩
  | _ => some ⟨.expectedValue, t.start⟩

/-- One of several named alternatives: its name, or an object whose only member has that name and
the value null. -/
def variant {α : Type} (known : List (String × α)) : Decoder α
  | .scalar true _ stop (.ok (.str s)) => (alternative? known s).mapError (⟨·, stop⟩)
  | .scalar true _ _ (.error fault) => .error fault
  | .record start deep members close turn => do
    if deep then throw (Node.depthFault (.record start deep [] close turn))
    if start.isNone && members.length ≠ 1 then
      throw ⟨.wrongValue .record "map with a single key", none⟩
    match members with
    | [] =>
      match turn with
      | some t => throw (noNameFault t)
      | none => close.read; throw ⟨.expectedValue, close.stop⟩
    | (key, node) :: _ =>
      let name ← key.name
      let value ← (alternative? known name).mapError (⟨·, key.stop⟩)
      match node with
      | .scalar _ _ _ (.ok .null) =>
        match turn.bind noEndFault? with
        | some fault => throw fault
        | none => return value
      | node => wrongType "unit" node
  | .broken none _ read _ | .broken (some .text) _ read _ => .error read
  | node =>
    match node.start with
    | none => wrongType "string or map" node
    | some _ => .error ⟨.expectedValue, node.peek⟩

end Decoder

/-! ### Records -/

/-- What a member is to a record that is being read. -/
inductive Slot (σ : Type)
  | unknown
  | duplicate
  | value (read : Node → Except Fault σ)

/-- The next item of a list, if there is one. -/
def nextItem? (items : List Node) (close : Close) : Except Fault (Option (Node × List Node)) :=
  match items with
  | node :: rest => .ok (some (node, rest))
  | [] => do close.read; return none

/-- How a structure is read. `State` holds the fields read so far. -/
structure Record (α : Type) where
  State : Type
  start : State
  /-- What the member `name` means in a state. -/
  slot : State → String → Slot State
  /-- Keeps a member that no field claims. -/
  keep : State → String → Node → State
  /-- Whether such members are kept. -/
  keeps : Bool
  finish : State → Except Cause α
  /-- Reads the fields from the items of a list, the first of them at position `index`; `expected`
  describes the whole list. -/
  take : (expected : String) → (index : Nat) → List Node → Close → Except Fault (α × List Node)
  /-- The number of fields. -/
  size : Nat

namespace Record

/-- A field that must be present. -/
def required {α : Type} (name : String) (d : Decoder α) : Record α where
  State := Option α
  start := none
  slot s n :=
    if n = name then if s.isSome then .duplicate else .value fun node => some <$> d node else .unknown
  keep s _ _ := s
  keeps := false
  finish
    | some value => .ok value
    | none => .error (.missingField name)
  take expected index items close := do
    match ← nextItem? items close with
    | some (node, rest) => return (← d node, rest)
    | none => throw ⟨.wrongLength index expected, close.stop⟩
  size := 1

/-- A field with a value of its own when it is absent. -/
def defaulted {α : Type} (name : String) (absent : α) (d : Decoder α) : Record α where
  State := Option α
  start := none
  slot s n :=
    if n = name then if s.isSome then .duplicate else .value fun node => some <$> d node else .unknown
  keep s _ _ := s
  keeps := false
  finish s := .ok (s.getD absent)
  take _ _ items close := do
    match ← nextItem? items close with
    | some (node, rest) => return (← d node, rest)
    | none => return (absent, [])
  size := 1

/-- A field that may be absent from an object or null, but has its place in a list. -/
def nullable {α : Type} (name : String) (d : Decoder α) : Record (Option α) :=
  { required name (Decoder.option d) with finish := fun s => .ok (s.getD none) }

/-- A field that may be absent or null. -/
def optional {α : Type} (name : String) (d : Decoder α) : Record (Option α) :=
  defaulted name none (Decoder.option d)

def map {α β : Type} (f : α → β) (r : Record α) : Record β where
  State := r.State
  start := r.start
  slot := r.slot
  keep := r.keep
  keeps := r.keeps
  finish s := f <$> r.finish s
  take expected index items close := do
    let (value, rest) ← r.take expected index items close
    return (f value, rest)
  size := r.size

def seq {α β : Type} (f : Record (α → β)) (r : Record α) : Record β where
  State := f.State × r.State
  start := (f.start, r.start)
  slot s name :=
    match f.slot s.1 name with
    | .duplicate => .duplicate
    | .value read => .value fun node => (·, s.2) <$> read node
    | .unknown =>
      match r.slot s.2 name with
      | .duplicate => .duplicate
      | .value read => .value fun node => (s.1, ·) <$> read node
      | .unknown => .unknown
  keep s name node := (f.keep s.1 name node, r.keep s.2 name node)
  keeps := f.keeps || r.keeps
  finish s := do return (← f.finish s.1) (← r.finish s.2)
  take expected index items close := do
    let (g, rest) ← f.take expected index items close
    let (value, rest) ← r.take expected (index + f.size) rest close
    return (g value, rest)
  size := f.size + r.size

instance : Functor Record where
  map := map

instance : Seq Record where
  seq f r := seq f (r ())

/-- Reads members that were kept by an enclosing record. Their faults have no place. -/
def ofKept {α : Type} (r : Record α) (s : r.State) : List (String × Node) → Except Cause r.State
  | [] => .ok s
  | (name, node) :: rest =>
    match r.slot s name with
    | .unknown => r.ofKept (r.keep s name node) rest
    | .duplicate => .error (.duplicateField name)
    | .value read =>
      match read node with
      | .ok s => r.ofKept s rest
      | .error fault => .error fault.cause

/-- The fields of `r` stand among the members of the enclosing object. -/
def inlined {α : Type} (r : Record α) : Record α where
  State := List (String × Node)
  start := []
  slot _ _ := .unknown
  keep s name node := s ++ [(name, node)]
  keeps := true
  finish s := do r.finish (← r.ofKept r.start s)
  take expected index _ close := .error ⟨.wrongLength index expected, close.stop⟩
  size := r.size

/-- Reads the members of an object in order. -/
def ofMembers {α : Type} (r : Record α) (s : r.State) :
    List (Key × Node) → Except Fault r.State
  | [] => .ok s
  | (key, node) :: rest => do
    let name ← key.name
    match r.slot s name with
    | .unknown =>
      if r.keeps then
        let _ ← node.read
        r.ofMembers (r.keep s name node) rest
      else
        node.skip
        r.ofMembers s rest
    | .duplicate => throw ⟨.duplicateField name, key.next⟩
    | .value read =>
      let s ← read node
      r.ofMembers s rest

/-- Whether a list ends where the last field was read. -/
def leftover (isText : Bool) (length : Nat) (items : List Node) (close : Close) : Except Fault Unit :=
  match items with
  | node :: _ =>
    if isText then .error ⟨.trailingText, node.peek⟩
    else .error ⟨.wrongLength length "fewer elements in array", none⟩
  | [] =>
    match close with
    | .closed _ => .ok ()
    | .broken ⟨.expectedListSeparator, place⟩ _ => .error ⟨.trailingText, place⟩
    | .broken ⟨.endInValue, place⟩ _ => .error ⟨.trailingText, place⟩
    | .broken read _ => .error read

/-- Reads the structure `name`. With inlined fields only an object will do. -/
def decode {α : Type} (name : String) (r : Record α) : Decoder α
  | .record start deep members close turn => do
    if deep then throw (Node.depthFault (.record start deep [] close turn))
    let s ← r.ofMembers r.start members
    close.read
    (r.finish s).mapError (⟨·, close.stop⟩)
  | .list start deep items close => do
    if r.keeps then throw ⟨.wrongType .list ("struct " ++ name), start⟩
    if deep then throw (Node.depthFault (.list start deep [] close))
    let expected := "struct " ++ name ++ " with " ++ toString r.size ++
      (if r.size = 1 then " element" else " elements")
    let (value, rest) ← r.take expected 0 items close
    leftover start.isSome items.length rest close
    return value
  | node => wrongType ("struct " ++ name) node

end Record

/-- A list of exactly two items. -/
def Decoder.pair {α : Type} (d : Decoder α) : Decoder (α × α)
  | .list start deep items close => do
    if deep then throw (Node.depthFault (.list start deep [] close))
    let expected := "an array of length 2"
    match ← nextItem? items close with
    | none => throw ⟨.wrongLength 0 expected, close.stop⟩
    | some (first, rest) =>
      let a ← d first
      match ← nextItem? rest close with
      | none => throw ⟨.wrongLength 1 expected, close.stop⟩
      | some (second, rest) =>
        let b ← d second
        Record.leftover start.isSome items.length rest close
        return (a, b)
  | node => wrongType "an array of length 2" node

/-- Decodes a whole text. -/
def decodeText {α : Type} (d : Decoder α) (s : String) : Except Fault α := do
  let doc := Document.ofText s
  let value ← d doc.root
  match doc.tail with
  | some fault => throw fault
  | none => return value

/-- Decodes a value that is no longer text. -/
def decodeValue {α : Type} (d : Decoder α) (v : Json) : Except Fault α :=
  d (Node.ofValue v)

end SchemaDialects.Json
