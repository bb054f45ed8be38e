import SchemaDialects.Json.Token

/-!
# JSON with places

A text is read into a tree that remembers where everything stands, and that ends where the text
stops being JSON. A reader walks the tree from left to right, so of several faults it reports
the one that comes first in the text, whether that is a fault of the text or of a value.
-/

namespace SchemaDialects.Json

/-- How a list or record ends. -/
inductive Close
  | closed (stop : Option Mark)
  | broken (read skipped : Fault)

/-- The name of a member. `stop` stands behind its closing quote, `next` is the next point that is
not blank, or the one behind a closing brace that stands there. -/
structure Key where
  name : Except Fault String
  stop : Option Mark
  next : Option Mark

/-- A value with its places; none when it was not read from text. -/
inductive Node
  | scalar (isText : Bool) (start stop : Option Mark) (value : Except Fault Scalar)
  /-- The text cannot be read on, because of a token that has no end or begins no value. -/
  | broken (begun : Option Unfinished) (start : Option Mark) (read skipped : Fault)
  | list (start : Option Mark) (tooDeep : Bool) (items : List Node) (close : Close)
  /-- `turn` is the token in place of the first name, or else the one behind the first member:
  where a reader of a single member decides how to go on. -/
  | record (start : Option Mark) (tooDeep : Bool) (members : List (Key × Node)) (close : Close)
    (turn : Option Token)

/-- A value and, if anything stands behind it, the fault of that. -/
structure Document where
  root : Node
  tail : Option Fault

namespace Node

def start : Node → Option Mark
  | .scalar _ start _ _ | .broken _ start _ _ | .list start _ _ _ | .record start _ _ _ _ => start

/-- The place behind the first byte of the value. -/
def peek (node : Node) : Option Mark :=
  node.start.map fun m => ⟨m.line, m.column + 1⟩

end Node

/-! ### From tokens to the tree -/

/-- What has been read of an open list or record, in reverse. -/
inductive Parts
  | items (items : List Node)
  | members (members : List (Key × Node)) (key : Option Key) (turn : Option Token)

/-- An open list or record; `depth` counts the others around it. -/
structure Frame where
  start : Mark
  depth : Nat
  parts : Parts

/-- What may come next. -/
inductive Await
  | value
  | firstItem
  | nextItem
  | firstKey
  | nextKey
  | colon (stop : Mark) (name : Except Fault String)
  | separator

/-- The number of brackets that may be open at once. -/
def nestingLimit : Nat := 127

/-- A new frame inside the open ones. -/
def Frame.opened (stack : List Frame) (start : Mark) (parts : Parts) : Frame :=
  ⟨start, match stack with | [] => 0 | frame :: _ => frame.depth + 1, parts⟩

def Parts.push (node : Node) : Parts → Parts
  | .items done => .items (node :: done)
  | .members done (some key) turn => .members ((key, node) :: done) none turn
  | .members done none turn => .members done none turn

/-- The first token that matters to a reader of a single member stays. -/
def Parts.meet (t : Token) : Parts → Parts
  | .members done key none => .members done key (some t)
  | parts => parts

def Frame.push (node : Node) (frame : Frame) : Frame :=
  { frame with parts := frame.parts.push node }

def Frame.meet (t : Token) (frame : Frame) : Frame :=
  { frame with parts := frame.parts.meet t }

def Frame.node (close : Close) (frame : Frame) : Node :=
  let deep := nestingLimit ≤ frame.depth
  match frame.parts with
  | .items items => .list (some frame.start) deep items.reverse close
  | .members members _ turn => .record (some frame.start) deep members.reverse close turn

/-- The tree when the text breaks inside the open frames. -/
def collapse (read skipped : Fault) (node : Node) : List Frame → Node
  | [] => node
  | frame :: rest =>
    collapse read skipped ((frame.push node).node (.broken read skipped)) rest

/-- The outcome of one token. -/
inductive Step
  | go (stack : List Frame) (await : Await)
  | whole (node : Node)
  | cut (node : Node)

/-- A complete value takes its place in the innermost open frame. -/
def complete (stack : List Frame) (node : Node) : Step :=
  match stack with
  | [] => .whole node
  | frame :: rest => .go (frame.push node :: rest) .separator

/-- No value can be read here. -/
def noValue (stack : List Frame) (begun : Option Unfinished) (t : Token) (read skipped : Fault) :
    Step :=
  .cut (collapse read skipped (.broken begun (some t.start) read skipped) stack)

/-- The innermost frame cannot go on. -/
def noPart (stack : List Frame) (read skipped : Fault) : Step :=
  match stack with
  | [] => .cut (.broken none none read skipped)
  | frame :: rest =>
    .cut (collapse read skipped (frame.node (.broken read skipped)) rest)

def closeFrame (stack : List Frame) (t : Token) : Step :=
  match stack with
  | [] => noPart [] ⟨.expectedValue, t.peek⟩ ⟨.expectedValue, t.peek⟩
  | frame :: rest => complete rest (frame.node (.closed (some t.peek)))

/-- The innermost frame takes note of a token. -/
def meet (stack : List Frame) (t : Token) : List Frame :=
  match stack with
  | [] => []
  | frame :: rest => frame.meet t :: rest

/-- A token where a value may stand. -/
def stepValue (stack : List Frame) (t : Token) : Step :=
  match t.lexeme with
  | .beginList => .go (.opened stack t.start (.items []) :: stack) .firstItem
  | .beginRecord => .go (.opened stack t.start (.members [] none none) :: stack) .firstKey
  | .text stop value => complete stack (.scalar true (some t.start) (some stop) (value.map .str))
  | .scalar stop value => complete stack (.scalar false (some t.start) (some stop) value)
  | .broken begun read skipped => noValue stack begun t read skipped
  | .finish => noValue stack none t ⟨.endInValue, t.start⟩ ⟨.endInValue, t.start⟩
  | .endList | .endRecord | .comma | .colon | .stray =>
    noValue stack none t ⟨.expectedValue, t.peek⟩ ⟨.expectedValue, t.peek⟩

def step (stack : List Frame) (await : Await) (t : Token) : Step :=
  match await with
  | .value => stepValue stack t
  | .firstItem =>
    match t.lexeme with
    | .endList => closeFrame stack t
    | .finish => noPart stack ⟨.endInList, t.start⟩ ⟨.endInList, t.start⟩
    | _ => stepValue stack t
  | .nextItem =>
    match t.lexeme with
    | .endList => noPart stack ⟨.trailingComma, t.peek⟩ ⟨.expectedValue, t.peek⟩
    | .finish => noPart stack ⟨.endInValue, t.start⟩ ⟨.endInValue, t.start⟩
    | _ => stepValue stack t
  | .firstKey =>
    match t.lexeme with
    | .endRecord => closeFrame (meet stack t) t
    | .text stop name => .go stack (.colon stop name)
    | .broken .text read skipped => noPart (meet stack t) read skipped
    | .finish => noPart (meet stack t) ⟨.endInRecord, t.start⟩ ⟨.endInRecord, t.start⟩
    | _ => noPart (meet stack t) ⟨.keyNotString, t.peek⟩ ⟨.keyNotString, t.peek⟩
  | .nextKey =>
    match t.lexeme with
    | .endRecord => noPart stack ⟨.trailingComma, t.peek⟩ ⟨.keyNotString, t.peek⟩
    | .text stop name => .go stack (.colon stop name)
    | .broken .text read skipped => noPart stack read skipped
    | .finish => noPart stack ⟨.endInValue, t.start⟩ ⟨.endInRecord, t.start⟩
    | _ => noPart stack ⟨.keyNotString, t.peek⟩ ⟨.keyNotString, t.peek⟩
  | .colon stop name =>
    match stack with
    | ⟨start, depth, .members members _ turn⟩ :: rest =>
      let next := match t.lexeme with | .endRecord => t.peek | _ => t.start
      let stack := ⟨start, depth, .members members (some ⟨name, stop, next⟩) turn⟩ :: rest
      match t.lexeme with
      | .colon => .go stack .value
      | .finish => noValue stack none t ⟨.endInRecord, t.start⟩ ⟨.endInRecord, t.start⟩
      | _ => noValue stack none t ⟨.expectedColon, t.peek⟩ ⟨.expectedColon, t.peek⟩
    | _ => noPart stack ⟨.expectedColon, t.peek⟩ ⟨.expectedColon, t.peek⟩
  | .separator =>
    let stack := meet stack t
    match stack with
    | ⟨_, _, .members ..⟩ :: _ =>
      match t.lexeme with
      | .comma => .go stack .nextKey
      | .endRecord => closeFrame stack t
      | .finish => noPart stack ⟨.endInRecord, t.start⟩ ⟨.endInRecord, t.start⟩
      | _ => noPart stack ⟨.expectedRecordSeparator, t.peek⟩ ⟨.expectedRecordSeparator, t.peek⟩
    | _ =>
      match t.lexeme with
      | .comma => .go stack .nextItem
      | .endList => closeFrame stack t
      | .finish => noPart stack ⟨.endInList, t.start⟩ ⟨.endInList, t.start⟩
      | _ => noPart stack ⟨.expectedListSeparator, t.peek⟩ ⟨.expectedListSeparator, t.peek⟩

/-- The fault of a text that goes on behind its value. -/
def tailFault : List Token → Option Fault
  | [] => none
  | t :: _ =>
    match t.lexeme with
    | .finish => none
    | _ => some ⟨.trailingText, t.peek⟩

def build (stack : List Frame) (await : Await) : List Token → Document
  | [] => ⟨.broken none none ⟨.endInValue, none⟩ ⟨.endInValue, none⟩, none⟩
  | t :: ts =>
    match step stack await t with
    | .go stack await => build stack await ts
    | .whole node => ⟨node, tailFault ts⟩
    | .cut node => ⟨node, none⟩

/-- The tree of a text. -/
def Document.ofText (s : String) : Document :=
  build [] .value (tokens {} s.toList)

/-! ### Values as trees -/

mutual

/-- A value seen as a tree without places. -/
def Node.ofValue : Json → Node
  | .null => .scalar false none none (.ok .null)
  | .bool b => .scalar false none none (.ok (.bool b))
  | .int n => .scalar false none none (.ok (.int n))
  | .float x => .scalar false none none (.ok (.float x))
  | .str s => .scalar true none none (.ok (.str s))
  | .arr items => .list none false (Node.ofItems items) (.closed none)
  | .obj members => .record none false (Node.ofMembers members) (.closed none) none

def Node.ofItems : List Json → List Node
  | [] => []
  | v :: vs => Node.ofValue v :: Node.ofItems vs

def Node.ofMembers : List (String × Json) → List (Key × Node)
  | [] => []
  | (k, v) :: ms => (⟨.ok k, none, none⟩, Node.ofValue v) :: Node.ofMembers ms

end

/-! ### Reading and skipping -/

def Close.read : Close → Except Fault Unit
  | .closed _ => .ok ()
  | .broken read _ => .error read

def Close.skip : Close → Except Fault Unit
  | .closed _ => .ok ()
  | .broken _ skipped => .error skipped

def Close.stop : Close → Option Mark
  | .closed stop => stop
  | .broken read _ => read.place

namespace Node

mutual

/-- Passes over a value that nobody wants. Only faults of the text itself are seen. -/
def skip : Node → Except Fault Unit
  | .scalar .. => .ok ()
  | .broken _ _ _ skipped => .error skipped
  | .list _ _ items close => do skipItems items; close.skip
  | .record _ _ members close _ => do skipMembers members; close.skip

def skipItems : List Node → Except Fault Unit
  | [] => .ok ()
  | node :: nodes => do skip node; skipItems nodes

def skipMembers : List (Key × Node) → Except Fault Unit
  | [] => .ok ()
  | (_, node) :: rest => do skip node; skipMembers rest

end

def scalarValue (s : Scalar) : Json :=
  match s with
  | .null => .null
  | .bool b => .bool b
  | .int n => .int n
  | .float x => .float x
  | .str s => .str s

/-- The fault of too many open brackets, at the bracket that is one too many. -/
def depthFault (node : Node) : Fault := ⟨.tooDeep, node.peek⟩

mutual

/-- The value itself. Members are sorted by name, and of equal names the last one counts. -/
def read : Node → Except Fault Json
  | .scalar _ _ _ value => value.map scalarValue
  | .broken _ _ read _ => .error read
  | .list start deep items close => do
    if deep then throw (depthFault (.list start deep [] close))
    let vs ← readItems items
    close.read
    return .arr vs
  | .record start deep members close turn => do
    if deep then throw (depthFault (.record start deep [] close turn))
    let ms ← readMembers members
    close.read
    return .obj (sortMembers ms)

def readItems : List Node → Except Fault (List Json)
  | [] => .ok []
  | node :: nodes => do
    let v ← read node
    let vs ← readItems nodes
    return v :: vs

def readMembers : List (Key × Node) → Except Fault (List (String × Json))
  | [] => .ok []
  | (key, node) :: rest => do
    let k ← key.name
    let v ← read node
    let vs ← readMembers rest
    return (k, v) :: vs

end

end Node

/-- The value that a text holds. -/
def parse (s : String) : Except Fault Json := do
  let doc := Document.ofText s
  let v ← doc.root.read
  match doc.tail with
  | some fault => throw fault
  | none => return v

end SchemaDialects.Json
