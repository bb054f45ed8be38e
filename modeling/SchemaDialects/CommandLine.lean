import SchemaDialects.Conversion
import SchemaDialects.Directory

/-!
# The command line

`input --from dialect --to dialect` converts a file, `diff left right --from dialect` compares two.
Diagnostics go to the error output; a program that stops early says why there and ends with code 1.
-/

namespace SchemaDialects.CommandLine

structure Options where
  /-- What stands between the options. -/
  operands : List String := []
  source : Option Dialect := none
  target : Option Dialect := none
  output : Option String := none
  detail : Diagram.Detail := .all

/-- Why the program stops early. -/
inductive Stop
  | usage
  | unknownDialect (tag : String)
  | unknownDetail (name : String)
  | unknownOption (argument : String)
  | unreadable (path : String) (fault : FileFault)
  | withoutValue (path : String)
  | unwritable (error : WriteError)
  | unsaved (path : String) (fault : FileFault)

/-- What a run of the program leaves behind. -/
structure Outcome where
  code : Nat
  output : String
  errors : String
  deriving DecidableEq, Repr

def names (dialects : List Dialect) : String :=
  ", ".intercalate (dialects.map Dialect.name)

def usageText (program : String) : String :=
  Text.ofLines [
    "Usage: " ++ program ++ " <input> --from <dialect> --to <dialect> [options]",
    "       " ++ program ++ " diff <left> <right> --from <dialect>",
    "",
    "Options:",
    "  -f, --from <dialect>  Input dialect: " ++ names Dialect.readable,
    "  -t, --to <dialect>    Output dialect: " ++ names Dialect.all,
    "  -o, --output <file>   Output file (default: stdout)",
    "  -d, --detail <level>  Diagram detail: tables, pk, pk_fk, all (default: all)"]

def Stop.text (program : String) : Stop → String
  | .usage => usageText program
  | .unknownDialect tag => "Unknown dialect: " ++ tag ++ "\n"
  | .unknownDetail name => "Invalid detail level: " ++ name ++ "\n"
  | .unknownOption argument => "Unknown option: " ++ argument ++ "\n"
  | .unreadable path fault => "Failed to read " ++ path ++ ": " ++ fault.message ++ "\n"
  | .withoutValue path => "Could not parse " ++ path ++ "\n"
  | .unwritable error => "Generation failed: " ++ error.message ++ "\n"
  | .unsaved path fault => "Failed to write " ++ path ++ ": " ++ fault.message ++ "\n"

/-! ### Options -/

/-- What an option sets; none for an operand. -/
inductive Switch
  | source
  | target
  | output
  | detail
  | help

def Switch.ofArgument? : String → Option Switch
  | "-f" | "--from" => some .source
  | "-t" | "--to" => some .target
  | "-o" | "--output" => some .output
  | "-d" | "--detail" => some .detail
  | "-h" | "--help" => some .help
  | _ => none

def readDialect (tag : String) : Except Stop Dialect :=
  match Dialect.ofTag? tag with
  | some d => .ok d
  | none => .error (.unknownDialect tag)

def readDetail (name : String) : Except Stop Diagram.Detail :=
  match Diagram.Detail.ofName? name with
  | some d => .ok d
  | none => .error (.unknownDetail name)

/-- Takes in an option with its value. -/
def Options.set (o : Options) (switch : Switch) (value : String) : Except Stop Options :=
  match switch with
  | .source => do return { o with source := some (← readDialect value) }
  | .target => do return { o with target := some (← readDialect value) }
  | .output => .ok { o with output := some value }
  | .detail => do return { o with detail := (← readDetail value) }
  | .help => .error .usage

/-- Reads the arguments from left to right; the last value of an option counts. -/
def Options.read (o : Options) : List String → Except Stop Options
  | [] => .ok o
  | argument :: rest =>
    match Switch.ofArgument? argument with
    | some switch =>
      match rest with
      | [] => .error .usage
      | value :: rest => do (← o.set switch value).read rest
    | none =>
      if argument.toList.head? = some '-' then .error (.unknownOption argument)
      else { o with operands := o.operands ++ [argument] }.read rest

/-! ### Runs -/

/-- A run in progress: it writes to the error output and may stop. -/
abbrev Run (m : Type → Type) := ExceptT Stop (StateT String m)

section

variable {m : Type → Type} [Monad m]

def stopIf {α : Type} (stop : FileFault → Stop) (result : Except FileFault α) : Run m α :=
  match result with
  | .ok value => pure value
  | .error fault => throw (stop fault)

def report (path : String) (diagnostics : List Diagnostic) : Run m Unit :=
  modify (· ++ Text.ofLines (diagnostics.map fun d => path ++ ":" ++ d.render))

/-- Reads the schema of a file and reports what is to be said about it. -/
def load (files : FileAccess m) (source : Dialect) (path : String) : Run m Database := do
  let text ← stopIf (.unreadable path) (← (files.read path : m _))
  let parsed := source.read text
  report path parsed.diagnostics
  match parsed.value with
  | some db => return db
  | none => throw (.withoutValue path)

/-- The result of what the options ask for. -/
def produce (files : FileAccess m) (o : Options) : Run m String := do
  let some source := o.source | throw .usage
  match o.operands with
  | ["diff", left, right] =>
    let left ← load files source left
    let right ← load files source right
    return Json.pretty (left.diff right).encode ++ "\n"
  | [path] =>
    let some target := o.target | throw .usage
    let db ← load files source path
    match target.write db o.detail with
    | .ok text => return text
    | .error e => throw (.unwritable e)
  | _ => throw .usage

/-- Does what the arguments ask for; gives what goes to the standard output. -/
def perform (files : FileAccess m) (arguments : List String) : Run m String := do
  let o ← (Options.read {} arguments : Except Stop Options)
  let text ← produce files o
  match o.output with
  | none => return text
  | some path =>
    stopIf (.unsaved path) (← (files.write path text : m _))
    return ""

/-- Runs the program. -/
def run (files : FileAccess m) (program : String) (arguments : List String) : m Outcome := do
  let (result, errors) ← (perform files arguments).run.run ""
  match result with
  | .ok output => return { code := 0, output, errors }
  | .error stop => return { code := 1, output := "", errors := errors ++ stop.text program }

end

end SchemaDialects.CommandLine
