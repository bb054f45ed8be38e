import SchemaDialects.Position

/-!
# Diagnostics

Readers of schemas do not fail: they give what they could read, together with everything that is
to be said about it.
-/

namespace SchemaDialects

inductive Level
  | error
  | warning
  | info
  | hint
  deriving DecidableEq, Repr

def Level.name : Level → String
  | .error => "error"
  | .warning => "warning"
  | .info => "info"
  | .hint => "hint"

/-- What a diagnostic is about. -/
inductive DiagnosticKind
  | invalidSyntax
  | unexpectedToken
  | unterminatedLiteral
  | unknownType
  | unknownEntity
  | unknownAttribute
  | duplicateEntity
  | unsupportedStatement
  | unsupportedDialect
  | invalidJson
  | ignoredConstruct
  deriving DecidableEq, Repr

def DiagnosticKind.name : DiagnosticKind → String
  | .invalidSyntax => "invalid_syntax"
  | .unexpectedToken => "unexpected_token"
  | .unterminatedLiteral => "unterminated_literal"
  | .unknownType => "unknown_type"
  | .unknownEntity => "unknown_entity"
  | .unknownAttribute => "unknown_attribute"
  | .duplicateEntity => "duplicate_entity"
  | .unsupportedStatement => "unsupported_statement"
  | .unsupportedDialect => "unsupported_dialect"
  | .invalidJson => "invalid_json"
  | .ignoredConstruct => "ignored_construct"

structure Diagnostic where
  level : Level
  kind : DiagnosticKind
  message : String
  position : Position := .unknown
  deriving DecidableEq, Repr

namespace Diagnostic

def isError (d : Diagnostic) : Bool :=
  d.level = .error

def isWarning (d : Diagnostic) : Bool :=
  d.level = .warning

/-- The diagnostic on one line. -/
def render (d : Diagnostic) : String :=
  d.level.name ++ " [" ++ d.kind.name ++ "] at " ++ d.position.render ++ ": " ++ d.message

end Diagnostic

/-- A value, perhaps partial, and the diagnostics of its reading. -/
structure Parsed (α : Type) where
  value : Option α
  diagnostics : List Diagnostic := []

namespace Parsed

variable {α β γ : Type}

def success (value : α) : Parsed α := { value := some value }

/-- Nothing could be read. -/
def failure (diagnostics : List Diagnostic) : Parsed α := { value := none, diagnostics }

def errors (p : Parsed α) : List Diagnostic := p.diagnostics.filter Diagnostic.isError

def warnings (p : Parsed α) : List Diagnostic := p.diagnostics.filter Diagnostic.isWarning

def hasErrors (p : Parsed α) : Bool := p.diagnostics.any Diagnostic.isError

/-- There is a value and no error. -/
def isClean (p : Parsed α) : Bool := p.value.isSome && !p.hasErrors

def withDiagnostics (p : Parsed α) (more : List Diagnostic) : Parsed α :=
  { p with diagnostics := p.diagnostics ++ more }

def map (f : α → β) (p : Parsed α) : Parsed β :=
  { value := p.value.map f, diagnostics := p.diagnostics }

/-- A reading that depends on the value of another one. The diagnostics of both are kept. -/
def andThen (p : Parsed α) (f : α → Parsed β) : Parsed β :=
  match p.value with
  | some value =>
    let next := f value
    { value := next.value, diagnostics := p.diagnostics ++ next.diagnostics }
  | none => failure p.diagnostics

def fold (onValue : α → List Diagnostic → γ) (onFailure : List Diagnostic → γ) (p : Parsed α) : γ :=
  match p.value with
  | some value => onValue value p.diagnostics
  | none => onFailure p.diagnostics

/-- The values that could be read, with the diagnostics of all. -/
def collect (results : List (Parsed α)) : Parsed (List α) where
  value := some (results.filterMap (·.value))
  diagnostics := results.flatMap (·.diagnostics)

/-- The diagnostics, each on one line. -/
def rendered (p : Parsed α) : List String := p.diagnostics.map Diagnostic.render

end Parsed

end SchemaDialects
