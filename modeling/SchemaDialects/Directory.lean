/-!
# Directories

A directory that holds text files and nothing else, as a store with faults. A path is a name, perhaps
behind dots and slashes that mean the directory itself.
-/

namespace SchemaDialects

/-- Why a file cannot be read or written. -/
inductive FileFault
  | noSuchFile
  | notDirectory
  | isDirectory
  | notText
  | other (description : String)
  deriving DecidableEq, Repr

def FileFault.message : FileFault → String
  | .noSuchFile => "No such file or directory (os error 2)"
  | .notDirectory => "Not a directory (os error 20)"
  | .isDirectory => "Is a directory (os error 21)"
  | .notText => "stream did not contain valid UTF-8"
  | .other description => description

/-- Where files are read and written. -/
structure FileAccess (m : Type → Type) where
  read : (path : String) → m (Except FileFault String)
  write : (path content : String) → m (Except FileFault Unit)

structure Directory where
  files : List (String × String) := []

namespace Directory

def content? (d : Directory) (name : String) : Option String := d.files.lookup name

def put (d : Directory) (name content : String) : Directory :=
  ⟨(name, content) :: d.files.filter (·.1 != name)⟩

/-- What a path through the file or missing directory `name` comes to. -/
def faultBelow (d : Directory) (name : String) : FileFault :=
  if (d.content? name).isSome then .notDirectory else .noSuchFile

/-- The name that a path means, or why it means no file. Outside of the directory there is nothing. -/
def resolve (d : Directory) (path : String) : Except FileFault String :=
  let steps := path.splitOn "/"
  if steps.head? = some "" then .error (if steps = ["", ""] then .isDirectory else .noSuchFile)
  else
    match steps.filter fun step => step ≠ "." ∧ step ≠ "" with
    | [] => .error .isDirectory
    | [name] =>
      if name = ".." then .error .isDirectory
      else if steps.getLast? = some name then .ok name
      else .error (d.faultBelow name)
    | name :: _ => .error (d.faultBelow name)

def read (path : String) (d : Directory) : Except FileFault String :=
  match d.resolve path with
  | .error fault => .error fault
  | .ok name =>
    match d.content? name with
    | some content => .ok content
    | none => .error .noSuchFile

/-- Whether a path is one name with a slash behind it, which only a directory can have. -/
def isSlashed (path : String) : Bool :=
  let steps := path.splitOn "/"
  steps.getLast? = some "" && ((steps.filter (· ≠ "")).dropWhile (· = ".")).length = 1

def write (path content : String) (d : Directory) : Except FileFault Unit × Directory :=
  match d.resolve path with
  | .error fault => (.error (if isSlashed path then .isDirectory else fault), d)
  | .ok name => (.ok (), d.put name content)

/-- Access to the files of a directory that is carried along. -/
def access : FileAccess (StateM Directory) where
  read path := do return (← get).read path
  write path content := fun d => d.write path content

end Directory

end SchemaDialects
