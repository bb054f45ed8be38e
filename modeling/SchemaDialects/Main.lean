import SchemaDialects.CommandLine

/-!
# The program

Connects the command line to the files and streams of the system.
-/

namespace SchemaDialects.Main

open CommandLine

def faultOf : IO.Error → FileFault
  | .noFileOrDirectory .. => .noSuchFile
  | .inappropriateType _ 20 _ => .notDirectory
  | .inappropriateType .. => .isDirectory
  | e => .other (toString e)

def systemFiles : FileAccess IO where
  read path := do
    try
      match String.fromUTF8? (← IO.FS.readBinFile path) with
      | some text => return .ok text
      | none => return .error .notText
    catch e => return .error (faultOf e)
  write path content := do
    try
      IO.FS.writeFile path content
      return .ok ()
    catch e => return .error (faultOf e)

end SchemaDialects.Main

def main (arguments : List String) : IO UInt32 := do
  let outcome ← SchemaDialects.CommandLine.run SchemaDialects.Main.systemFiles "schemerd" arguments
  IO.eprint outcome.errors
  IO.print outcome.output
  return outcome.code.toUInt32
