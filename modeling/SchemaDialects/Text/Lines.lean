/-!
# Lines

A text of lines, each with a line feed at its end.
-/

namespace SchemaDialects.Text

def ofLines (lines : List String) : String :=
  String.join (lines.map (· ++ "\n"))

end SchemaDialects.Text
