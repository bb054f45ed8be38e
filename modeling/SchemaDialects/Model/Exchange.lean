import SchemaDialects.Model.Codec
import SchemaDialects.Model.Validate
import SchemaDialects.Text.Bytes

/-!
# Schemas exchanged as JSON text

The text form of the model. Reading a text that is not a schema gives one positioned diagnostic;
reading a schema gives the schema and its inconsistencies.
-/

namespace SchemaDialects

open Json

/-- The position that a mark of the text stands for. The column is at least one; the offset is that of
the byte before the mark, and never beyond the end. -/
def markPosition (text : String) (m : Mark) : Position :=
  let lines := (Text.splitAt '\n' text.toList).take (m.line - 1)
  let lineStart := Text.byteLength (lines.flatMap (· ++ ['\n']))
  let offset := min (lineStart + (m.column - 1)) text.utf8ByteSize
  let location : Location := ⟨m.line, max m.column 1⟩
  ⟨⟨offset, offset⟩, location, location⟩

def Json.Fault.diagnostic (text : String) (fault : Fault) : Diagnostic where
  level := .error
  kind := .invalidJson
  message := fault.message
  position := (fault.place.map (markPosition text)).getD .unknown

/-- Decodes a text, a fault becoming a diagnostic. -/
def readJson {α : Type} (d : Decoder α) (text : String) : Parsed α :=
  match decodeText d text with
  | .ok value => .success value
  | .error fault => .failure [fault.diagnostic text]

namespace Database

/-- Reads the exchange format. -/
def readExchange (text : String) : Parsed Database :=
  (readJson decodeDatabase text).andThen fun db => { value := some db, diagnostics := db.validate }

/-- Writes the exchange format. -/
def writeExchange (db : Database) : String :=
  Json.pretty db.encode ++ "\n"

end Database

end SchemaDialects
