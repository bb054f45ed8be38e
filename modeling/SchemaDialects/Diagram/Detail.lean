/-!
# Detail of diagrams

How many attributes a diagram shows of each entity.
-/

namespace SchemaDialects.Diagram

inductive Detail
  | none
  | keys
  | keysAndReferences
  | all
  deriving DecidableEq, Repr

namespace Detail

def name : Detail → String
  | .none => "tables"
  | .keys => "pk"
  | .keysAndReferences => "pk_fk"
  | .all => "all"

def ofName? : String → Option Detail
  | "tables" => some .none
  | "pk" => some .keys
  | "pk_fk" => some .keysAndReferences
  | "all" => some .all
  | _ => Option.none

end Detail

end SchemaDialects.Diagram
