import SchemaDialects.Json.Fault
import SchemaDialects.Name

/-!
# What cannot be written

Reasons for which a schema has no form in a dialect.
-/

namespace SchemaDialects

inductive WriteError
  /-- MySQL has no types made of fields. -/
  | compositeType (id : TypeName)
  /-- MySQL has no types without a body. -/
  | shellType (id : TypeName)
  /-- The table document has no types but enumerations. -/
  | structuralType (id : TypeName)
  /-- The groups among the metadata are not what the table document needs. -/
  | groups (fault : Json.Fault)

def WriteError.message : WriteError → String
  | .compositeType id => "mysql cannot represent composite type " ++ id.render
  | .shellType id => "mysql cannot represent shell type " ++ id.render
  | .structuralType id => "ast cannot represent structural type " ++ id.render
  | .groups fault => "JSON encoding failed: " ++ fault.message

end SchemaDialects
