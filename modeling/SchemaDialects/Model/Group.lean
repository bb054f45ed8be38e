import SchemaDialects.Model.Codec

/-!
# Groups of entities

Entities may be grouped for display. The groups of a schema stand among its free-form metadata.
-/

namespace SchemaDialects

open Json

structure Group where
  name : String
  entities : List EntityName
  deriving DecidableEq, Repr

namespace Group

/-- Where the groups stand among the metadata. -/
def key : String := "groups"

def encode (g : Group) : Json :=
  Json.record [
    always "name" (.str g.name),
    always "entities" (.arr (g.entities.map EntityName.encode))]

def decode : Decoder Group :=
  Record.decode "Group" <|
    Group.mk <$>
      Record.required "name" Decoder.string <*>
      Record.required "entities" (Decoder.list decodeEntityName)

/-- The groups as metadata. -/
def metadata (groups : List Group) : Json :=
  (Json.arr (groups.map encode)).sorted

end Group

/-- The groups among the metadata, if there is such a member. -/
def Database.groups (db : Database) : Except Fault (Option (List Group)) :=
  match db.extra.lookup Group.key with
  | none => .ok none
  | some value => some <$> decodeValue (Decoder.list Group.decode) value

end SchemaDialects
