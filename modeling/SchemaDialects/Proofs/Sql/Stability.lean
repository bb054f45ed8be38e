import SchemaDialects.Proofs.Sql.Building
import SchemaDialects.Proofs.Sql.RoundTrip

/-!
# Scripts written once more

A script is read, the schema is written, and what was written is read and written again. The second text is the
first one (`writeSchema_settles`): the schema has the text of its normal form (`writeSchema_normalForm`), and
this text is read as the normal form. Where the schema is not settled, the texts may differ (`rewritten?_drifts`).
-/

namespace SchemaDialects.Sql

section
variable (e : Entity)

theorem columnText_normalEntity (types : List NamedType) (ha : a ∈ e.attrs) :
    Flavor.postgres.columnText types (normalEntity e) (normalAttribute e a) = Flavor.postgres.columnText types e a := by
  have htype : Flavor.postgres.columnType types (normalAttribute e a) = Flavor.postgres.columnType types a :=
    spellType_spellType a.type
  have hkey : (if (normalEntity e).isWholeKey [(normalAttribute e a).name] &&
        ((normalEntity e).primaryKey.map (·.name.isNone)).getD false then " PRIMARY KEY"
      else if (normalAttribute e a).nullable then "" else " NOT NULL") =
      if e.isWholeKey [a.name] && (e.primaryKey.map (·.name.isNone)).getD false then " PRIMARY KEY"
      else if a.nullable then "" else " NOT NULL" := by
    show (if keyedAt e a then " PRIMARY KEY" else if !keyedAt e a && a.nullable then "" else " NOT NULL") =
      if keyedAt e a then " PRIMARY KEY" else if a.nullable then "" else " NOT NULL"
    cases keyedAt e a <;> rfl
  have hunique : (normalEntity e).indexes.any (isColumnUnique [(normalAttribute e a).name]) =
      e.indexes.any (isColumnUnique [a.name]) := uniqueAt_normalEntity e ha
  delta Flavor.columnText
  simp only [htype, hkey, hunique]
  rfl

theorem constraintLines_normalEntity :
    Flavor.postgres.constraintLines (normalEntity e) = Flavor.postgres.constraintLines e := by
  have hkey : Flavor.postgres.keyLines (normalEntity e) = Flavor.postgres.keyLines e := by
    rw [Flavor.keyLines, Flavor.keyLines]
    simp only [hasAttribute_normalEntity]
    rfl
  rw [Flavor.constraintLines, Flavor.constraintLines, hkey, filter_isTableUnique_normalEntity]
  exact congrArg _ List.map_map

theorem indexText_normalIndex (i : Index) :
    Flavor.postgres.indexText (normalEntity e) (normalIndex i) = Flavor.postgres.indexText e i := by
  rw [normalIndex]
  split
  · rename_i definition hdefinition
    delta Flavor.indexText
    simp only [hdefinition, Option.getD_some]
    rfl
  · rename_i hdefinition
    split
    · rfl
    · delta Flavor.indexText
      simp only [hdefinition, Option.getD_some, Option.getD_none]
      rfl

theorem commentTexts_normalEntity :
    Flavor.postgres.commentTexts (normalEntity e) = Flavor.postgres.commentTexts e := by
  rw [Flavor.commentTexts, Flavor.commentTexts, if_neg (by decide), if_neg (by decide)]
  refine congrArg₂ (· ++ ·) rfl ?_
  exact List.flatMap_map (normalAttribute e) _ e.attrs

theorem tableText_normalEntity (types : List NamedType) :
    Flavor.postgres.tableText types (normalEntity e) = Flavor.postgres.tableText types e := by
  have hcolumns : (normalEntity e).attrs.map (Flavor.postgres.columnText types (normalEntity e)) =
      e.attrs.map (Flavor.postgres.columnText types e) :=
    List.map_map.trans (List.map_congr_left fun a ha => columnText_normalEntity e types ha)
  have hindexes : ((normalEntity e).indexes.filter hasStatement).map (Flavor.postgres.indexText (normalEntity e)) =
      (e.indexes.filter hasStatement).map (Flavor.postgres.indexText e) := by
    rw [filter_hasStatement_normalEntity, List.map_map]
    exact List.map_congr_left fun i _ => indexText_normalIndex e i
  delta Flavor.tableText
  dsimp only
  rw [hcolumns, constraintLines_normalEntity e, commentTexts_normalEntity e]
  exact congrArg (fun indexes => _ ++ String.join indexes ++ _) hindexes

end

theorem writeSchema_normalForm (db : Database) : writeSchema (normalForm db) .postgres = writeSchema db .postgres := by
  have htables : (normalForm db).entities.map (Flavor.postgres.tableText (normalForm db).types) =
      db.entities.map (Flavor.postgres.tableText db.types) :=
    List.map_map.trans (List.map_congr_left fun e _ => tableText_normalEntity e db.types)
  rw [writeSchema, writeSchema, if_neg (by decide), htables]
  rfl

-- ---------------------------------------------------------------------------
-- The second text
-- ---------------------------------------------------------------------------

/-- The text of a settled schema is read as a schema that has this text. -/
theorem writeSchema_settles {script : String} (hplain : '\\' ∉ script.toList) (hapart : Unfused script)
    (hvalue : (readSchema script .postgres).value = some db) (h : Settled db) :
    ∃ text again, writeSchema db .postgres = .ok text ∧ (readSchema text .postgres).value = some again ∧
      writeSchema again .postgres = .ok text := by
  have hbuilt : Built db := built_readSchema hplain hapart hvalue
  obtain ⟨text, hwrite, hread⟩ := (normal_normalForm hbuilt h).exists_script
  have hsame : writeSchema db .postgres = .ok text := (writeSchema_normalForm db).symm.trans hwrite
  exact ⟨text, normalForm db, hsame, hread, hwrite⟩

/-- Types have other names, expressions are spaced otherwise, and there are indexes over expressions and over a
name with quotes in it. -/
def unevenScript : String :=
  "CREATE TYPE spot AS (x INTEGER, y int4);" ++
    "CREATE TABLE \"T\" (a datetime DEFAULT ( 1+2 ), b DECIMAL (9,2) UNIQUE, CHECK (a>b), UNIQUE (a,b));" ++
    "CREATE INDEX i ON \"T\" (f( a ) DESC,b) WHERE b>1;CREATE INDEX j ON \"T\" (`\"`)"

def unevenSchema : Database := (readSchema unevenScript .postgres).value.getD {}

/-- What is read of a script, as a function of its characters. -/
def readChars (cs : List Char) : Parsed Database :=
  let (tokens, lexical) := locate {} (Text.tiles cut cs)
  let (found, problems) := statements cs tokens
  let diagnostics := lexical ++ problems
  let read : Parsed (List Statement) :=
    if found.isEmpty && diagnostics.any Diagnostic.isError then .failure diagnostics
    else { value := some found, diagnostics }
  read.andThen fun statements => importStatements statements .postgres

theorem readSchema_eq (script : String) : readSchema script .postgres = readChars script.toList := rfl

theorem unfused_iff (script : String) :
    Unfused script ↔ (locate {} (Text.tiles cut script.toList)).1.IsChain fun t u => fuses t u = false := Iff.rfl

theorem unevenScript_settled :
    '\\' ∉ unevenScript.toList ∧ Unfused unevenScript ∧
      (readSchema unevenScript .postgres).value.isSome = true ∧ Settled unevenSchema := by
  have hread : unevenSchema = (readChars unevenScript.toList).value.getD {} := by
    rw [unevenSchema, readSchema_eq]
  rw [hread, readSchema_eq, unfused_iff]
  -- The characters are spelled out first, because a long string is slow to decode.
  unfold unevenScript
  simp only [String.toList_append, String.reduceToList]
  decide +kernel

theorem writeSchema_settles_uneven :
    '\\' ∉ unevenScript.toList ∧ Unfused unevenScript ∧
      (readSchema unevenScript .postgres).value = some unevenSchema ∧ Settled unevenSchema ∧
      ∃ text again, writeSchema unevenSchema .postgres = .ok text ∧
        (readSchema text .postgres).value = some again ∧ writeSchema again .postgres = .ok text := by
  obtain ⟨hplain, hapart, hsome, hsettled⟩ := unevenScript_settled
  have hvalue : (readSchema unevenScript .postgres).value = some unevenSchema := by
    obtain ⟨db, hdb⟩ := Option.isSome_iff_exists.mp hsome
    exact hdb.trans (congrArg (fun value => some (value.getD {})) hdb).symm
  exact ⟨hplain, hapart, hvalue, hsettled, writeSchema_settles hplain hapart hvalue hsettled⟩

/-- A script, read and written again. -/
def rewritten? (script : String) : Option String :=
  (readSchema script .postgres).value.bind fun db => (writeSchema db .postgres).toOption

/-- The name of a field is written without the quotes that it had, and its second word is taken for a part of
the type. -/
theorem rewritten?_drifts :
    '\\' ∉ "CREATE TYPE addr AS (\"Street Name\" text, zip int);".toList ∧
      Unfused "CREATE TYPE addr AS (\"Street Name\" text, zip int);" ∧
      rewritten? "CREATE TYPE addr AS (\"Street Name\" text, zip int);" =
        some "CREATE TYPE addr AS (Street Name text, zip int);\n" ∧
      rewritten? "CREATE TYPE addr AS (Street Name text, zip int);\n" =
        some "CREATE TYPE addr AS (Street name text, zip int);\n" := by
  decide +kernel

end SchemaDialects.Sql
