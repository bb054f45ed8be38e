import SchemaDialects.Proofs.NameLaws
import SchemaDialects.Sql.Statement

/-!
# Qualified names as texts

`QualifiedName.entityName_as_text`: a qualified name of a statement means what is read from its text, in which
every part is written as a segment, in quotes if it is no plain word. The parts are told apart in the text as they
are in the list, however many they are and whatever they hold. So the last part is the name in both, and the
three parts in front of it are the namespace.
-/

namespace SchemaDialects.Sql.QualifiedName

/-- Names as the segments of a text. -/
def dotted (names : List String) : String := ".".intercalate (names.map quote)

theorem splitSegments_dotted (h : names ≠ []) : splitSegments (dotted names) = names.map some := by
  have hrender : dotted names = renderSegments (names.map some) := by
    rw [dotted, renderSegments, List.map_map]
    rfl
  rw [hrender, splitSegments_render (by simpa using h)]

theorem parse_dotted (h : names ≠ []) : EntityName.parse (dotted names) = entityOf names := by
  rw [EntityName.parse, splitNamed, splitSegments_dotted h, ← List.map_reverse, entityOf]
  cases hnames : names.reverse with
  | nil => exact absurd (List.reverse_eq_nil_iff.mp hnames) h
  | cons name outer => rfl

/-- The places of the parts, counted from the right. What stands further out than the database says nothing. -/
theorem entityOf_eq (names : List String) : entityOf names = {
    name := names.getLast?.getD ""
    space := {
      schema := names.reverse[1]?
      catalog := names.reverse[2]?
      database := names.reverse[3]? } } := by
  rw [entityOf, ← List.head?_reverse]
  rcases names.reverse with _ | ⟨name, _ | ⟨schema, _ | ⟨catalog, _ | ⟨database, outer⟩⟩⟩⟩ <;> rfl

theorem splitColumn?_eq (n : QualifiedName) : n.splitColumn? =
    if n.parts.length < 2 then none else some (entityOf n.values.dropLast, n.base) := by
  have hlength : n.parts.length = n.values.reverse.length := by simp [values]
  have hlast : n.base = n.values.reverse.head?.getD "" := by rw [base, List.head?_reverse]
  have hfront : n.values.dropLast = n.values.reverse.tail.reverse := by rw [List.tail_reverse, List.reverse_reverse]
  rw [splitColumn?, hlast, hfront, hlength]
  rcases n.values.reverse with _ | ⟨column, _ | ⟨table, outer⟩⟩ <;> simp

/-- A qualified name of any number of parts means the entity that is read from the parts as a text: the last part is
its name, those in front of it from the right are schema, catalog and database. A column, which needs a second part,
is the last one and belongs to the entity that is read from the others. -/
theorem entityName_as_text {n : QualifiedName} (h : n.parts ≠ []) :
    n.entityName = EntityName.parse (dotted n.values) ∧
    n.entityName = {
      name := n.base
      space := {
        schema := n.values.reverse[1]?
        catalog := n.values.reverse[2]?
        database := n.values.reverse[3]? } } ∧
    n.splitColumn? =
      if n.parts.length < 2 then none else some (EntityName.parse (dotted n.values.dropLast), n.base) := by
  have hvalues : n.values ≠ [] := by simpa [values] using h
  refine ⟨(parse_dotted hvalues).symm, entityOf_eq n.values, ?_⟩
  rw [splitColumn?_eq]
  refine ite_congr rfl (fun _ => rfl) fun hmany => ?_
  have hfront : n.values.dropLast ≠ [] := by
    have hlength : n.values.dropLast.length = n.parts.length - 1 := by simp [values]
    intro hnil
    rw [hnil, List.length_nil] at hlength
    omega
  rw [parse_dotted hfront]

/-- Five parts, among them one with a dot, an empty one and one with a quote. -/
def manyParts : QualifiedName where
  parts := ["far out", "a.b", "", "the \"app\"", "users"].map fun value => ⟨value, true, .unknown⟩

theorem entityName_as_text_many : manyParts.parts ≠ [] ∧
    dotted manyParts.values = "\"far out\".\"a.b\".\"\".\"the \"\"app\"\"\".users" ∧
    EntityName.parse (dotted manyParts.values) = {
      name := "users"
      space := { schema := some "the \"app\"", catalog := some "", database := some "a.b" } } ∧
    manyParts.splitColumn? = some (EntityName.parse (dotted manyParts.values.dropLast), "users") := by
  have hne : manyParts.parts ≠ [] := by decide
  obtain ⟨htext, hplaces, hcolumn⟩ := entityName_as_text hne
  exact ⟨hne, by decide +kernel, htext.symm.trans hplaces, hcolumn.trans (if_neg (by decide))⟩

end SchemaDialects.Sql.QualifiedName
