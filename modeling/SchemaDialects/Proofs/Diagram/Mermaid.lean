import SchemaDialects.Dialect
import SchemaDialects.Proofs.Diagram.Graphs
import SchemaDialects.Proofs.Diagram.ShortNames
import SchemaDialects.Proofs.TextLaws

/-!
# Edges between blocks

`edges_join_own_blocks`: in an entity relationship diagram every line of an edge names the blocks of the two entities
that it relates, and no other blocks. Names are read off the lines as words, which they are because a substitute
contains no blank.
-/

namespace SchemaDialects.Diagram

open Text

namespace Mermaid

-- ---------------------------------------------------------------------------
-- Words of a line
-- ---------------------------------------------------------------------------

/-- The words of a line behind its indentation by four. -/
def wordsOf (line : String) : List String :=
  ((splitAt ' ' line.toList).drop 4).map String.ofList

/-- The block begins with a line that gives it this name. -/
def IsCalled (block : List String) (name : String) : Prop :=
  ∃ line rest, block = line :: rest ∧ wordsOf line = [name, "\x7b"]

/-- The line draws an edge between the blocks of these names. -/
def Joins (line source target : String) : Prop :=
  ∃ feet label, wordsOf line = source :: feet :: target :: ":" :: label

theorem space_not_mem (h : ShortNames.IsWord name) : ' ' ∉ name.toList := fun hmem => by
  rcases h _ hmem with h | h
  · exact absurd h (by decide)
  · exact absurd h (by decide)

theorem wordsOf_opening (h : ' ' ∉ name.toList) : wordsOf ("    " ++ name ++ " \x7b") = [name, "\x7b"] := by
  have hline : ("    " ++ name ++ " \x7b").toList =
      [' '].intercalate [[], [], [], [], name.toList, ['\x7b']] := by
    simp [List.intercalate]
  rw [wordsOf, hline, splitAt_intercalate (by simp) (by simpa using h)]
  simp

theorem space_not_mem_feet (source target : Cardinality) :
    ' ' ∉ (sourceFoot source ++ "--" ++ targetFoot target).toList := by
  cases source <;> cases target <;> decide

theorem wordsOf_edge {source target feet : String} (hsource : ' ' ∉ source.toList) (htarget : ' ' ∉ target.toList)
    (hfeet : ' ' ∉ feet.toList) (label : String) :
    ∃ rest, wordsOf ("    " ++ source ++ " " ++ feet ++ " " ++ target ++ " : " ++ label) =
      source :: feet :: target :: ":" :: rest := by
  have hline : ("    " ++ source ++ " " ++ feet ++ " " ++ target ++ " : " ++ label).toList =
      [' '].intercalate [[], [], [], [], source.toList, feet.toList, target.toList, [':']] ++ ' ' :: label.toList := by
    simp [List.intercalate]
  refine ⟨(splitAt ' ' label.toList).map String.ofList, ?_⟩
  have hwords : pieces (· = ' ') ([' '].intercalate
      [[], [], [], [], source.toList, feet.toList, target.toList, [':']]) = _ :=
    splitAt_intercalate (by simp) (by simp [hsource, htarget, hfeet])
  rw [wordsOf, hline, splitAt, pieces_append_cons (by decide), hwords]
  simp [splitAt]

-- ---------------------------------------------------------------------------
-- Lines of a diagram
-- ---------------------------------------------------------------------------

section

variable {ids : List String}

theorem isCalled_iff (n : Node) : IsCalled (blockLines (ShortNames.ofIds ids) n) name ↔
    ((ShortNames.ofIds ids).get n.id).1 = name := by
  have hwords := wordsOf_opening (space_not_mem (ShortNames.isWord_get ids n.id))
  constructor
  · rintro ⟨line, rest, hblock, hline⟩
    obtain rfl : _ = line := (List.cons.inj hblock).1
    rw [hwords] at hline
    exact (List.cons.inj hline).1
  · rintro rfl
    exact ⟨_, _, rfl, hwords⟩

theorem joins_edgeLine (e : Edge) : Joins (edgeLine (ShortNames.ofIds ids) e)
    ((ShortNames.ofIds ids).get e.source).1 ((ShortNames.ofIds ids).get e.target).1 := by
  obtain ⟨rest, hrest⟩ := wordsOf_edge (space_not_mem (ShortNames.isWord_get ids e.source))
    (space_not_mem (ShortNames.isWord_get ids e.target)) (space_not_mem_feet e.sourceCardinality e.targetCardinality)
    (quoted (e.label.getD ""))
  have hline : edgeLine (ShortNames.ofIds ids) e =
      "    " ++ ((ShortNames.ofIds ids).get e.source).1 ++ " " ++
        (sourceFoot e.sourceCardinality ++ "--" ++ targetFoot e.targetCardinality) ++ " " ++
        ((ShortNames.ofIds ids).get e.target).1 ++ " : " ++ quoted (e.label.getD "") := by
    simp only [edgeLine, String.append_assoc]
  exact ⟨_, rest, (congrArg wordsOf hline).trans hrest⟩

/-- The ends of the edges are nodes, so they ask for nothing new. -/
theorem calls_diagram (db : Database) (detail : Detail) :
    ShortNames.calls {} ((Graph.ofDatabase db detail).nodes.map (·.id) ++
        (Graph.ofDatabase db detail).edges.flatMap fun e => [e.source, e.target]) =
      ((Graph.ofDatabase db detail).nodes.map (·.id) ++
        (Graph.ofDatabase db detail).edges.flatMap fun e => [e.source, e.target]).map fun id =>
          ((ShortNames.ofIds ((Graph.ofDatabase db detail).nodes.map (·.id))).get id).1 := by
  have hknown : ∀ id ∈ (Graph.ofDatabase db detail).edges.flatMap fun e => [e.source, e.target],
      id ∈ (Graph.ofDatabase db detail).nodes.map (·.id) := by
    intro id hid
    obtain ⟨e, he, hend⟩ := List.mem_flatMap.mp hid
    obtain ⟨r, -, hr⟩ := List.mem_filterMap.mp he
    obtain ⟨⟨hsource, htarget⟩, ⟨x, hx, hxid⟩, y, hy, hyid⟩ := Edge.of_relation hr
    rw [List.mem_cons, List.mem_singleton, hsource, htarget, ← hxid, ← hyid] at hend
    rcases hend with rfl | rfl
    · exact Graph.render_mem_ids hx
    · exact Graph.render_mem_ids hy
  have htable := ShortNames.after_of_known fun id hid => ShortNames.get_after {} (hknown id hid)
  rw [ShortNames.after, ShortNames.after, ← List.foldl_append] at htable
  rw [ShortNames.calls_eq_map]
  exact congrArg (fun names : ShortNames => List.map (fun id => (names.get id).1) _) htable

/-- Among the nodes of a schema, the block of one name is that of one entity. -/
theorem isCalled_entity {db : Database} {i : Nat} {x : Entity} {n : Node} {id : EntityName}
    (hknown : ∃ y ∈ db.entities, y.id = id) (hx : db.entities[i]? = some x)
    (hn : (Graph.ofDatabase db detail).nodes[i]? = some n) :
    IsCalled (blockLines (ShortNames.ofIds ((Graph.ofDatabase db detail).nodes.map (·.id))) n)
      ((ShortNames.ofIds ((Graph.ofDatabase db detail).nodes.map (·.id))).get id.render).1 ↔ x.id = id := by
  obtain ⟨y, hy, rfl⟩ := hknown
  have hxmem : x ∈ db.entities := List.mem_of_getElem? hx
  rw [isCalled_iff, Graph.id_of_node hx hn]
  refine ⟨fun h => EntityName.render_injective ?_, fun h => by rw [h]⟩
  exact ShortNames.get_after_injOn _ (Graph.render_mem_ids hxmem) (Graph.render_mem_ids hy) h

end

/-- Asked for many names in a row, a table answers each call, by the loop over the numbered choices where the id is
new; equal ids get equal names and different ids different ones. A diagram asks for the nodes and then for the ends of
the edges, so the line of an edge names the block of the entity at its source and that at its target, which exist, and
the block of no other entity. -/
theorem edges_join_own_blocks :
    (∀ names id, ShortNames.Call names id (names.get id).1 (names.get id).2) ∧
    (∀ ids, ∃ name : String → String, ShortNames.calls {} ids = ids.map name ∧ Set.InjOn name {id | id ∈ ids}) ∧
    ∀ db detail, ∃ g names, g = Graph.ofDatabase db detail ∧ names = ShortNames.ofIds (g.nodes.map (·.id)) ∧
      Dialect.write .mermaid db detail =
        .ok (ofLines (["erDiagram"] ++ g.nodes.flatMap (blockLines names) ++ g.edges.map (edgeLine names))) ∧
      ShortNames.calls {} (g.nodes.map (·.id) ++ g.edges.flatMap fun e => [e.source, e.target]) =
        (g.nodes.map (·.id) ++ g.edges.flatMap fun e => [e.source, e.target]).map (fun id => (names.get id).1) ∧
      ∀ r ∈ db.relations, ∀ e, Edge.ofRelation? db r = some e →
        ∃ source target, Joins (edgeLine names e) source target ∧
          ((∃ x ∈ db.entities, x.id = r.source.entity) ∧ ∃ x ∈ db.entities, x.id = r.target.entity) ∧
          ∀ (i : Nat) x n, db.entities[i]? = some x → g.nodes[i]? = some n →
            (IsCalled (blockLines names n) source ↔ x.id = r.source.entity) ∧
              (IsCalled (blockLines names n) target ↔ x.id = r.target.entity) := by
  refine ⟨ShortNames.call_get, fun ids => ?_, fun db detail => ?_⟩
  · exact ⟨_, ShortNames.calls_eq_map {} ids, ShortNames.get_after_injOn ids⟩
  · refine ⟨_, _, rfl, rfl, rfl, calls_diagram db detail, fun r _ e he => ?_⟩
    obtain ⟨⟨hsource, htarget⟩, hsourceKnown, htargetKnown⟩ := Edge.of_relation he
    refine ⟨_, _, joins_edgeLine e, ⟨hsourceKnown, htargetKnown⟩, fun i x n hx hn => ?_⟩
    rw [hsource, htarget]
    exact ⟨isCalled_entity hsourceKnown hx hn, isCalled_entity htargetKnown hx hn⟩

end Mermaid

end SchemaDialects.Diagram
