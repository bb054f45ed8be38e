import SchemaDialects.Diagram.Graph
import SchemaDialects.Proofs.NameLaws

/-!
# Nodes, edges and groups

A graph has a node for each entity, and an edge joins nodes of entities that exist (`Edge.of_relation`). The groups of
a graph and the nodes without one share out the nodes (`Graph.grouped_perm`).
-/

namespace SchemaDialects

theorem EntityName.render_injective : Function.Injective EntityName.render := fun a b h => by
  rw [← EntityName.parse_render a, h, EntityName.parse_render]

namespace Diagram

-- ---------------------------------------------------------------------------
-- Nodes and edges
-- ---------------------------------------------------------------------------

section

variable {db : Database} {detail : Detail} {i : Nat}

theorem Graph.exists_nodes (db : Database) (detail : Detail) :
    ∃ groups, (ofDatabase db detail).nodes = db.entities.map (Node.ofEntity db groups detail) := ⟨_, rfl⟩

theorem Graph.id_of_node {x : Entity} {n : Node} (hx : db.entities[i]? = some x)
    (hn : (ofDatabase db detail).nodes[i]? = some n) : n.id = x.id.render := by
  obtain ⟨groups, hnodes⟩ := exists_nodes db detail
  rw [hnodes, List.getElem?_map, hx] at hn
  obtain rfl := Option.some.inj hn
  rfl

theorem Graph.render_mem_ids {x : Entity} (hx : x ∈ db.entities) :
    x.id.render ∈ (ofDatabase db detail).nodes.map (·.id) := by
  obtain ⟨groups, hnodes⟩ := exists_nodes db detail
  rw [hnodes, List.map_map]
  exact List.mem_map_of_mem (f := (·.id) ∘ Node.ofEntity db groups detail) hx

theorem exists_entity {id : EntityName} (h : (db.entity? id).isSome = true) : ∃ x ∈ db.entities, x.id = id := by
  obtain ⟨x, hx⟩ := Option.isSome_iff_exists.mp h
  exact ⟨x, List.mem_of_find?_eq_some hx, by simpa using List.find?_some hx⟩

/-- An edge has the texts of the two names, and both entities exist. -/
theorem Edge.of_relation {r : Relation} {e : Edge} (h : ofRelation? db r = some e) :
    (e.source = r.source.entity.render ∧ e.target = r.target.entity.render) ∧
      (∃ x ∈ db.entities, x.id = r.source.entity) ∧ ∃ x ∈ db.entities, x.id = r.target.entity := by
  unfold ofRelation? at h
  split at h
  · rename_i hboth
    obtain ⟨hsource, htarget⟩ := Bool.and_eq_true_iff.mp hboth
    obtain rfl := Option.some.inj h
    exact ⟨⟨rfl, rfl⟩, exists_entity hsource, exists_entity htarget⟩
  · cases h

end

-- ---------------------------------------------------------------------------
-- Groups
-- ---------------------------------------------------------------------------

theorem mem_foldl_new {names seen : List String} :
    name ∈ names.foldl (fun seen name => if seen.contains name then seen else seen ++ [name]) seen ↔
      name ∈ seen ∨ name ∈ names := by
  induction names generalizing seen with
  | nil => simp
  | cons first names ih =>
    rw [List.foldl_cons, ih]
    split
    · rename_i hseen
      have hfirst : first ∈ seen := by simpa using hseen
      constructor
      · exact fun h => h.imp_right (List.mem_cons_of_mem _)
      · rintro (h | h)
        · exact .inl h
        · rcases List.mem_cons.mp h with rfl | h
          · exact .inl hfirst
          · exact .inr h
    · simp [or_assoc]

theorem nodup_foldl_new {names seen : List String} (h : seen.Nodup) :
    (names.foldl (fun seen name => if seen.contains name then seen else seen ++ [name]) seen).Nodup := by
  induction names generalizing seen with
  | nil => exact h
  | cons first names ih =>
    rw [List.foldl_cons]
    split
    · exact ih h
    · rename_i hnew
      have hfirst : first ∉ seen := by simpa using hnew
      refine ih (List.nodup_append.mpr ⟨h, by simp, fun a ha b hb hab => hfirst ?_⟩)
      rwa [← List.mem_singleton.mp hb, ← hab]

/-- What has one of some different keys is found under these keys, each item once. -/
theorem filter_keys_perm {key : α → Option String} {keys : List String} (h : keys.Nodup) (items : List α) :
    (keys.flatMap fun k => items.filter (key · == some k)).Perm
      (items.filter fun a => keys.any (key a == some ·)) := by
  induction keys with
  | nil => simp
  | cons k keys ih =>
    obtain ⟨hk, hkeys⟩ := List.nodup_cons.mp h
    have hfirst : (items.filter fun a => (k :: keys).any (key a == some ·)).filter (key · == some k) =
        items.filter (key · == some k) := by
      rw [List.filter_filter]
      exact List.filter_congr fun a _ => by cases hka : key a == some k <;> simp [hka]
    have hothers : (items.filter fun a => (k :: keys).any (key a == some ·)).filter (!key · == some k) =
        items.filter fun a => keys.any (key a == some ·) := by
      rw [List.filter_filter]
      refine List.filter_congr fun a _ => ?_
      cases hka : key a == some k with
      | false => simp [hka]
      | true =>
        have hnone : keys.any (key a == some ·) = false := by
          refine List.any_eq_false.mpr fun k' hk' => ?_
          rw [eq_of_beq hka]
          exact fun heq => hk (Option.some.inj (eq_of_beq heq) ▸ hk')
        simp [hnone]
    rw [List.flatMap_cons]
    refine (List.Perm.append (.of_eq hfirst.symm) ((ih hkeys).trans (.of_eq hothers.symm))).trans ?_
    exact List.filter_append_perm _ _

namespace Graph

theorem mem_groups {g : Graph} {group : String} : group ∈ g.groups ↔ ∃ n ∈ g.nodes, n.group = some group := by
  rw [groups, mem_foldl_new]
  simp

theorem nodup_groups (g : Graph) : g.groups.Nodup := nodup_foldl_new List.nodup_nil

/-- The members of a group. -/
def members (g : Graph) (group : String) : List Node := g.nodes.filter (·.group == some group)

def ungrouped (g : Graph) : List Node := g.nodes.filter (·.group.isNone)

theorem grouped_perm (g : Graph) : (g.groups.flatMap g.members ++ g.ungrouped).Perm g.nodes := by
  have hgrouped : (g.nodes.filter fun n => g.groups.any (n.group == some ·)) = g.nodes.filter (·.group.isSome) := by
    refine List.filter_congr fun n hn => ?_
    cases hgroup : n.group with
    | none => simp
    | some group =>
      have hmem : group ∈ g.groups := mem_groups.mpr ⟨n, hn, hgroup⟩
      simpa using hmem
  have hothers : g.ungrouped = g.nodes.filter (!·.group.isSome) :=
    List.filter_congr fun n _ => by cases n.group <;> rfl
  have hmembers : (g.groups.flatMap g.members).Perm _ := filter_keys_perm g.nodup_groups g.nodes
  rw [hgrouped] at hmembers
  exact (hmembers.append (.of_eq hothers)).trans (List.filter_append_perm _ _)

end Graph

end Diagram

end SchemaDialects
