import SchemaDialects.Dialect
import SchemaDialects.Proofs.Diagram.Commands
import SchemaDialects.Proofs.Diagram.Graphs

/-!
# Drawings read back

A DOT text is read as a drawing by following its commands. `draws_graph`: what is written of a schema is read back as
its graph, each node drawn once, in the cluster of its group or outside, and each edge once.
-/

namespace SchemaDialects.Diagram.Dot

open Text

-- ---------------------------------------------------------------------------
-- Drawing
-- ---------------------------------------------------------------------------

/-- Where a drawing is continued. -/
inductive Pen
  | notBegun
  | inGraph
  | inCluster (c : Cluster)
  | finished

structure Canvas where
  pen : Pen := .notBegun
  drawing : Drawing := {}

/-- Follows one command. Nodes may stand in clusters, edges may not, and clusters hold no clusters. -/
def Canvas.follow (canvas : Canvas) (command : Command) : Option Canvas :=
  let ⟨pen, d⟩ := canvas
  match pen, command with
  | .notBegun, .beginGraph => some ⟨.inGraph, d⟩
  | .inGraph, .setting => some ⟨.inGraph, d⟩
  | .inGraph, .beginCluster => some ⟨.inCluster {}, d⟩
  | .inGraph, .node n => some ⟨.inGraph, { d with nodes := d.nodes ++ [n] }⟩
  | .inGraph, .edge e => some ⟨.inGraph, { d with edges := d.edges ++ [e] }⟩
  | .inGraph, .finish => some ⟨.finished, d⟩
  | .inCluster c, .title label => some ⟨.inCluster { c with label }, d⟩
  | .inCluster c, .node n => some ⟨.inCluster { c with nodes := c.nodes ++ [n] }, d⟩
  | .inCluster c, .finish => some ⟨.inGraph, { d with clusters := d.clusters ++ [c] }⟩
  | _, _ => none

/-- Reads a DOT text. -/
def read? (text : String) : Option Drawing := do
  let commands ← commands? text.toList
  let canvas ← commands.foldlM Canvas.follow {}
  match canvas.pen with
  | .finished => some canvas.drawing
  | _ => none

-- ---------------------------------------------------------------------------
-- Labels of records
-- ---------------------------------------------------------------------------

/-- The text of a column in a record. -/
def columnChars (c : Column) : List Char := (columnLabel c).toList ++ ['\\', 'l']

def DrawnNode.ofNode (n : Node) : DrawnNode where
  id := n.id
  fields := (escapeIf isRecordMark n.label).toList ::
    if n.columns.isEmpty then [] else [n.columns.flatMap columnChars]

def DrawnEdge.ofEdge (e : Edge) : DrawnEdge where
  source := e.source
  target := e.target
  sourceText := cardinalityText e.sourceCardinality
  targetText := cardinalityText e.targetCardinality
  label := e.label

theorem isRecordMark_of_isStringMark (c : Char) (h : isStringMark c = true) : isRecordMark c = true := by
  rw [isRecordMark_eq, h, Bool.true_or]

theorem toList_columnLabel (c : Column) : (columnLabel c).toList =
    (escapeIf isRecordMark c.name).toList ++ " : ".toList ++ (escapeIf isRecordMark c.type).toList ++
      (if c.inKey then " PK".toList else []) ++ (if c.isReference then " FK".toList else []) ++
      (if c.nullable then "?".toList else []) := by
  simp only [columnLabel, String.toList_append, apply_ite String.toList]
  rfl

/-- Behind the name and the type of a column stand plain characters only. -/
theorem exists_columnChars (c : Column) : ∃ flags : List Char, flags.any isRecordMark = false ∧
    columnChars c = (escapeIf isRecordMark c.name).toList ++ " : ".toList ++ (escapeIf isRecordMark c.type).toList ++
      flags ++ ['\\', 'l'] := by
  refine ⟨(if c.inKey then " PK".toList else []) ++ (if c.isReference then " FK".toList else []) ++
    (if c.nullable then "?".toList else []), ?_, ?_⟩
  · cases c.inKey <;> cases c.isReference <;> cases c.nullable <;> decide
  · rw [columnChars, toList_columnLabel]
    simp only [List.append_assoc]

theorem toList_recordLabel (n : Node) : (recordLabel n).toList = '\x7b' :: ((escapeIf isRecordMark n.label).toList ++
    (if n.columns.isEmpty then [] else '|' :: n.columns.flatMap columnChars) ++ ['\x7d']) := by
  have hcolumns : (String.join (n.columns.map fun c => columnLabel c ++ "\\l")).toList =
      n.columns.flatMap columnChars := by
    rw [String.toList_join, List.flatMap_map]
    simp only [String.toList_append]
    rfl
  by_cases hempty : n.columns.isEmpty = true
  · simp [recordLabel, hempty]
  · simp [recordLabel, hempty, hcolumns]

theorem solid_columnChars (c : Column) : Solid (columnChars c) := by
  obtain ⟨flags, hflags, heq⟩ := exists_columnChars c
  rw [heq]
  exact ((((solid_escapeIf _).append (solid_plain (by decide))).append (solid_escapeIf _)).append
    (solid_plain hflags)).append (solid_escaped 'l')

theorem sealed_columnChars (c : Column) : Sealed (columnChars c) := by
  obtain ⟨flags, hflags, heq⟩ := exists_columnChars c
  have hplain : flags.any isStringMark = false := List.any_eq_false.mpr fun c hc hmark =>
    List.any_eq_false.mp hflags c hc (isRecordMark_of_isStringMark c hmark)
  have hname := sealed_escapeIf isRecordMark_of_isStringMark
  rw [heq]
  exact ((((hname _).append (sealed_plain (by decide))).append (hname _)).append (sealed_plain hplain)).append
    (sealed_escaped 'l')

theorem sealed_recordLabel (n : Node) : Sealed (recordLabel n).toList := by
  have hcolumns : Sealed (if n.columns.isEmpty then [] else '|' :: n.columns.flatMap columnChars) := by
    split
    · exact sealed_nil
    · exact Sealed.cons (by decide) (sealed_flatMap fun c _ => sealed_columnChars c)
  have hlabel := (sealed_escapeIf isRecordMark_of_isStringMark n.label).append hcolumns
  rw [toList_recordLabel]
  exact Sealed.cons (by decide) (hlabel.append (sealed_char (by decide)))

/-- A record has its outer braces and one bar in front of its columns, if there are any. -/
theorem fields?_recordLabel (n : Node) : fields? (recordLabel n).toList = some (DrawnNode.ofNode n).fields := by
  rw [toList_recordLabel, fields?, DrawnNode.ofNode, List.append_assoc, solid_escapeIf _ _ _ (by simp), List.nil_append]
  split
  · rfl
  · have hcolumns := solid_flatMap (f := columnChars) fun c (_ : c ∈ n.columns) => solid_columnChars c
    have hbar : ∀ field : List Char, fieldsFrom field ('|' :: n.columns.flatMap columnChars ++ ['\x7d']) =
        (field :: ·) <$> fieldsFrom [] (n.columns.flatMap columnChars ++ ['\x7d']) := by
      intro field
      obtain ⟨d, rest, hrest⟩ := List.exists_cons_of_ne_nil
        (by simp : n.columns.flatMap columnChars ++ ['\x7d'] ≠ [])
      rw [List.cons_append, hrest, fieldsFrom, if_neg (by decide), if_pos rfl]
    rw [hbar, hcolumns _ _ (by simp), List.nil_append]
    rfl

-- ---------------------------------------------------------------------------
-- Lines of nodes and edges
-- ---------------------------------------------------------------------------

theorem sealed_string (s : String) : Sealed (escapeIf isStringMark s).toList := sealed_escapeIf (fun _ => id) s

theorem decode_string (s : String) : decode (escapeIf isStringMark s).toList = s := decode_escapeIf (by decide) s

theorem tells_node {indent : String} (hindent : indent.toList.all isBlank = true) (n : Node) :
    Tells [nodeLine indent n] [.node (.ofNode n)] := by
  let body := .string (escapeIf isStringMark n.id).toList :: plainPieces " [label=" ++
    .string (recordLabel n).toList :: plainPieces "]"
  have hstrings : Statement.strings ⟨body, ';'⟩ = [(escapeIf isStringMark n.id).toList, (recordLabel n).toList] := rfl
  have hshape : Statement.shape ⟨body, ';'⟩ = "\" [label=\"]".toList := rfl
  refine tells_line indent body ';' ?_ hindent ?_ (fun c h => by cases h) rfl ?_
  · simp [nodeLine, quoted, plainPieces, Piece.chars, body]
  · exact inner_append (inner_string (sealed_string n.id) (by decide)) (inner_string (sealed_recordLabel n) (by decide))
  · simp only [Statement.command?, hstrings, hshape, if_true, fields?_recordLabel, Option.map_some, decode_string]
    rfl

/-- The line of an edge up to its label. -/
def edgePieces (e : Edge) : List Piece :=
  .string (escapeIf isStringMark e.source).toList :: plainPieces " -> " ++
    .string (escapeIf isStringMark e.target).toList :: plainPieces " [taillabel=" ++
    .string (cardinalityText e.sourceCardinality).toList :: plainPieces ", headlabel=" ++
    [.string (cardinalityText e.targetCardinality).toList]

theorem sealed_cardinality (c : Cardinality) : Sealed (cardinalityText c).toList := by
  cases c <;> exact sealed_plain (by decide)

theorem decode_cardinality (c : Cardinality) : decode (cardinalityText c).toList = cardinalityText c := by
  cases c <;> rfl

theorem inner_edgePieces (e : Edge) : ∀ p ∈ edgePieces e, p.Inner := by
  have hends := inner_append (inner_string (s := " -> ") (sealed_string e.source) (by decide))
    (inner_string (s := " [taillabel=") (sealed_string e.target) (by decide))
  exact inner_append (inner_append hends (inner_string (sealed_cardinality e.sourceCardinality) (by decide)))
    (List.forall_mem_singleton.mpr (sealed_cardinality e.targetCardinality))

/-- The rest of that line. -/
def labelPieces : Option String → List Piece
  | none => plainPieces "]"
  | some label => plainPieces ", label=" ++ .string (escapeIf isStringMark label).toList :: plainPieces "]"

theorem inner_labelPieces (label : Option String) : ∀ p ∈ labelPieces label, p.Inner := by
  cases label with
  | none => exact inner_plainPieces (by decide)
  | some label => exact inner_append (inner_plainPieces (by decide)) (inner_string (sealed_string label) (by decide))

theorem command?_edge (e : Edge) :
    Statement.command? ⟨edgePieces e ++ labelPieces e.label, ';'⟩ = some (.edge (.ofEdge e)) := by
  have hstrings : ∀ label, Statement.strings ⟨edgePieces e ++ labelPieces label, ';'⟩ =
      [(escapeIf isStringMark e.source).toList, (escapeIf isStringMark e.target).toList,
        (cardinalityText e.sourceCardinality).toList, (cardinalityText e.targetCardinality).toList] ++
      label.toList.map fun label => (escapeIf isStringMark label).toList := by
    rintro (_ | _) <;> rfl
  cases hlabel : e.label with
  | none =>
    have hshape : Statement.shape ⟨edgePieces e ++ labelPieces none, ';'⟩ =
      "\" -> \" [taillabel=\", headlabel=\"]".toList := rfl
    simp only [Statement.command?, hstrings, hshape, Option.toList_none, List.map_nil, List.append_nil, if_true,
      decode_string, decode_cardinality, DrawnEdge.ofEdge, hlabel]
  | some label =>
    have hshape : Statement.shape ⟨edgePieces e ++ labelPieces (some label), ';'⟩ =
      "\" -> \" [taillabel=\", headlabel=\", label=\"]".toList := rfl
    simp only [Statement.command?, hstrings, hshape, Option.toList_some, List.map_cons, List.map_nil, List.cons_append,
      List.nil_append, if_true, decode_string, decode_cardinality, DrawnEdge.ofEdge, hlabel]

theorem tells_edge (e : Edge) : Tells [edgeLine e] [.edge (.ofEdge e)] := by
  refine tells_line "  " (edgePieces e ++ labelPieces e.label) ';' ?_ (by decide)
    (inner_append (inner_edgePieces e) (inner_labelPieces e.label)) (fun c h => by cases h) rfl (command?_edge e)
  cases hlabel : e.label with
  | none => simp [edgeLine, quoted, plainPieces, Piece.chars, edgePieces, labelPieces, hlabel]
  | some label => simp [edgeLine, quoted, plainPieces, Piece.chars, edgePieces, labelPieces, hlabel]

-- ---------------------------------------------------------------------------
-- The whole text
-- ---------------------------------------------------------------------------

theorem shape_plainPieces (s : String) (mark : Char) : Statement.shape ⟨plainPieces s, mark⟩ = s.toList := by
  simp [Statement.shape, plainPieces, Function.comp_def]

theorem strings_plainPieces (s : String) (mark : Char) : Statement.strings ⟨plainPieces s, mark⟩ = [] := by
  simp [Statement.strings, plainPieces]

theorem chars_plainPieces (s : String) : (plainPieces s).flatMap Piece.chars = s.toList := by
  simp [plainPieces, List.flatMap_map, Piece.chars]

theorem tells_header : Tells header [.beginGraph, .setting, .setting, .setting] := by
  have hfont : Sealed "Helvetica".toList := sealed_plain (by decide)
  have hbegin : Tells ["digraph schema \x7b"] [.beginGraph] :=
    tells_line "" (plainPieces "digraph schema ") '\x7b' (by simp [plainPieces, Piece.chars]) rfl
      (inner_plainPieces (by decide)) (fun c h => by cases h; decide) rfl rfl
  have hdirection : Tells ["  rankdir=LR;"] [.setting] :=
    tells_line "  " (plainPieces "rankdir=LR") ';' (by simp [plainPieces, Piece.chars]) (by decide)
      (inner_plainPieces (by decide)) (fun c h => by cases h; decide) rfl rfl
  have hnode : Tells ["  node [shape=record, fontname=\"Helvetica\", fontsize=10];"] [.setting] :=
    tells_line "  "
      (plainPieces "node [shape=record, fontname=" ++ .string "Helvetica".toList :: plainPieces ", fontsize=10]")
      ';' (by simp [plainPieces, Piece.chars]) (by decide)
      (inner_append (inner_plainPieces (by decide)) (inner_string hfont (by decide)))
      (fun c h => by cases h; decide) rfl rfl
  have hedge : Tells ["  edge [fontname=\"Helvetica\", fontsize=9];"] [.setting] :=
    tells_line "  " (plainPieces "edge [fontname=" ++ .string "Helvetica".toList :: plainPieces ", fontsize=9]")
      ';' (by simp [plainPieces, Piece.chars]) (by decide)
      (inner_append (inner_plainPieces (by decide)) (inner_string hfont (by decide)))
      (fun c h => by cases h; decide) rfl rfl
  exact hbegin.append (hdirection.append (hnode.append hedge))

theorem tells_finish (indent : String) (hindent : indent.toList.all isBlank = true) :
    Tells [indent ++ "\x7d"] [.finish] :=
  tells_line indent [] '\x7d' (by simp) hindent (by simp) (by simp) rfl rfl

theorem tells_beginCluster (number : Nat) :
    Tells ["  subgraph cluster_" ++ toString number ++ " \x7b"] [.beginCluster] := by
  let opening := "subgraph cluster_" ++ toString number ++ " "
  have hdigits : ∀ c ∈ (toString number).toList, c.isDigit = true := fun c hc =>
    Nat.isDigit_of_mem_toDigits (b := 10) (by decide) (by decide) (by simpa using hc)
  have hinner : opening.toList.all isInner = true := by
    have hnumber : (toString number).toList.all isInner = true :=
      List.all_eq_true.mpr fun c hc => isInner_of (p := Char.isDigit) (by decide) (hdigits c hc)
    simp only [opening, String.toList_append, List.all_append, hnumber]
    decide
  have hlist : opening.toList = "subgraph cluster_".toList ++ ((toString number).toList ++ [' ']) := by
    simp [opening]
  have hprefix : "subgraph cluster_".toList.isPrefixOf opening.toList = true :=
    List.isPrefixOf_iff_prefix.mpr ⟨_, hlist.symm⟩
  have hgraph : opening.toList ≠ "digraph schema ".toList := by
    rw [hlist]
    exact fun h => absurd (List.cons.inj h).1 (by decide)
  refine tells_line "  " (plainPieces opening) '\x7b' ?_ (by decide) (inner_plainPieces hinner) ?_ rfl ?_
  · rw [chars_plainPieces]
    simp [opening]
  · intro c hc
    rw [plainPieces, hlist] at hc
    cases hc
    decide
  · simp only [Statement.command?, strings_plainPieces, shape_plainPieces, hprefix, if_neg hgraph, if_true]

theorem tells_title (group : String) : Tells ["    label=" ++ quoted group ++ ";"] [.title group] := by
  let body := plainPieces "label=" ++ [.string (escapeIf isStringMark group).toList]
  have hstrings : Statement.strings ⟨body, ';'⟩ = [(escapeIf isStringMark group).toList] := rfl
  have hshape : Statement.shape ⟨body, ';'⟩ = "label=\"".toList := rfl
  refine tells_line "    " body ';' ?_ (by decide) ?_ (fun c h => by cases h; decide) rfl ?_
  · simp [quoted, plainPieces, Piece.chars, body]
  · exact inner_append (inner_plainPieces (by decide)) (List.forall_mem_singleton.mpr (sealed_string group))
  · simp only [Statement.command?, hstrings, hshape, if_true, decode_string]

/-- The commands of a cluster. -/
def clusterCommands (g : Graph) (group : String) : List Command :=
  [.beginCluster, .title group] ++ (g.members group).map (.node ∘ .ofNode) ++ [.finish]

theorem tells_nodes (indent : String) (hindent : indent.toList.all isBlank = true) (ns : List Node) :
    Tells (ns.map (nodeLine indent)) (ns.map (.node ∘ .ofNode)) :=
  Tells.map fun n _ => tells_node hindent n

theorem tells_cluster (g : Graph) (number : Nat) (group : String) :
    Tells (clusterLines g number group) (clusterCommands g group) :=
  ((tells_empty.append ((tells_beginCluster number).append (tells_title group))).append
    (tells_nodes "    " (by decide) (g.members group))).append (tells_finish "  " (by decide))

theorem Tells.paragraph (h : Tells lines ks) : Tells (paragraph lines) ks := by
  unfold Dot.paragraph
  split
  · rename_i hempty
    rwa [List.isEmpty_iff.mp hempty] at h
  · exact tells_empty.append h

theorem tells_edges (es : List Edge) : Tells (es.map edgeLine) (es.map (.edge ∘ .ofEdge)) :=
  Tells.map fun e _ => tells_edge e

/-- The commands of a graph behind its header. -/
def bodyCommands (g : Graph) : List Command :=
  g.groups.flatMap (clusterCommands g) ++ g.ungrouped.map (.node ∘ .ofNode) ++ g.edges.map (.edge ∘ .ofEdge) ++
    [.finish]

theorem tells_clusters (g : Graph) :
    Tells (g.groups.zipIdx.flatMap fun (group, number) => clusterLines g number group)
      (g.groups.flatMap (clusterCommands g)) := by
  have hall : g.groups.flatMap (clusterCommands g) = g.groups.zipIdx.flatMap fun p => clusterCommands g p.1 := by
    rw [← List.zipIdx_map_fst 0 g.groups, List.flatMap_map, List.zipIdx_map_fst]
  rw [hall]
  exact Tells.flatMap fun p _ => tells_cluster g p.2 p.1

theorem commands?_write (g : Graph) :
    commands? (write g).toList = some ([.beginGraph, .setting, .setting, .setting] ++ bodyCommands g) := by
  have hnodes := (tells_nodes "  " (by decide) g.ungrouped).paragraph
  have hlines := (((tells_header.append (tells_clusters g)).append hnodes).append
    (tells_edges g.edges).paragraph).append (tells_finish "" (by decide))
  have hall := hlines []
  rw [List.append_nil, ← toList_ofLines] at hall
  refine Eq.trans hall ?_
  simp [commands?, cut, statements, bodyCommands]

-- ---------------------------------------------------------------------------
-- Following the commands
-- ---------------------------------------------------------------------------

/-- The cluster of a group. -/
def Cluster.ofGroup (g : Graph) (group : String) : Cluster where
  label := group
  nodes := (g.members group).map .ofNode

/-- Items that each add one to what is drawn of their kind. -/
theorem follow_flatMap {k : α → List Command} {m : α → β} (canvas : List β → Canvas)
    (h : ∀ drawn a, (k a).foldlM Canvas.follow (canvas drawn) = some (canvas (drawn ++ [m a]))) (l : List α)
    (drawn : List β) : (l.flatMap k).foldlM Canvas.follow (canvas drawn) = some (canvas (drawn ++ l.map m)) := by
  induction l generalizing drawn with
  | nil => simp
  | cons a l ih =>
    rw [List.flatMap_cons, List.foldlM_append, h]
    refine (ih _).trans ?_
    rw [List.append_assoc, List.singleton_append, List.map_cons]

theorem follow_map {k : α → Command} {m : α → β} (canvas : List β → Canvas)
    (h : ∀ drawn a, (canvas drawn).follow (k a) = some (canvas (drawn ++ [m a]))) (l : List α) (drawn : List β) :
    (l.map k).foldlM Canvas.follow (canvas drawn) = some (canvas (drawn ++ l.map m)) := by
  rw [List.map_eq_flatMap]
  exact follow_flatMap canvas (fun drawn a => by simp [h]) l drawn

section

variable {d : Drawing}

theorem follow_nodes (ns : List Node) : (ns.map (.node ∘ .ofNode)).foldlM Canvas.follow ⟨.inGraph, d⟩ =
    some ⟨.inGraph, { d with nodes := d.nodes ++ ns.map .ofNode }⟩ :=
  follow_map (fun nodes => ⟨.inGraph, { d with nodes }⟩) (fun _ _ => rfl) ns d.nodes

theorem follow_edges (es : List Edge) : (es.map (.edge ∘ .ofEdge)).foldlM Canvas.follow ⟨.inGraph, d⟩ =
    some ⟨.inGraph, { d with edges := d.edges ++ es.map .ofEdge }⟩ :=
  follow_map (fun edges => ⟨.inGraph, { d with edges }⟩) (fun _ _ => rfl) es d.edges

theorem follow_cluster (g : Graph) (group : String) :
    (clusterCommands g group).foldlM Canvas.follow ⟨.inGraph, d⟩ =
      some ⟨.inGraph, { d with clusters := d.clusters ++ [.ofGroup g group] }⟩ := by
  have hmembers : ((g.members group).map (.node ∘ .ofNode)).foldlM Canvas.follow ⟨.inCluster { label := group }, d⟩ =
      some ⟨.inCluster (.ofGroup g group), d⟩ :=
    follow_map (fun nodes => ⟨.inCluster { label := group, nodes }, d⟩) (fun _ _ => rfl) (g.members group) []
  rw [clusterCommands, List.append_assoc, List.foldlM_append]
  change (List.foldlM Canvas.follow ⟨.inCluster { label := group }, d⟩ _) = _
  rw [List.foldlM_append, hmembers]
  rfl

theorem follow_clusters (g : Graph) (groups : List String) :
    (groups.flatMap (clusterCommands g)).foldlM Canvas.follow ⟨.inGraph, d⟩ =
      some ⟨.inGraph, { d with clusters := d.clusters ++ groups.map (.ofGroup g) }⟩ :=
  follow_flatMap (fun clusters => ⟨.inGraph, { d with clusters }⟩) (fun _ group => follow_cluster g group)
    groups d.clusters

end

/-- What is drawn of a graph. -/
def Drawing.ofGraph (g : Graph) : Drawing where
  clusters := g.groups.map (.ofGroup g)
  nodes := g.ungrouped.map .ofNode
  edges := g.edges.map .ofEdge

theorem read?_write (g : Graph) : read? (write g) = some (.ofGraph g) := by
  have hfollow : List.foldlM Canvas.follow {} ([.beginGraph, .setting, .setting, .setting] ++ bodyCommands g) =
      some ⟨.finished, .ofGraph g⟩ := by
    rw [List.foldlM_append]
    change (List.foldlM Canvas.follow ⟨.inGraph, {}⟩ (bodyCommands g)) = _
    rw [bodyCommands, List.foldlM_append, List.foldlM_append, List.foldlM_append, follow_clusters]
    simp only [Option.bind_eq_bind, Option.bind_some, follow_nodes, follow_edges]
    rfl
  rw [read?, commands?_write]
  simp only [Option.bind_eq_bind, Option.bind_some, hfollow]

/-- A schema is always written, and the text is read back as a drawing of its graph: ids, titles and labels are what
stood there before it was escaped, the label of a node is a record of its name and, behind the only bar, its columns.
The nodes of the drawing are those of the graph, each once; the clusters are different groups and hold exactly the
nodes of their group, and the nodes outside are those without one; the edges are those of the graph. -/
theorem draws_graph (db : Database) (detail : Detail) :
    ∃ g text drawing, g = Graph.ofDatabase db detail ∧ Dialect.write .dot db detail = .ok text ∧
      read? text = some drawing ∧
      (drawing.clusters.flatMap (·.nodes) ++ drawing.nodes).Perm (g.nodes.map .ofNode) ∧
      (drawing.clusters.map (·.label)).Nodup ∧
      (∀ c ∈ drawing.clusters, c.nodes = (g.nodes.filter (·.group == some c.label)).map .ofNode) ∧
      drawing.nodes = (g.nodes.filter (·.group.isNone)).map .ofNode ∧
      drawing.edges = g.edges.map .ofEdge := by
  refine ⟨_, _, _, rfl, rfl, read?_write _, ?_, ?_, ?_, rfl, rfl⟩
  · have hperm := (Graph.ofDatabase db detail).grouped_perm.map DrawnNode.ofNode
    rw [List.map_append, List.map_flatMap] at hperm
    simpa [Drawing.ofGraph, Cluster.ofGroup, List.flatMap_map] using hperm
  · have hlabels : (Drawing.ofGraph (Graph.ofDatabase db detail)).clusters.map (·.label) =
        (Graph.ofDatabase db detail).groups := by
      simp [Drawing.ofGraph, Function.comp_def, Cluster.ofGroup]
    exact hlabels ▸ Graph.nodup_groups _
  · intro c hc
    obtain ⟨group, -, rfl⟩ := List.mem_map.mp hc
    rfl

end SchemaDialects.Diagram.Dot
