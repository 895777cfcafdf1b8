import Mathlib.Data.List.Nodup
import UnitPipeline.Proofs.Statement.Placed
import UnitPipeline.Statement.Pipeline

namespace UnitPipeline

namespace TreeArena

def of (nodes : List Node) : TreeArena := ⟨nodes.toArray⟩

theorem of_size (nodes : List Node) : (of nodes).size = nodes.length := rfl

theorem of_alloc (nodes : List Node) (node : Node) : (of nodes).alloc node = of (nodes ++ [node]) := by
  simp [alloc, of]

theorem of_get? (nodes : List Node) (id : NodeId) : (of nodes).get? id = nodes[id.index]? := by
  simp [get?, of]

theorem of_get?_ofIndex (small : i < UInt32.size) (nodes : List Node) :
    (of nodes).get? (.ofIndex i) = nodes[i]? := by
  rw [of_get?, NodeId.index_ofIndex small]

theorem of_edit (small : before.length < UInt32.size) (node : Node) (behind : List Node)
    (change : Node → Node) : (of (before ++ node :: behind)).edit (.ofIndex before.length) change =
      of (before ++ change node :: behind) := by
  have here : (of (before ++ node :: behind)).get? (.ofIndex before.length) = some node := by
    rw [of_get?_ofIndex small]
    simp
  unfold edit
  rw [here, NodeId.index_ofIndex small]
  simp [of]

end TreeArena

def Placed.node (p : Placed) : Node := ⟨p.statement.kind, p.span, []⟩

def allotted (first : Nat) (nodes : List Node) : List (NodeId × Node) :=
  (nodes.zipIdx first).map fun e => (.ofIndex e.2, e.1)

theorem allotted_cons (first : Nat) (node : Node) (rest : List Node) :
    allotted first (node :: rest) = (.ofIndex first, node) :: allotted (first + 1) rest := rfl

theorem allotted_append (first : Nat) (a b : List Node) :
    allotted first (a ++ b) = allotted first a ++ allotted (first + a.length) b := by
  simp [allotted, List.zipIdx_append]

theorem allotted_nodes (first : Nat) (nodes : List Node) : (allotted first nodes).map (·.2) = nodes := by
  rw [allotted, List.map_map]
  exact List.zipIdx_map_fst first nodes

theorem mem_allotted (inside : e ∈ allotted first nodes) :
    ∃ i, e.1 = .ofIndex (first + i) ∧ nodes[i]? = some e.2 := by
  obtain ⟨⟨node, place⟩, here, rfl⟩ := List.mem_map.mp inside
  obtain ⟨above, found⟩ := List.mk_mem_zipIdx_iff_le_and_getElem?_sub.mp here
  exact ⟨place - first, by simp [Nat.add_sub_cancel' above], found⟩

theorem NodeId.ofIndex_inj (left : i < UInt32.size) (right : j < UInt32.size)
    (same : ofIndex i = ofIndex j) : i = j := by
  rw [← index_ofIndex left, same, index_ofIndex right]

theorem allotted_distinct (room : first + nodes.length ≤ UInt32.size) :
    ((allotted first nodes).map (·.1)).Nodup := by
  have ids : (allotted first nodes).map (·.1) = (List.range' first nodes.length).map NodeId.ofIndex := by
    rw [← List.zipIdx_map_snd first nodes, allotted, List.map_map, List.map_map]
    rfl
  rw [ids]
  refine List.Nodup.map_on ?_ (List.nodup_range')
  intro i here j there same
  obtain ⟨_, _⟩ := List.mem_range'_1.mp here
  obtain ⟨_, _⟩ := List.mem_range'_1.mp there
  exact NodeId.ofIndex_inj (by omega) (by omega) same

namespace SourceFile

-- The statements of a source come first among the nodes of its unit, then the block
-- around them, then what the namer adds.
def nodes (source : SourceFile) : List Node := source.statements.map Placed.node

def entries (source : SourceFile) : List (NodeId × Node) := allotted 0 source.nodes

theorem entries_eq (source : SourceFile) :
    source.entries = source.statements.zipIdx.map fun e => (.ofIndex e.2, e.1.node) := by
  simp [entries, allotted, nodes, List.zipIdx_map]

def root (source : SourceFile) : NodeId := .ofIndex source.nodes.length

def block (source : SourceFile) (children : List NodeId) : Node :=
  ⟨.block, ⟨0, .ofNat source.length⟩, children⟩

def layout (source : SourceFile) (children : List NodeId) (added : List Node) : TreeArena :=
  .of (source.nodes ++ source.block children :: added)

def additions (source : SourceFile) (added : List Node) : List (NodeId × Node) :=
  allotted (source.nodes.length + 1) added

variable {source : SourceFile} {added : List Node} {children : List NodeId}

theorem nodes_fit (small : source.length < UInt32.size) : source.nodes.length < UInt32.size := by
  have bound := source.statements_size
  rw [nodes, List.length_map]
  omega

theorem layout_alloc (source : SourceFile) (children : List NodeId) (added : List Node) (node : Node) :
    (source.layout children added).alloc node = source.layout children (added ++ [node]) := by
  simp [layout, TreeArena.of_alloc]

theorem layout_nextId (source : SourceFile) (children : List NodeId) (added : List Node) :
    (source.layout children added).nextId = .ofIndex (source.nodes.length + 1 + added.length) := by
  simp [layout, TreeArena.nextId, TreeArena.of_size, Nat.add_assoc, Nat.add_comm 1]

theorem layout_root (room : source.nodes.length < UInt32.size) :
    (source.layout children added).get? source.root = some (source.block children) := by
  rw [layout, root, TreeArena.of_get?_ofIndex room]
  simp

theorem layout_edit (room : source.nodes.length < UInt32.size) (tree : NodeId) :
    (source.layout children added).edit source.root
        (fun node => { node with children := node.children ++ [tree] }) =
      source.layout (children ++ [tree]) added :=
  TreeArena.of_edit room _ _ _

theorem layout_entry (room : source.nodes.length < UInt32.size) (inside : e ∈ source.entries) :
    (source.layout children added).get? e.1 = some e.2 := by
  obtain ⟨i, id, here⟩ := mem_allotted inside
  obtain ⟨bound, _⟩ := List.getElem?_eq_some_iff.mp here
  rw [id, Nat.zero_add, layout, TreeArena.of_get?_ofIndex (Nat.lt_trans bound room),
    List.getElem?_append_left bound, here]

theorem layout_addition (room : source.nodes.length + added.length < UInt32.size)
    (inside : e ∈ source.additions added) :
    (source.layout children added).get? e.1 = some e.2 := by
  obtain ⟨i, id, here⟩ := mem_allotted inside
  obtain ⟨bound, _⟩ := List.getElem?_eq_some_iff.mp here
  have after : source.nodes.length + 1 + i - source.nodes.length = i + 1 := by omega
  rw [id, layout, TreeArena.of_get?_ofIndex (by omega),
    List.getElem?_append_right (by omega), after, List.getElem?_cons_succ, here]

theorem layout_topLevel {u : CompilationUnit} {inside : List (NodeId × Node)}
    (room : source.nodes.length < UInt32.size) (body : u.body = some source.root)
    (trees : u.trees = source.layout (inside.map (·.1)) added)
    (found : ∀ e ∈ inside, u.trees.get? e.1 = some e.2) : Statement.topLevel u = inside := by
  have children : u.trees.children source.root = inside.map (·.1) := by
    rw [TreeArena.children, trees, layout_root room]
    rfl
  simp only [Statement.topLevel, body, children, List.filterMap_map]
  have each : ∀ e ∈ inside,
      ((fun id => (u.trees.get? id).map fun node => (id, node)) ∘ (·.1)) e = some e := by
    intro e known
    simp only [Function.comp_apply, found e known, Option.map_some]
  rw [List.filterMap_congr each, List.filterMap_some]

end SourceFile

theorem topLevel_same {u v : CompilationUnit} (body : u.body = v.body) (trees : u.trees = v.trees) :
    Statement.topLevel u = Statement.topLevel v := by
  unfold Statement.topLevel
  rw [body, trees]

end UnitPipeline
