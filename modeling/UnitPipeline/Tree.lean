import UnitPipeline.Source.Span

namespace UnitPipeline

-- A node is known by its place in the arena of its unit, so two nodes of equal
-- content that were allocated apart are different nodes.
structure NodeId where
  number : UInt32
  deriving DecidableEq, Repr

def NodeId.index (id : NodeId) : Nat := id.number.toNat

def NodeId.ofIndex (index : Nat) : NodeId := ⟨.ofNat index⟩

inductive NodeKind
  | package (name : String)
  | importPath (path : String)
  | classDef (name : String)
  | defDef (name : String)
  | valDef (name : String)
  | block
  | apply
  | ident (name : String)
  | literal (value : String)
  | xmlLiteral
  | synthetic (name : String)
  deriving DecidableEq, Repr

def NodeKind.definedName? : NodeKind → Option String
  | classDef name | defDef name | valDef name | synthetic name => some name
  | _ => none

structure Node where
  kind : NodeKind
  span : Span
  children : List NodeId := []
  deriving DecidableEq, Repr

structure TreeArena where
  nodes : Array Node := #[]
  deriving DecidableEq, Repr

namespace TreeArena

def size (arena : TreeArena) : Nat := arena.nodes.size

def isEmpty (arena : TreeArena) : Bool := arena.nodes.isEmpty

def nextId (arena : TreeArena) : NodeId := .ofIndex arena.size

def alloc (arena : TreeArena) (node : Node) : TreeArena := ⟨arena.nodes.push node⟩

def get? (arena : TreeArena) (id : NodeId) : Option Node := arena.nodes[id.index]?

def edit (arena : TreeArena) (id : NodeId) (change : Node → Node) : TreeArena :=
  match arena.get? id with
  | some node => ⟨arena.nodes.setIfInBounds id.index (change node)⟩
  | none => arena

def children (arena : TreeArena) (id : NodeId) : List NodeId :=
  match arena.get? id with
  | some node => node.children
  | none => []

def toList (arena : TreeArena) : List (NodeId × Node) :=
  arena.nodes.toList.zipIdx.map fun entry => (.ofIndex entry.2, entry.1)

end TreeArena

theorem NodeId.index_ofIndex {n : Nat} (small : n < UInt32.size) : (NodeId.ofIndex n).index = n := by
  simp only [index, ofIndex, UInt32.toNat_ofNat']
  exact Nat.mod_eq_of_lt small

theorem TreeArena.get?_alloc_new {arena : TreeArena} (small : arena.size < UInt32.size) :
    (arena.alloc node).get? arena.nextId = some node := by
  simp only [get?, nextId, NodeId.index_ofIndex small]
  simp [alloc, size]

theorem TreeArena.get?_alloc_old {arena : TreeArena} {id : NodeId} (old : id.index < arena.size) :
    (arena.alloc node).get? id = arena.get? id := by
  simp only [size] at old
  simp [get?, alloc, Array.getElem?_push, Nat.ne_of_lt old]

theorem TreeArena.size_edit (arena : TreeArena) (id : NodeId) (change : Node → Node) :
    (arena.edit id change).size = arena.size := by
  simp only [edit]
  split <;> simp [size]

theorem NodeId.index_inj {a b : NodeId} (equal : a.index = b.index) : a = b :=
  congrArg NodeId.mk (UInt32.toNat_inj.mp equal)

theorem TreeArena.get?_edit (arena : TreeArena) (id other : NodeId) (change : Node → Node) :
    (arena.edit id change).get? other =
      if other = id then (arena.get? id).map change else arena.get? other := by
  unfold edit
  cases found : arena.get? id with
  | none =>
    by_cases same : other = id
    · rw [if_pos same, same, found, Option.map_none]
    · rw [if_neg same]
  | some node =>
    have inside : id.index < arena.nodes.size := (Array.getElem?_eq_some_iff.mp found).1
    by_cases same : other = id
    · simp [get?, same, inside]
    · have apart : id.index ≠ other.index := fun equal => same (NodeId.index_inj equal).symm
      simp [get?, same, apart]

theorem TreeArena.get?_isSome (arena : TreeArena) (id : NodeId) :
    (arena.get? id).isSome = true ↔ id.index < arena.size := by
  simp [get?, size]

end UnitPipeline
