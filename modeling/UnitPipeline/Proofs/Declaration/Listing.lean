import Mathlib.Data.List.Nodup
import UnitPipeline.Declaration

namespace UnitPipeline

theorem find_by_key {α κ : Type} [DecidableEq κ] {key : α → κ} {items : List α} {x : α}
    (distinct : (items.map key).Nodup) (inside : x ∈ items) :
    items.find? (fun y => key y = key x) = some x := by
  cases found : items.find? (fun y => key y = key x) with
  | none => simpa using List.find?_eq_none.mp found x inside
  | some y =>
    have same : key y = key x := by simpa using List.find?_some found
    have listed := List.mem_of_find?_eq_some found
    exact congrArg some (List.inj_on_of_nodup_map distinct listed inside same)

structure Introduction where
  source : SourceFile
  name : String
  kind : DeclKind
  deriving DecidableEq, Repr

def Introduction.declared (i : Introduction) (place : Nat) : Declaration :=
  ⟨.ofIndex place, i.name, i.kind, i.source⟩

theorem DeclId.index_ofIndex {place : Nat} (word : place < UInt32.size) :
    (ofIndex place).index = place := UInt32.toNat_ofNat_of_lt' word

theorem DeclId.ofIndex_index (id : DeclId) : ofIndex id.index = id :=
  congrArg DeclId.mk (UInt32.ofNat_toNat (x := id.number))

theorem DeclId.ofIndex_inj {first i j : Nat} (left : i < UInt32.size) (right : j < UInt32.size)
    (same : ofIndex (first + i) = ofIndex (first + j)) : i = j := by
  have words := congrArg (fun id => id.number.toNat) same
  simp only [ofIndex, UInt32.toNat_ofNat'] at words
  have wide : UInt32.size = 4294967296 := rfl
  omega

namespace DeclTable

structure Lists (table : DeclTable) (made : List Introduction) : Prop where
  entries : table.toList = made.zipIdx.map fun e => e.1.declared e.2
  names : (made.map (·.name)).Nodup

variable {table next decls : DeclTable} {made : List Introduction} {i : Introduction}
  {d : Declaration} {id : DeclId} {place : Nat}

theorem Lists.size (lists : table.Lists made) : table.size = made.length := by
  have lengths := congrArg List.length lists.entries
  simpa [toList, DeclTable.size] using lengths

theorem Lists.mem (lists : table.Lists made) :
    d ∈ table.toList ↔
      ∃ place, ∃ i : Introduction, made[place]? = some i ∧ d = i.declared place := by
  rw [lists.entries, List.mem_map]
  constructor
  · rintro ⟨⟨i, place⟩, here, rfl⟩
    exact ⟨place, i, List.mem_zipIdx_iff_getElem?.mp here, rfl⟩
  · rintro ⟨place, i, here, rfl⟩
    exact ⟨(i, place), List.mem_zipIdx_iff_getElem?.mpr here, rfl⟩

theorem Lists.toList_names (lists : table.Lists made) :
    table.toList.map (·.name) = made.map (·.name) := by
  have alone : made.zipIdx.map (fun e => e.1.name) = (made.zipIdx.map (·.1)).map (·.name) := by
    rw [List.map_map]
    rfl
  rw [lists.entries, List.map_map]
  exact alone.trans (congrArg (List.map (·.name)) (List.zipIdx_map_fst 0 made))

theorem named?_free : table.named? name = none ↔ name ∉ table.toList.map (·.name) := by
  simp [named?]

theorem Lists.named_iff (lists : table.Lists made) :
    table.named? name = some d ↔ d ∈ table.toList ∧ d.name = name := by
  constructor
  · intro found
    exact ⟨List.mem_of_find?_eq_some found, by simpa using List.find?_some found⟩
  · rintro ⟨listed, rfl⟩
    have names : (table.toList.map (·.name)).Nodup := lists.toList_names ▸ lists.names
    exact find_by_key names listed

theorem Lists.named (lists : table.Lists made) (here : made[place]? = some i) :
    table.named? i.name = some (i.declared place) :=
  lists.named_iff.mpr ⟨lists.mem.mpr ⟨place, i, here, rfl⟩, rfl⟩

theorem Lists.declare (lists : table.Lists made)
    (took : table.declare name kind source = .ok (new, next)) :
    next.Lists (made ++ [⟨source, name, kind⟩]) := by
  unfold DeclTable.declare at took
  split at took
  · cases took
  · rename_i free
    cases took
    refine ⟨?_, ?_⟩
    · have earlier : table.decls.toList = _ := lists.entries
      simp [toList, earlier, lists.size, List.zipIdx_append, Introduction.declared]
    · rw [named?_free, lists.toList_names] at free
      rw [List.map_append]
      exact lists.names.append (List.nodup_singleton _) (by simpa using free)

theorem Lists.get_iff (lists : table.Lists made) :
    table.get? id = some d ↔ ∃ i, made[id.index]? = some i ∧ d = i.declared id.index := by
  have entries : table.decls.toList = _ := lists.entries
  rw [get?, ← Array.getElem?_toList, entries, List.getElem?_map, Option.map_eq_some_iff]
  constructor
  · intro ⟨e, here, same⟩
    rw [List.getElem?_zipIdx, Option.map_eq_some_iff] at here
    obtain ⟨i, inside, rfl⟩ := here
    exact ⟨i, inside, by simpa using same.symm⟩
  · intro ⟨i, inside, same⟩
    exact ⟨(i, id.index), by simp [inside], same.symm⟩

-- Ids are words, so they lead back to declarations as long as there are not more of those.
theorem Lists.get (lists : table.Lists made) (few : table.size ≤ UInt32.size)
    (here : made[place]? = some i) : table.get? (.ofIndex place) = some (i.declared place) := by
  obtain ⟨bound, _⟩ := List.getElem?_eq_some_iff.mp here
  have inside : place < UInt32.size := by
    rw [lists.size] at few
    omega
  refine lists.get_iff.mpr ⟨i, ?_⟩
  rw [DeclId.index_ofIndex inside]
  exact ⟨here, rfl⟩

theorem Lists.nameOf (lists : table.Lists made) (few : table.size ≤ UInt32.size)
    (here : made[place]? = some i) : table.nameOf? (.ofIndex place) = some i.name := by
  rw [nameOf?, lists.get few here]
  rfl

end DeclTable

end UnitPipeline
