import UnitPipeline.Proofs.Declaration.Listing
import UnitPipeline.Proofs.Statement.Placed

namespace UnitPipeline

def Introduction.of (source : SourceFile) (entry : String × DeclKind) : Introduction :=
  ⟨source, entry.1, entry.2⟩

def introductions (sources : List SourceFile) : List Introduction :=
  sources.flatMap fun source =>
    (Statement.introducedBy source.chars).map (Introduction.of source)

namespace DeclTable
variable {table next decls : DeclTable} {made : List Introduction}

theorem Lists.declareAll {entries : List (String × DeclKind)} (lists : table.Lists made)
    (took : DeclTable.declareAll source entries table = .ok next) :
    next.Lists (made ++ entries.map (Introduction.of source)) := by
  induction entries generalizing table made with
  | nil =>
    cases took
    simpa using lists
  | cons entry rest ih =>
    unfold DeclTable.declareAll at took
    split at took
    · cases took
    · rename_i first
      have later := ih (lists.declare first) took
      rwa [List.append_assoc] at later

theorem Lists.ofSources (lists : table.Lists made) (told : table.ofSources sources = .ok decls) :
    decls.Lists (made ++ introductions sources) := by
  induction sources generalizing table made with
  | nil =>
    cases told
    simpa [introductions] using lists
  | cons source rest ih =>
    unfold DeclTable.ofSources at told
    split at told
    · cases told
    · rename_i first
      have later := ih (lists.declareAll first) told
      rwa [List.append_assoc] at later

theorem ofSources_lists (told : ofSources {} sources = .ok decls) :
    decls.Lists (introductions sources) := by
  have empty : ({} : DeclTable).Lists [] := ⟨rfl, List.nodup_nil⟩
  exact empty.ofSources told

theorem declared_in_row (told : ofSources {} sources = .ok decls) (inside : source ∈ sources) :
    ∃ first, ∀ place entry, (Statement.introducedBy source.chars)[place]? = some entry →
      decls.named? entry.1 = some ((Introduction.of source entry).declared (first + place)) := by
  obtain ⟨before, behind, rfl⟩ := List.append_of_mem inside
  refine ⟨(introductions before).length, ?_⟩
  intro place entry here
  have row : introductions (before ++ source :: behind) = introductions before ++
      ((Statement.introducedBy source.chars).map (Introduction.of source) ++
        introductions behind) := by
    simp [introductions]
  obtain ⟨bound, _⟩ := List.getElem?_eq_some_iff.mp here
  refine (ofSources_lists told).named (i := .of source entry) ?_
  rw [row, List.getElem?_append_right (Nat.le_add_right ..), Nat.add_sub_cancel_left,
    List.getElem?_append_left (by simpa using bound), List.getElem?_map, here]
  rfl

def idOf? (decls : DeclTable) (name : String) : Option DeclId := (decls.named? name).map (·.id)

structure Declares (decls : DeclTable) (source : SourceFile) : Prop where
  found : ∀ entry ∈ source.introduces, ∃ d, decls.named? entry.1 = some d ∧ d.source = source
  distinct : (source.introduces.map fun entry => decls.idOf? entry.1).Nodup

-- A source that takes no more nodes than there are ids gets ids that differ, although
-- all ids of a run are given out from one counter that may run over.
theorem ofSources_declares (told : ofSources {} sources = .ok decls) (inside : source ∈ sources)
    (readable : source.unreadable? = none)
    (few : source.statements.length + source.cases.length < UInt32.size) :
    decls.Declares source := by
  obtain ⟨first, row⟩ := declared_in_row told inside
  rw [source.introducedBy_eq readable] at row
  refine ⟨?_, ?_⟩
  · intro entry known
    obtain ⟨place, here⟩ := List.mem_iff_getElem?.mp known
    exact ⟨_, row place entry here, rfl⟩
  · have bound : source.introduces.length ≤ source.statements.length + source.cases.length :=
      introduces_length source.statements
    refine List.nodup_iff_getElem?_ne_getElem?.mpr ?_
    intro i j before inside same
    rw [List.length_map] at inside
    have left := List.getElem?_eq_getElem (Nat.lt_trans before inside)
    have right := List.getElem?_eq_getElem inside
    simp only [List.getElem?_map, left, right, Option.map_some, Option.some.injEq, idOf?,
      row i _ left, row j _ right, Introduction.declared] at same
    have equal := DeclId.ofIndex_inj (by omega) (by omega) same
    omega

end DeclTable

end UnitPipeline
