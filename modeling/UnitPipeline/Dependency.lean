import UnitPipeline.Declaration
import UnitPipeline.OrderedSet
import UnitPipeline.Session

namespace UnitPipeline

-- The edges out of one unit: what it refers to and what it introduces. Neither
-- set is set up before its first member comes.
--
-- No unit may depend on one that lives only in memory. Otherwise an expansion
-- that refers back to the unit it came from makes each the reason to rebuild
-- the other, without end.
structure DependencyTracker where
  references : Option (OrderedSet DeclId) := none
  definitions : Option (OrderedSet DeclId) := none
  deriving DecidableEq, Repr

-- What becomes of a reference. The flag is asked first, then the unit, then
-- the target.
inductive Reference
  | untracked
  | fromVirtual
  | toVirtual
  | edge
  deriving DecidableEq, Repr

def Reference.judge (session : Session) (unit : SourceFile) (target : Declaration) : Reference :=
  if session.tracksDependencies then
    if unit.isPersistent then
      if target.source.isVirtual then toVirtual else edge
    else fromVirtual
  else untracked

structure DependencyReport where
  source : String
  dependencies : List String
  defined : List String
  deriving DecidableEq, Repr

namespace DependencyTracker

def dependencies (tracker : DependencyTracker) : OrderedSet DeclId := tracker.references.getD {}

def defined (tracker : DependencyTracker) : OrderedSet DeclId := tracker.definitions.getD {}

def registerDependency (tracker : DependencyTracker) (session : Session) (unit : SourceFile)
    (target : Declaration) : DependencyTracker :=
  match Reference.judge session unit target with
  | .edge => { tracker with references := some (tracker.dependencies.insert target.id) }
  | _ => tracker

def registerDefinition (tracker : DependencyTracker) (unit : SourceFile) (decl : DeclId) :
    DependencyTracker :=
  if unit.isPersistent then { tracker with definitions := some (tracker.defined.insert decl) }
  else tracker

def isNewDependency (tracker : DependencyTracker) (session : Session) (unit : SourceFile)
    (target : Declaration) : Bool :=
  Reference.judge session unit target = .edge && !tracker.dependencies.contains target.id

def isNewDefinition (tracker : DependencyTracker) (unit : SourceFile) (decl : DeclId) : Bool :=
  unit.isPersistent && !tracker.defined.contains decl

def isAllocated (tracker : DependencyTracker) : Bool :=
  tracker.references.isSome || tracker.definitions.isSome

def report (tracker : DependencyTracker) (unit : SourceFile) (decls : DeclTable) :
    DependencyReport :=
  ⟨unit.display, tracker.dependencies.toList.filterMap decls.nameOf?,
    tracker.defined.toList.filterMap decls.nameOf?⟩

theorem registerDependency_edge {tracker : DependencyTracker}
    (judged : Reference.judge session unit target = .edge) :
    tracker.registerDependency session unit target =
      { tracker with references := some (tracker.dependencies.insert target.id) } := by
  simp only [registerDependency, judged]

theorem registerDependency_ignored {tracker : DependencyTracker}
    (judged : Reference.judge session unit target ≠ .edge) :
    tracker.registerDependency session unit target = tracker := by
  unfold registerDependency
  cases verdict : Reference.judge session unit target with
  | edge => exact absurd verdict judged
  | _ => rfl

theorem registerDefinition_owned {tracker : DependencyTracker} (owns : unit.isPersistent = true) :
    tracker.registerDefinition unit decl =
      { tracker with definitions := some (tracker.defined.insert decl) } := if_pos owns

theorem registerDefinition_ignored {tracker : DependencyTracker} (owns : ¬unit.isPersistent = true) :
    tracker.registerDefinition unit decl = tracker := if_neg owns

theorem isNewDependency_iff (tracker : DependencyTracker) (session : Session) (unit : SourceFile)
    (target : Declaration) : tracker.isNewDependency session unit target = true ↔
      tracker.dependencies.length <
        (tracker.registerDependency session unit target).dependencies.length := by
  by_cases judged : Reference.judge session unit target = .edge
  · rw [registerDependency_edge judged]
    refine Iff.trans ?_ OrderedSet.insert_longer.symm
    simp [isNewDependency, judged, OrderedSet.contains]
  · rw [registerDependency_ignored judged]
    simp [isNewDependency, judged]

theorem isNewDefinition_iff (tracker : DependencyTracker) (unit : SourceFile) (decl : DeclId) :
    tracker.isNewDefinition unit decl = true ↔
      tracker.defined.length < (tracker.registerDefinition unit decl).defined.length := by
  by_cases owns : unit.isPersistent = true
  · rw [registerDefinition_owned owns]
    refine Iff.trans ?_ OrderedSet.insert_longer.symm
    simp [isNewDefinition, owns, OrderedSet.contains]
  · rw [registerDefinition_ignored owns]
    simp [isNewDefinition, owns]

end DependencyTracker

end UnitPipeline
