import UnitPipeline.Tree

namespace UnitPipeline

structure Feature where
  name : String
  deriving DecidableEq, Repr

-- When a queued check runs: after the unit has left every phase, or after the
-- type checker has left the unit.
inductive CheckPoint
  | postUnit
  | postTyper
  deriving DecidableEq, Repr

def CheckPoint.label : CheckPoint → String
  | postUnit => "PostUnit"
  | postTyper => "PostTyper"

inductive DeferredCheck
  | featureEnabled (feature : Feature) (position : Position)
  | syntheticsDrained
  | computed (node : NodeId)
  | validate (code : String) (node : Option NodeId) (message : String)
  deriving DecidableEq, Repr

inductive CheckFailure
  | syntheticsNotDrained (remaining : Nat)
  | missingComputation (node : NodeId)
  | failed (check message : String)
  deriving DecidableEq, Repr

namespace CheckFailure

def code : CheckFailure → String
  | syntheticsNotDrained _ => "E-UNIT-001"
  | missingComputation _ => "E-UNIT-002"
  | failed .. => "E-UNIT-003"

def message : CheckFailure → String
  | syntheticsNotDrained remaining =>
    toString remaining ++ " synthetic definition(s) were never consumed"
  | missingComputation node => "no computed result for node " ++ toString node.number.toNat
  | failed check message => "check " ++ check ++ " failed: " ++ message

end CheckFailure

-- One queue for both checkpoints, oldest first.
structure CheckQueue where
  entries : List (CheckPoint × DeferredCheck) := []
  deriving DecidableEq, Repr

namespace CheckQueue

def waiting (q : CheckQueue) (point : CheckPoint) : List DeferredCheck :=
  (q.entries.filter fun e => e.1 = point).map (·.2)

def push (q : CheckQueue) (point : CheckPoint) (check : DeferredCheck) : CheckQueue :=
  ⟨q.entries ++ [(point, check)]⟩

def without (q : CheckQueue) (point : CheckPoint) : CheckQueue :=
  ⟨q.entries.filter fun e => e.1 ≠ point⟩

def requeue (q : CheckQueue) (point : CheckPoint) (checks : List DeferredCheck) : CheckQueue :=
  ⟨checks.map (fun check => (point, check)) ++ q.entries⟩

def pending (q : CheckQueue) (point : CheckPoint) : Nat := (q.waiting point).length

def length (q : CheckQueue) : Nat := q.entries.length

def isEmpty (q : CheckQueue) : Bool := q.entries.isEmpty

@[simp] theorem waiting_without (q : CheckQueue) (point other : CheckPoint) :
    (q.without point).waiting other = if point = other then [] else q.waiting other := by
  simp only [waiting, without, List.filter_filter]
  by_cases equal : point = other
  · subst equal
    simp
  · simp only [if_neg equal]
    congr 1
    apply List.filter_congr
    intro e _
    by_cases found : e.1 = other
    · simp [found, Ne.symm equal]
    · simp [found]

@[simp] theorem waiting_requeue (q : CheckQueue) (point other : CheckPoint)
    (checks : List DeferredCheck) :
    (q.requeue point checks).waiting other =
      if point = other then checks ++ q.waiting other else q.waiting other := by
  by_cases equal : point = other
  · simp [waiting, requeue, List.filter_append, equal, List.filter_map, Function.comp_def]
  · simp [waiting, requeue, List.filter_append, equal, List.filter_map, Function.comp_def]

end CheckQueue

end UnitPipeline
