import UnitPipeline.Check.Queue
import UnitPipeline.Session

namespace UnitPipeline

-- What happens while a unit is worked on, in order. Some events are logged;
-- the others only make the history complete. A cleared unit notes the checks
-- that it gave up with its queue.
inductive UnitEvent
  | guardedName (unit stem : String)
  | fromVirtual (unit target : String)
  | toVirtual (unit target : String)
  | queued (point : CheckPoint) (check : DeferredCheck)
  | started (point : CheckPoint) (check : DeferredCheck) (during : Phase)
  | drained (unit : String) (point : CheckPoint) (ran : Nat)
  | cleared (given : List (CheckPoint × DeferredCheck))
  deriving DecidableEq, Repr

inductive Level
  | warn
  | info
  | debug
  | trace
  deriving DecidableEq, Repr

def Level.rank : Level → Nat
  | warn => 0
  | info => 1
  | debug => 2
  | trace => 3

def Level.word : Level → String
  | warn => "WARN"
  | info => "INFO"
  | debug => "DEBUG"
  | trace => "TRACE"

structure LogEntry where
  level : Level
  message : String
  fields : List (String × String)
  deriving DecidableEq, Repr

def UnitEvent.logged : UnitEvent → Option LogEntry
  | guardedName unit stem =>
    some ⟨.warn,
      "unit-scoped fresh name created during typer; use a typer-local name creator",
      [("unit", unit), ("prefix", stem), ("phase", Phase.typer.name)]⟩
  | fromVirtual unit target =>
    some ⟨.trace, "dependency from virtual unit ignored", [("unit", unit), ("target", target)]⟩
  | toVirtual unit target =>
    some ⟨.trace, "dependency on virtual unit ignored", [("unit", unit), ("target", target)]⟩
  | drained unit point ran =>
    some ⟨.debug, "deferred checks drained",
      [("unit", unit), ("checkpoint", point.label), ("ran", toString ran)]⟩
  | queued .. | started .. | cleared _ => none

def LogEntry.upTo (level : Level) (entries : List LogEntry) : List LogEntry :=
  entries.filter fun e => e.level.rank ≤ level.rank

end UnitPipeline
