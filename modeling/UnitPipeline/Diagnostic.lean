import UnitPipeline.Source.Span

namespace UnitPipeline

inductive Severity
  | info
  | warning
  | error
  deriving DecidableEq, Repr

def Severity.rank : Severity → Nat
  | info => 0
  | warning => 1
  | error => 2

def Severity.word : Severity → String
  | info => "info"
  | warning => "warning"
  | error => "error"

structure Diagnostic where
  severity : Severity
  position : Position
  message : String
  deriving DecidableEq, Repr

def Diagnostic.display (d : Diagnostic) : String :=
  d.position.display ++ ": " ++ d.severity.word ++ ": " ++ d.message

-- What was reported against a unit, oldest first. Reports are only added.
structure Diagnostics where
  toList : List Diagnostic := []
  deriving DecidableEq, Repr

namespace Diagnostics

def report (ds : Diagnostics) (severity : Severity) (position : Position) (message : String) :
    Diagnostics :=
  ⟨ds.toList ++ [⟨severity, position, message⟩]⟩

def count (ds : Diagnostics) (severity : Severity) : Nat :=
  ds.toList.countP fun d => d.severity = severity

def hasErrors (ds : Diagnostics) : Bool := 0 < ds.count .error

def length (ds : Diagnostics) : Nat := ds.toList.length

def isEmpty (ds : Diagnostics) : Bool := ds.toList.isEmpty

end Diagnostics

end UnitPipeline
