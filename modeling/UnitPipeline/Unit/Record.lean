import UnitPipeline.Check.Queue
import UnitPipeline.Dependency
import UnitPipeline.Diagnostic
import UnitPipeline.FreshName

namespace UnitPipeline

structure IrClass where
  name : String
  decl : Option DeclId := none
  code : List UInt8 := []
  deriving DecidableEq, Repr

-- What all phases share about one source. The parser writes the tree, the body
-- and the first XML position; the namer the synthetics, dependencies and
-- definitions; the typer the cache, the features and post-typer checks; the
-- backend the artifacts and post-unit checks.
structure CompilationUnit where
  source : SourceFile
  fresh : FreshNames := {}
  trees : TreeArena := {}
  body : Option NodeId := none
  synthetics : KeyedTable DeclId NodeId := {}
  cache : KeyedTable NodeId NodeId := {}
  deps : DependencyTracker := {}
  checks : CheckQueue := {}
  features : OrderedSet Feature := {}
  firstXml : Option Position := none
  target : Option Span := none
  artifacts : OrderedSet IrClass := {}
  diagnostics : Diagnostics := {}
  deriving DecidableEq, Repr

namespace CompilationUnit

def new (source : SourceFile) : CompilationUnit := { source }

def withFreshNames (source : SourceFile) (fresh : FreshNames) : CompilationUnit :=
  { source, fresh }

def none : CompilationUnit := new .absent

def isPresent (u : CompilationUnit) : Bool := u.source.isPresent

def display (u : CompilationUnit) : String := u.source.display

def position (u : CompilationUnit) (offset : UInt64) : Position := u.source.position offset

def nodePosition (u : CompilationUnit) (node : NodeId) : Position :=
  match u.trees.get? node with
  | some found => u.position found.span.start
  | .none => .none

def bodyNode? (u : CompilationUnit) : Option Node := u.body.bind u.trees.get?

def targets (u : CompilationUnit) (span : Span) : Bool :=
  match u.target with
  | some range => range.contains span
  | .none => true

def dependencyReport (u : CompilationUnit) (decls : DeclTable) : DependencyReport :=
  u.deps.report u.source decls

-- A unit whose work is done: everything that phases wrote is given up. The
-- source and the name counters survive, so that later names stay apart from
-- earlier ones.
def cleared (u : CompilationUnit) : CompilationUnit :=
  { u with
    trees := {}
    body := .none
    synthetics := {}
    cache := {}
    deps := {}
    checks := {}
    features := {}
    firstXml := .none
    target := .none
    artifacts := {}
    diagnostics := {} }

end CompilationUnit

end UnitPipeline
