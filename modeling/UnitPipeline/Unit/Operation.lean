import UnitPipeline.Unit.Event
import UnitPipeline.Unit.Record

namespace UnitPipeline

-- The changes that a unit offers. Whatever is done to a unit, apart from draining its
-- checks, is a sequence of these: to put another unit in its place is no change of it
-- and is left out, as the source of a unit is never reassigned.
inductive UnitOp
  | alloc (node : Node)
  | editNode (id : NodeId) (change : Node → Node)
  | clearTrees
  | setBody (root : NodeId)
  | noteXml (position : Position)
  | freshTerm (stem : String)
  | freshType (stem : String)
  | rawName (stem : String)
  | stage (decl : DeclId) (tree : NodeId)
  | unstage (decl : DeclId)
  | clearStaged
  | registerDependency (target : Declaration)
  | registerDefinition (decl : DeclId)
  | memoize (node result : NodeId)
  | memoizeOnce (node result : NodeId)
  | rememberFeature (feature : Feature)
  | forgetFeature (feature : Feature)
  | setTarget (target : Option Span)
  | addArtifact (artifact : IrClass)
  | queueCheck (point : CheckPoint) (check : DeferredCheck)
  | report (severity : Severity) (position : Position) (message : String)
  | clear

namespace UnitOp

def Answer : UnitOp → Type
  | alloc _ => NodeId
  | editNode .. => Option Node
  | setBody _ => Option NodeId
  | noteXml _ => Bool
  | freshTerm _ => TermName
  | freshType _ => TypeName
  | rawName _ => String
  | stage .. => Option NodeId
  | unstage _ => Option NodeId
  | registerDependency _ => Bool
  | registerDefinition _ => Bool
  | memoize .. => Option NodeId
  | memoizeOnce .. => NodeId
  | rememberFeature _ => Bool
  | forgetFeature _ => Bool
  | addArtifact _ => Bool
  | clearTrees | clearStaged | setTarget _ | queueCheck .. | report .. | clear => Unit

def answer (s : Session) (u : CompilationUnit) : (op : UnitOp) → op.Answer
  | alloc _ => u.trees.nextId
  | editNode id _ => u.trees.get? id
  | setBody _ => u.body
  | noteXml _ => u.firstXml.isNone
  | freshTerm stem => (⟨u.fresh.nextName stem⟩ : TermName)
  | freshType stem => (⟨u.fresh.nextName stem⟩ : TypeName)
  | rawName stem => u.fresh.nextName stem
  | stage decl _ => u.synthetics.get? decl
  | unstage decl => u.synthetics.get? decl
  | registerDependency target => u.deps.isNewDependency s u.source target
  | registerDefinition decl => u.deps.isNewDefinition u.source decl
  | memoize node _ => u.cache.get? node
  | memoizeOnce node result => (u.cache.get? node).getD result
  | rememberFeature feature => !u.features.contains feature
  | forgetFeature feature => u.features.contains feature
  | addArtifact artifact => !u.artifacts.contains artifact
  | clearTrees | clearStaged | setTarget _ | queueCheck .. | report .. | clear => ()

def apply (s : Session) (u : CompilationUnit) : UnitOp → CompilationUnit
  | alloc node => { u with trees := u.trees.alloc node }
  | editNode id change => { u with trees := u.trees.edit id change }
  | clearTrees => { u with trees := {} }
  | setBody root => { u with body := some root }
  | noteXml position => { u with firstXml := u.firstXml.or (some position) }
  | freshTerm stem | freshType stem | rawName stem => { u with fresh := u.fresh.advance stem }
  | stage decl tree => { u with synthetics := u.synthetics.put decl tree }
  | unstage decl => { u with synthetics := u.synthetics.erase decl }
  | clearStaged => { u with synthetics := {} }
  | registerDependency target => { u with deps := u.deps.registerDependency s u.source target }
  | registerDefinition decl => { u with deps := u.deps.registerDefinition u.source decl }
  | memoize node result => { u with cache := u.cache.put node result }
  | memoizeOnce node result =>
    if u.cache.contains node then u else { u with cache := u.cache.put node result }
  | rememberFeature feature => { u with features := u.features.insert feature }
  | forgetFeature feature => { u with features := u.features.erase feature }
  | setTarget target => { u with target }
  | addArtifact artifact => { u with artifacts := u.artifacts.insert artifact }
  | queueCheck point check => { u with checks := u.checks.push point check }
  | report severity position message =>
    { u with diagnostics := u.diagnostics.report severity position message }
  | clear => u.cleared

def events (s : Session) (u : CompilationUnit) : UnitOp → List UnitEvent
  | freshTerm stem | freshType stem =>
    if s.guardsFreshNames then [.guardedName u.display stem] else []
  | registerDependency target =>
    match Reference.judge s u.source target with
    | .fromVirtual => [.fromVirtual u.display target.name]
    | .toVirtual => [.toVirtual u.display target.name]
    | _ => []
  | queueCheck point check => [.queued point check]
  | clear => [.cleared u.checks.entries]
  | _ => []

end UnitOp

end UnitPipeline
