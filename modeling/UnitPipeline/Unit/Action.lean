import UnitPipeline.Unit.Operation

namespace UnitPipeline

inductive UnitError
  | checkFailed (unit : String) (failure : CheckFailure)
  deriving DecidableEq, Repr

def UnitError.message : UnitError → String
  | checkFailed unit failure => "deferred check failed in " ++ unit ++ ": " ++ failure.message

-- What phases and check runners do with a unit. They may look at everything,
-- change the unit and the session, and drain a checkpoint of the unit with a
-- runner of their choice, whose state is a value of `σ`.
inductive Action (σ α : Type)
  | done (value : α)
  | look (next : Session → CompilationUnit → Action σ α)
  | change (op : UnitOp) (next : op.Answer → Action σ α)
  | enterPhase (phase : Phase) (next : Action σ α)
  | setTracking (on : Bool) (next : Action σ α)
  | drain (point : CheckPoint) (runner : σ) (next : Except UnitError Nat → σ → Action σ α)

namespace Action

def bind : Action σ α → (α → Action σ β) → Action σ β
  | done value, f => f value
  | look next, f => look fun s u => (next s u).bind f
  | change op next, f => change op fun a => (next a).bind f
  | enterPhase phase next, f => enterPhase phase (next.bind f)
  | setTracking on next, f => setTracking on (next.bind f)
  | drain point runner next, f => drain point runner fun result after => (next result after).bind f

instance : Monad (Action σ) where
  pure := done
  bind := bind

def op (o : UnitOp) : Action σ o.Answer := change o done

def view (f : Session → CompilationUnit → α) : Action σ α := look fun s u => done (f s u)

def each (f : α → Action σ β) : List α → Action σ (List β)
  | [] => done []
  | x :: rest => (f x).bind fun y => (each f rest).bind fun ys => done (y :: ys)

def forAll (f : α → Action σ Unit) : List α → Action σ Unit
  | [] => done ()
  | x :: rest => (f x).bind fun _ => forAll f rest

end Action

structure Desk where
  session : Session
  unit : CompilationUnit
  deriving DecidableEq, Repr

structure Outcome (α : Type) where
  value : α
  desk : Desk
  events : List UnitEvent := []

-- Draining a checkpoint with a runner. There is no outcome for a drain that
-- does not come to an end.
abbrev Drain (σ : Type) :=
  CheckPoint → σ → Desk → Option (Outcome (Except UnitError Nat × σ))

def Action.run (inner : Drain σ) : Action σ α → Desk → Option (Outcome α)
  | done value, desk => some ⟨value, desk, []⟩
  | look next, desk => (next desk.session desk.unit).run inner desk
  | change op next, desk =>
    let after := { desk with unit := op.apply desk.session desk.unit }
    ((next (op.answer desk.session desk.unit)).run inner after).map fun out =>
      { out with events := op.events desk.session desk.unit ++ out.events }
  | enterPhase phase next, desk =>
    next.run inner { desk with session := desk.session.enterPhase phase }
  | setTracking on next, desk =>
    next.run inner { desk with session := desk.session.setTracking on }
  | drain point runner next, desk =>
    (inner point runner desk).bind fun first =>
      ((next first.value.1 first.value.2).run inner first.desk).map fun out =>
        { out with events := first.events ++ out.events }

end UnitPipeline
