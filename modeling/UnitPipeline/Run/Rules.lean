import UnitPipeline.Check.Standard
import UnitPipeline.Run.Driver

namespace UnitPipeline

-- Runners and phases given by rules instead of code. Rules hold steps of a type
-- `τ` that the host gives a meaning, and every step has an answer of type `β`.

structure CheckRule (τ : Type) where
  code : String
  steps : List τ := []
  standard : Bool := false
  failure : Option String := none

structure PhaseRule (τ : Type) where
  unit : Option String := none
  steps : List τ := []
  failure : Option String := none

structure Visit (β : Type) where
  tag : β
  unit : String
  sessionPhase : Phase
  answers : List β

structure RuleState (τ β : Type) where
  features : OrderedSet Feature := {}
  rules : List (CheckRule τ) := []
  handled : List (String × List β) := []
  visits : List (Visit β) := []

namespace RuleState
variable {τ β : Type} (perform : τ → Action (RuleState τ β) β)

-- The first rule for the code handles a validation: its steps, then the
-- built-in check if the rule asks for it, then its failure if it has one. All
-- other checks are the built-in ones.
def runner : Runner (RuleState τ β) := fun state check =>
  let builtIn := StandardChecks.handle state.features check
  match check with
  | .validate code _ _ =>
    match state.rules.find? fun rule => rule.code = code with
    | none => builtIn.bind fun result => .done (result, state)
    | some rule =>
      (Action.each perform rule.steps).bind fun answers =>
        let state := { state with handled := state.handled ++ [(code, answers)] }
        (if rule.standard then builtIn else .done (.ok ())).bind fun result =>
          match result, rule.failure with
          | .error failure, _ => .done (.error failure, state)
          | .ok (), some message => .done (.error (.failed code message), state)
          | .ok (), none => .done (.ok (), state)
  | _ => builtIn.bind fun result => .done (result, state)

def follow : List (PhaseRule τ) → List β →
    Action (RuleState τ β) (List β × Except PhaseError Unit)
  | [], answers => .done (answers, .ok ())
  | rule :: later, answers =>
    .look fun _ u =>
      if rule.unit.all (· = u.display) then
        (Action.each perform rule.steps).bind fun more =>
          match rule.failure with
          | some message => .done (answers ++ more, .error ⟨message⟩)
          | none => follow later (answers ++ more)
      else follow later answers

def phase (kind : Phase) (tag : β) (rules : List (PhaseRule τ)) :
    CompilerPhase (RuleState τ β) :=
  ⟨kind, fun state =>
    (follow perform rules []).bind fun out =>
      .look fun session u =>
        .done (out.2, { state with
          visits := state.visits ++ [⟨tag, u.display, session.phase, out.1⟩] })⟩

end RuleState

end UnitPipeline
