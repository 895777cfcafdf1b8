import UnitPipeline.Proofs.Unit.Work

namespace UnitPipeline

inductive Step
  | change (op : UnitOp)
  | enterPhase (phase : Phase)
  | setTracking (on : Bool)

def Step.apply (desk : Desk) : Step → Desk
  | change op => { desk with unit := op.apply desk.session desk.unit }
  | enterPhase phase => { desk with session := desk.session.enterPhase phase }
  | setTracking on => { desk with session := desk.session.setTracking on }

def Desk.after (desk : Desk) (steps : List Step) : Desk := steps.foldl Step.apply desk

theorem Step.apply_source (desk : Desk) (step : Step) :
    (step.apply desk).unit.source = desk.unit.source := by
  cases step with
  | change op => exact op.apply_source desk.session desk.unit
  | enterPhase phase => rfl
  | setTracking on => rfl

theorem steps_work (steps : List Step) (desk : Desk) (held : List (CheckPoint × DeferredCheck)) :
    ∃ events, Work ⟨held, desk⟩ events ⟨held, desk.after steps⟩ := by
  induction steps generalizing desk with
  | nil => exact ⟨[], .rest⟩
  | cons step rest ih =>
    obtain ⟨later, work⟩ := ih (step.apply desk)
    cases step with
    | change op => exact ⟨_, .step (.change op) work⟩
    | enterPhase phase => exact ⟨_, .step (.enterPhase phase) work⟩
    | setTracking on => exact ⟨_, .step (.setTracking on) work⟩

def Step.flag (on : Bool) : Step → Bool
  | setTracking now => now
  | change _ | enterPhase _ => on

theorem Step.apply_flag (desk : Desk) (step : Step) :
    (step.apply desk).session.tracksDependencies = step.flag desk.session.tracksDependencies := by
  cases step <;> rfl

-- What a change does to the tracker. It reads nothing else of the unit but its source.
def UnitOp.registers (s : Session) (source : SourceFile) (tracker : DependencyTracker) :
    UnitOp → DependencyTracker
  | registerDependency target => tracker.registerDependency s source target
  | registerDefinition decl => tracker.registerDefinition source decl
  | clear => {}
  | _ => tracker

theorem UnitOp.apply_deps (s : Session) (u : CompilationUnit) (op : UnitOp) :
    (op.apply s u).deps = op.registers s u.source u.deps := by
  cases op with
  | memoizeOnce node result =>
    simp only [apply]
    split <;> rfl
  | _ => rfl

end UnitPipeline
