import UnitPipeline.Proofs.Name.Collision
import UnitPipeline.Proofs.Unit.Steps

namespace UnitPipeline
variable {β : Type}

namespace Step

-- The stem of a mint, and of one that asks the guard. A raw mint goes past it.
def stem? : Step → Option String
  | change op => op.stem?
  | enterPhase _ | setTracking _ => none

def guarded? : Step → Option String
  | change (.freshTerm stem) | change (.freshType stem) => some stem
  | _ => none

def phase (active : Phase) : Step → Phase
  | enterPhase phase => phase
  | change _ | setTracking _ => active

def names (desk : Desk) : Step → List String
  | change op => (op.minted? desk.session desk.unit).toList
  | enterPhase _ | setTracking _ => []

def log (desk : Desk) : Step → List LogEntry
  | change op => (op.events desk.session desk.unit).filterMap UnitEvent.logged
  | enterPhase _ | setTracking _ => []

end Step

def Desk.gather (give : Desk → Step → List β) (desk : Desk) : List Step → List β
  | [] => []
  | step :: rest => give desk step ++ (step.apply desk).gather give rest

def Desk.names (desk : Desk) (steps : List Step) : List String := desk.gather Step.names steps

def Desk.log (desk : Desk) (steps : List Step) : List LogEntry := desk.gather Step.log steps

def phased (active : Phase) : List Step → List (Phase × Step)
  | [] => []
  | step :: rest => (active, step) :: phased (step.phase active) rest

def offence? (met : Phase × Step) : Option String :=
  if met.1 = .typer then met.2.guarded? else none

def guardWarning (unit stem : String) : LogEntry :=
  ⟨.warn, "unit-scoped fresh name created during typer; use a typer-local name creator",
    [("unit", unit), ("prefix", stem), ("phase", "typer")]⟩

def LogEntry.warns (entry : LogEntry) : Bool := entry.level = .warn

def Desk.withGuard (desk : Desk) (guard : Bool) : Desk :=
  { desk with session.freshNameGuard := guard }

theorem Step.apply_guard (desk : Desk) (step : Step) :
    (step.apply desk).session.freshNameGuard = desk.session.freshNameGuard := by
  cases step <;> rfl

theorem Step.apply_phase (desk : Desk) (step : Step) :
    (step.apply desk).session.phase = step.phase desk.session.phase := by
  cases step <;> rfl

theorem Step.names_eq (desk : Desk) (step : Step) :
    step.names desk = desk.unit.fresh.handOut step.stem?.toList := by
  cases step with
  | change op =>
    rw [names, stem?, op.minted_eq]
    cases op.stem? <;> rfl
  | enterPhase phase => rfl
  | setTracking on => rfl

theorem Step.apply_fresh (desk : Desk) (step : Step) :
    (step.apply desk).unit.fresh = desk.unit.fresh.after step.stem?.toList := by
  cases step with
  | change op => exact op.apply_fresh desk.session desk.unit
  | enterPhase phase => rfl
  | setTracking on => rfl

theorem names_handOut (desk : Desk) (steps : List Step) :
    desk.names steps = desk.unit.fresh.handOut (steps.filterMap Step.stem?) := by
  induction steps generalizing desk with
  | nil => rfl
  | cons step rest ih =>
    have later := ih (step.apply desk)
    rw [step.apply_fresh] at later
    rw [Desk.names, Desk.gather, step.names_eq, ← Desk.names, later, ← handOut_append,
      List.filterMap_cons]
    cases step.stem? <;> rfl

theorem after_fresh (desk : Desk) (steps : List Step) :
    (desk.after steps).unit.fresh = desk.unit.fresh.after (steps.filterMap Step.stem?) := by
  induction steps generalizing desk with
  | nil => rfl
  | cons step rest ih =>
    refine (ih (step.apply desk)).trans ?_
    rw [step.apply_fresh, List.filterMap_cons]
    cases step.stem? <;> rfl

theorem handOut_counts {a b : FreshNames} (same : ∀ stem, a.count stem = b.count stem)
    (stems : List String) : a.handOut stems = b.handOut stems ∧
      ∀ stem, (a.after stems).count stem = (b.after stems).count stem := by
  induction stems generalizing a b with
  | nil => exact ⟨rfl, same⟩
  | cons first rest ih =>
    have next : ∀ stem, (a.advance first).count stem = (b.advance first).count stem := by
      intro stem
      rw [FreshNames.count_advance, FreshNames.count_advance, same first, same stem]
    obtain ⟨names, counts⟩ := ih next
    refine ⟨?_, counts⟩
    rw [FreshNames.handOut, FreshNames.handOut, names, FreshNames.nextName, FreshNames.nextName,
      same first]

theorem op_warns (s : Session) (u : CompilationUnit) (op : UnitOp) :
    ((op.events s u).filterMap UnitEvent.logged).filter LogEntry.warns =
      if s.guardsFreshNames then ((Step.change op).guarded?.map (guardWarning u.display)).toList
      else [] := by
  cases op with
  | freshTerm stem | freshType stem =>
    simp only [UnitOp.events]
    cases s.guardsFreshNames <;> rfl
  | registerDependency target =>
    simp only [UnitOp.events, Step.guarded?]
    split <;> simp [UnitEvent.logged, LogEntry.warns]
  | _ => simp [UnitOp.events, UnitEvent.logged, Step.guarded?]

theorem Step.log_warns (desk : Desk) (step : Step) : (step.log desk).filter LogEntry.warns =
    if desk.session.freshNameGuard then
      ((offence? (desk.session.phase, step)).map (guardWarning desk.unit.display)).toList
    else [] := by
  cases step with
  | change op =>
    rw [log, op_warns]
    unfold Session.guardsFreshNames offence?
    cases desk.session.freshNameGuard with
    | false => rfl
    | true => by_cases typer : desk.session.phase = .typer <;> simp [typer]
  | enterPhase phase | setTracking on => simp [log, offence?, guarded?]

theorem log_warns (desk : Desk) (steps : List Step) : (desk.log steps).filter LogEntry.warns =
    if desk.session.freshNameGuard then
      ((phased desk.session.phase steps).filterMap offence?).map (guardWarning desk.unit.display)
    else [] := by
  induction steps generalizing desk with
  | nil => exact (ite_self []).symm
  | cons step rest ih =>
    have display : (step.apply desk).unit.display = desk.unit.display :=
      congrArg SourceFile.display (step.apply_source desk)
    have later := ih (step.apply desk)
    rw [step.apply_guard, step.apply_phase, display] at later
    rw [Desk.log, Desk.gather, List.filter_append, step.log_warns, ← Desk.log, later, phased,
      List.filterMap_cons]
    cases desk.session.freshNameGuard with
    | false => rfl
    | true => cases offence? (desk.session.phase, step) <;> rfl

theorem Step.apply_withGuard (desk : Desk) (guard : Bool) (step : Step) :
    step.apply (desk.withGuard guard) = (step.apply desk).withGuard guard := by
  cases step with
  | change op => cases op <;> rfl
  | enterPhase phase => rfl
  | setTracking on => rfl

theorem after_withGuard (desk : Desk) (guard : Bool) (steps : List Step) :
    (desk.withGuard guard).after steps = (desk.after steps).withGuard guard := by
  induction steps generalizing desk with
  | nil => rfl
  | cons step rest ih =>
    rw [Desk.after, List.foldl_cons, step.apply_withGuard, ← Desk.after]
    exact ih (step.apply desk)

theorem Step.log_withGuard (desk : Desk) (guard : Bool) (step : Step) :
    (step.log (desk.withGuard guard)).filter (!LogEntry.warns ·) =
      (step.log desk).filter (!LogEntry.warns ·) := by
  cases step with
  | change op =>
    cases op with
    | freshTerm stem | freshType stem =>
      simp only [log, UnitOp.events]
      split <;> split <;> rfl
    | _ => rfl
  | enterPhase phase => rfl
  | setTracking on => rfl

theorem log_withGuard (desk : Desk) (guard : Bool) (steps : List Step) :
    ((desk.withGuard guard).log steps).filter (!LogEntry.warns ·) =
      (desk.log steps).filter (!LogEntry.warns ·) := by
  induction steps generalizing desk with
  | nil => rfl
  | cons step rest ih =>
    have later := ih (step.apply desk)
    rw [Desk.log, Desk.log] at later ⊢
    rw [Desk.gather, Desk.gather, List.filter_append, List.filter_append, step.log_withGuard,
      step.apply_withGuard, later]

-- For all that is done to a unit and its session. The warnings are for the guarded mints
-- that met the typer, and nothing but the warnings is due to the guard. The names and the
-- counts are those of any run with the same mints, in whatever phases, with whatever guard
-- and with whatever else it does.
theorem guard_only_warns (desk : Desk) (steps : List Step) :
    (desk.log steps).filter LogEntry.warns =
        (if desk.session.freshNameGuard then
          ((phased desk.session.phase steps).filterMap offence?).map (guardWarning desk.unit.display)
        else []) ∧
      (∀ guard, (desk.withGuard guard).names steps = desk.names steps ∧
        (desk.withGuard guard).after steps = (desk.after steps).withGuard guard ∧
        ((desk.withGuard guard).log steps).filter (!LogEntry.warns ·) =
          (desk.log steps).filter (!LogEntry.warns ·)) ∧
      ∀ (other : Desk) (others : List Step),
        (∀ stem, other.unit.fresh.count stem = desk.unit.fresh.count stem) →
        others.filterMap Step.stem? = steps.filterMap Step.stem? →
        other.names others = desk.names steps ∧
          ∀ stem, (other.after others).unit.fresh.count stem =
            (desk.after steps).unit.fresh.count stem := by
  refine ⟨log_warns desk steps, ?_, ?_⟩
  · intro guard
    refine ⟨?_, after_withGuard desk guard steps, log_withGuard desk guard steps⟩
    rw [names_handOut, names_handOut]
    rfl
  · intro other others counts stems
    rw [names_handOut, names_handOut, after_fresh, after_fresh, stems]
    exact handOut_counts counts _

def aroundTyper : List Step :=
  [.change (.freshTerm "x"), .enterPhase .typer, .change (.rawName "x"), .change (.freshType "x"),
    .change .clear, .change (.freshTerm "y"), .enterPhase .backend, .change (.freshTerm "y")]

def byThemselves : List Step :=
  [.change (.freshTerm "x"), .change (.rawName "x"), .change (.freshType "x"),
    .change (.freshTerm "y"), .change (.freshTerm "y")]

def unguarded : Session := .ofSettings { freshNameGuard := false }

theorem aroundTyper_warns :
    let desk : Desk := ⟨.global, .new (.persistent "a" "")⟩
    let other : Desk := ⟨unguarded, .new .absent⟩
    (∀ stem, other.unit.fresh.count stem = desk.unit.fresh.count stem) ∧
      byThemselves.filterMap Step.stem? = aroundTyper.filterMap Step.stem? ∧
      (desk.log aroundTyper).filter LogEntry.warns = [guardWarning "a" "x", guardWarning "a" "y"] ∧
      other.names byThemselves = desk.names aroundTyper ∧
      desk.names aroundTyper = ["x1", "x2", "x3", "y1", "y2"] := by
  intro desk other
  have counts : ∀ stem, other.unit.fresh.count stem = desk.unit.fresh.count stem := fun _ => rfl
  have stems : byThemselves.filterMap Step.stem? = aroundTyper.filterMap Step.stem? := rfl
  obtain ⟨warnings, _, runs⟩ := guard_only_warns desk aroundTyper
  exact ⟨counts, stems, warnings.trans rfl, (runs other byThemselves counts stems).1,
    by decide +kernel⟩

end UnitPipeline
