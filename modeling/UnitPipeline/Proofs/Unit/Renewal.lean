import UnitPipeline.Proofs.Unit.Steps

namespace UnitPipeline
variable {σ α β : Type}

theorem run_bind {inner : Drain σ} {action : Action σ α} {next : α → Action σ β} {desk : Desk} :
    (action.bind next).run inner desk = (action.run inner desk).bind fun first =>
      ((next first.value).run inner first.desk).map fun out =>
        { out with events := first.events ++ out.events } := by
  induction action generalizing desk with
  | done value => simp [Action.bind, Action.run]
  | look step ih => exact ih _ _
  | change op step ih =>
    simp only [Action.bind, Action.run, ih, Option.map_bind, Option.bind_map, Function.comp_def,
      Option.map_map, List.append_assoc]
  | enterPhase phase step ih => exact ih
  | setTracking on step ih => exact ih
  | drain point runner step ih =>
    simp only [Action.bind, Action.run, ih, Option.map_bind, Option.bind_map, Function.comp_def,
      Option.map_map, Option.bind_assoc, List.append_assoc]

theorem CompilationUnit.cleared_eq (u : CompilationUnit) :
    u.cleared = .withFreshNames u.source u.fresh := rfl

theorem clear_rebuilds
    (work : Work ⟨[], ⟨session, .withFreshNames source fresh⟩⟩ events ⟨held, desk⟩) :
    UnitOp.apply desk.session desk.unit .clear = .withFreshNames source desk.unit.fresh := by
  have kept : desk.unit.source = source := work_source work
  rw [← kept]
  exact desk.unit.cleared_eq

-- A desk whose unit a clear makes as good as new. From then on everything goes as on
-- a unit that was just built for the source with the counters of this one; only the
-- history tells them apart, by the checks that were given up.
structure Renewed (source : SourceFile) (desk : Desk) : Prop where
  state : UnitOp.apply desk.session desk.unit .clear = .withFreshNames source desk.unit.fresh
  counters : (UnitOp.apply desk.session desk.unit .clear).fresh = desk.unit.fresh
  future : ∀ {σ α : Type} (inner : Drain σ) (later : Action σ α),
    ((Action.op .clear).bind fun _ => later).run inner desk =
      (later.run inner ⟨desk.session, .withFreshNames source desk.unit.fresh⟩).map fun out =>
        { out with events := .cleared desk.unit.checks.entries :: out.events }

theorem clear_renews
    (work : Work ⟨[], ⟨session, .withFreshNames source fresh⟩⟩ events ⟨held, desk⟩) :
    Renewed source desk := by
  have state := clear_rebuilds work
  refine ⟨state, ?_, ?_⟩
  · rw [state]
    rfl
  · intro σ α inner later
    rw [← state]
    rfl

def busyDesk : Desk :=
  Desk.after ⟨{}, .withFreshNames (.persistent "A.scala" "x") {}⟩
    [.change (.alloc ⟨.block, ⟨0, 1⟩, []⟩), .change (.setBody ⟨0⟩), .change (.memoize ⟨0⟩ ⟨0⟩),
      .setTracking true,
      .change (.registerDependency ⟨⟨3⟩, "B.foo", .method, .persistent "B.scala" ""⟩),
      .change (.rememberFeature ⟨"macros"⟩), .change (.queueCheck .postUnit .syntheticsDrained),
      .change (.freshTerm "x$"), .enterPhase .typer]

theorem busyDesk_renewed : Renewed (.persistent "A.scala" "x") busyDesk ∧
    busyDesk.unit ≠ .withFreshNames (.persistent "A.scala" "x") busyDesk.unit.fresh ∧
    busyDesk.unit.cleared.fresh.nextName "x$" = "x$2" := by
  obtain ⟨events, work⟩ := steps_work _ _ []
  exact ⟨clear_renews work, by decide, by decide⟩

end UnitPipeline
