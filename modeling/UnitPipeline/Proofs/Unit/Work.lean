import UnitPipeline.Check.Drain
import UnitPipeline.Proofs.Unit.History

namespace UnitPipeline
variable {σ α : Type}

def Desk.withChecks (desk : Desk) (q : CheckQueue) : Desk :=
  { desk with unit := desk.unit.withChecks q }

@[simp] theorem Desk.withChecks_unit (desk : Desk) (q : CheckQueue) :
    (desk.withChecks q).unit = desk.unit.withChecks q := rfl

@[simp] theorem Desk.withChecks_session (desk : Desk) (q : CheckQueue) :
    (desk.withChecks q).session = desk.session := rfl

def tagged (point : CheckPoint) (checks : List DeferredCheck) :
    List (CheckPoint × DeferredCheck) := checks.map (point, ·)

-- A unit at work, with the checks that the drains under way have taken out of
-- its queue and not begun, those of the innermost drain first.
structure Bench where
  held : List (CheckPoint × DeferredCheck)
  desk : Desk

-- All that can happen to a unit at work. Whatever an action or a drain does, at
-- any depth, is a sequence of these.
inductive WorkStep : Bench → List UnitEvent → Bench → Prop where
  | change (op : UnitOp) : WorkStep ⟨held, desk⟩ (op.events desk.session desk.unit)
      ⟨held, { desk with unit := op.apply desk.session desk.unit }⟩
  | enterPhase (phase : Phase) : WorkStep ⟨held, desk⟩ []
      ⟨held, { desk with session := desk.session.enterPhase phase }⟩
  | setTracking (on : Bool) : WorkStep ⟨held, desk⟩ []
      ⟨held, { desk with session := desk.session.setTracking on }⟩
  | take (point : CheckPoint) : WorkStep ⟨held, desk⟩ []
      ⟨tagged point (desk.unit.checks.waiting point) ++ held,
        desk.withChecks (desk.unit.checks.without point)⟩
  | start (point : CheckPoint) (check : DeferredCheck) : WorkStep ⟨(point, check) :: held, desk⟩
      [.started point check desk.session.phase] ⟨held, desk⟩
  | putBack (point : CheckPoint) (rest : List DeferredCheck) :
      WorkStep ⟨tagged point rest ++ held, desk⟩ []
        ⟨held, desk.withChecks (desk.unit.checks.requeue point rest)⟩
  | drained (point : CheckPoint) (ran : Nat) (empty : desk.unit.checks.waiting point = []) :
      WorkStep ⟨held, desk⟩ [.drained desk.unit.display point ran] ⟨held, desk⟩

inductive Work : Bench → List UnitEvent → Bench → Prop where
  | rest : Work b [] b
  | step : WorkStep b now middle → Work middle later next → Work b (now ++ later) next

theorem WorkStep.work (step : WorkStep b events next) : Work b events next := by
  have path := Work.step step .rest
  rwa [List.append_nil] at path

theorem Work.trans (left : Work b now middle) (right : Work middle later next) :
    Work b (now ++ later) next := by
  induction left with
  | rest => exact right
  | step first _ ih =>
    rw [List.append_assoc]
    exact .step first (ih right)

-- A unit through several pieces of work, one after the other. What becomes of
-- the session in between is open.
inductive Course : CompilationUnit → List UnitEvent → CompilationUnit → Prop where
  | rest : Course u [] u
  | turn : Work ⟨[], ⟨before, u⟩⟩ now ⟨[], ⟨after, middle⟩⟩ → Course middle later v →
      Course u (now ++ later) v

def Drain.Works (inner : Drain σ) : Prop :=
  ∀ point state desk out, inner point state desk = some out →
    ∀ held, Work ⟨held, desk⟩ out.events ⟨held, out.desk⟩

theorem action_work {inner : Drain σ} (works : inner.Works) (action : Action σ α)
    (ran : action.run inner desk = some out) (held : List (CheckPoint × DeferredCheck)) :
    Work ⟨held, desk⟩ out.events ⟨held, out.desk⟩ := by
  induction action generalizing desk out with
  | done value =>
    cases Option.some.inj ran
    exact .rest
  | look next ih => exact ih _ _ ran
  | change op next ih =>
    obtain ⟨later, inside, rfl⟩ := Option.map_eq_some_iff.mp ran
    exact .step (.change op) (ih _ inside)
  | enterPhase phase next ih =>
    have entered : WorkStep ⟨held, desk⟩ [] ⟨held, _⟩ := .enterPhase phase
    exact .step entered (ih ran)
  | setTracking on next ih =>
    have switched : WorkStep ⟨held, desk⟩ [] ⟨held, _⟩ := .setTracking on
    exact .step switched (ih ran)
  | drain point runner next ih =>
    obtain ⟨first, drained, more⟩ := Option.bind_eq_some_iff.mp ran
    obtain ⟨later, inside, rfl⟩ := Option.map_eq_some_iff.mp more
    exact (works point runner desk first drained held).trans (ih _ _ inside)

theorem batch_cases {runner : Runner σ} {inner : Drain σ}
    (ran : runBatch runner inner point (check :: rest) state desk = some out) :
    ∃ first, (runner state check).run inner desk = some first ∧
      ((∃ failure next, first.value = (.error failure, next) ∧
          out = ⟨(.error (.checkFailed first.desk.unit.display failure), next),
            first.desk.withChecks (first.desk.unit.checks.requeue point rest),
            .started point check desk.session.phase :: first.events⟩) ∨
        ∃ next more, first.value = (.ok (), next) ∧
          runBatch runner inner point rest next first.desk = some more ∧
          out = ⟨(more.value.1.map (· + 1), more.value.2), more.desk,
            .started point check desk.session.phase :: first.events ++ more.events⟩) := by
  unfold runBatch at ran
  obtain ⟨first, began, settled⟩ := Option.bind_eq_some_iff.mp ran
  refine ⟨first, began, ?_⟩
  rcases verdict : first.value with ⟨failure | ⟨⟩, next⟩
  · simp only [verdict] at settled
    exact Or.inl ⟨failure, next, rfl, (Option.some.inj settled).symm⟩
  · simp only [verdict] at settled
    obtain ⟨more, later, equal⟩ := Option.map_eq_some_iff.mp settled
    exact Or.inr ⟨next, more, rfl, later, equal.symm⟩

theorem drain_cases {runner : Runner σ}
    (ran : drainFrom runner limit count point state desk = some out) :
    ∃ below, limit = below + 1 ∧
      ((desk.unit.checks.waiting point = [] ∧
          out = ⟨(.ok count, state), desk, [.drained desk.unit.display point count]⟩) ∨
        desk.unit.checks.waiting point ≠ [] ∧
        ∃ one, runBatch runner (drainFrom runner below 0) point (desk.unit.checks.waiting point)
            state (desk.withChecks (desk.unit.checks.without point)) = some one ∧
          ((∃ failure next, one.value = (.error failure, next) ∧
              out = ⟨(.error failure, next), one.desk, one.events⟩) ∨
            ∃ more next last, one.value = (.ok more, next) ∧
              drainFrom runner below (count + more) point next one.desk = some last ∧
              out = { last with events := one.events ++ last.events })) := by
  cases limit with
  | zero => cases ran
  | succ below =>
    refine ⟨below, rfl, ?_⟩
    unfold drainFrom at ran
    cases found : desk.unit.checks.waiting point with
    | nil =>
      simp only [found] at ran
      exact Or.inl ⟨rfl, (Option.some.inj ran).symm⟩
    | cons check rest =>
      simp only [found] at ran
      obtain ⟨one, batch, settled⟩ := Option.bind_eq_some_iff.mp ran
      refine Or.inr ⟨List.cons_ne_nil _ _, one, batch, ?_⟩
      rcases verdict : one.value with ⟨failure | more, next⟩
      · simp only [verdict] at settled
        exact Or.inl ⟨failure, next, rfl, (Option.some.inj settled).symm⟩
      · simp only [verdict] at settled
        obtain ⟨last, later, equal⟩ := Option.map_eq_some_iff.mp settled
        exact Or.inr ⟨more, next, last, rfl, later, equal.symm⟩

theorem batch_work {runner : Runner σ} {inner : Drain σ} (works : inner.Works)
    (ran : runBatch runner inner point batch state desk = some out)
    (held : List (CheckPoint × DeferredCheck)) :
    Work ⟨tagged point batch ++ held, desk⟩ out.events ⟨held, out.desk⟩ := by
  induction batch generalizing state desk out with
  | nil =>
    cases Option.some.inj ran
    exact .rest
  | cons check rest ih =>
    obtain ⟨first, began, stopped | passed⟩ := batch_cases ran
    · obtain ⟨failure, next, _, rfl⟩ := stopped
      have body := action_work works _ began (tagged point rest ++ held)
      have back : WorkStep ⟨tagged point rest ++ held, first.desk⟩ [] ⟨held, _⟩ :=
        .putBack point rest
      have path := Work.step (.start point check) (body.trans back.work)
      rwa [List.append_nil] at path
    · obtain ⟨next, more, _, later, rfl⟩ := passed
      have body := action_work works _ began (tagged point rest ++ held)
      have path := Work.step (.start point check) (body.trans (ih later))
      exact path

theorem drainFrom_work (runner : Runner σ) (limit count : Nat) :
    (drainFrom runner limit count).Works := by
  induction limit generalizing count with
  | zero =>
    intro point state desk out ran
    cases ran
  | succ limit ih =>
    intro point state desk out ran held
    obtain ⟨below, same, idle | ⟨_, one, batch, settled⟩⟩ := drain_cases ran
    · obtain ⟨empty, rfl⟩ := idle
      exact (WorkStep.drained point count empty).work
    · cases same
      have body := Work.step (.take point) (batch_work (ih 0) batch held)
      rcases settled with ⟨failure, next, _, rfl⟩ | ⟨more, next, last, _, later, rfl⟩
      · exact body
      · exact body.trans (ih _ point next one.desk last later held)

theorem drain_work (runner : Runner σ) (limit : Nat) : (drain runner limit).Works :=
  drainFrom_work runner limit 0

theorem step_source (step : WorkStep b events next) :
    next.desk.unit.source = b.desk.unit.source := by
  cases step with
  | change op => exact op.apply_source _ _
  | _ => rfl

theorem work_source (work : Work b events next) :
    next.desk.unit.source = b.desk.unit.source := by
  induction work with
  | rest => rfl
  | step first _ ih => exact ih.trans (step_source first)

theorem course_source (course : Course u events v) : v.source = u.source := by
  induction course with
  | rest => rfl
  | turn work _ ih => exact ih.trans (work_source work)

theorem action_display {inner : Drain σ} (works : inner.Works) (action : Action σ α)
    (ran : action.run inner desk = some out) : out.desk.unit.display = desk.unit.display := by
  have same := work_source (action_work works action ran [])
  exact congrArg SourceFile.display same

theorem drainFrom_empties {runner : Runner σ}
    (ran : drainFrom runner limit count point state desk = some out)
    (passed : out.value.1 = .ok total) : out.desk.unit.checks.waiting point = [] := by
  induction limit generalizing count state desk out with
  | zero => cases ran
  | succ limit ih =>
    obtain ⟨below, same, idle | ⟨_, one, batch, settled⟩⟩ := drain_cases ran
    · obtain ⟨empty, rfl⟩ := idle
      exact empty
    · cases same
      rcases settled with ⟨failure, next, _, rfl⟩ | ⟨more, next, last, _, later, rfl⟩
      · cases passed
      · have emptied := ih later passed
        exact emptied

end UnitPipeline
