import UnitPipeline.Proofs.Unit.Work

namespace UnitPipeline
variable {σ : Type} {runner : Runner σ}

-- A drain on its way to the first of its checks that fails. The list holds what is
-- left of its batch; once that is used up, the checks that wait by then come next.
inductive FirstFailure (runner : Runner σ) (point : CheckPoint) (failure : CheckFailure) :
    List DeferredCheck → σ → Desk → Prop where
  | here (began : (runner state check).run (drain runner below) desk = some out)
      (failed : out.value.1 = .error failure) :
      FirstFailure runner point failure (check :: rest) state desk
  | later (began : (runner state check).run (drain runner below) desk = some out)
      (passed : out.value = (.ok (), next))
      (onwards : FirstFailure runner point failure rest next out.desk) :
      FirstFailure runner point failure (check :: rest) state desk
  | take (onwards : FirstFailure runner point failure (desk.unit.checks.waiting point) state
        (desk.withChecks (desk.unit.checks.without point))) :
      FirstFailure runner point failure [] state desk

theorem batch_first_failure
    (ran : runBatch runner (drain runner below) point batch state desk = some out)
    (stopped : out.value.1 = .error error) : ∃ failure,
      error = .checkFailed desk.unit.display failure ∧
        FirstFailure runner point failure batch state desk := by
  induction batch generalizing state desk out with
  | nil =>
    cases Option.some.inj ran
    cases stopped
  | cons check rest ih =>
    obtain ⟨first, began, settled⟩ := batch_cases ran
    have named := action_display (drain_work runner below) _ began
    obtain ⟨failure, next, failed, rfl⟩ | ⟨next, more, passed, later, rfl⟩ := settled
    · refine ⟨failure, ?_, .here began (congrArg Prod.fst failed)⟩
      rw [← named]
      exact (Except.error.inj stopped).symm
    · rcases verdict : more.value.1 with cause | count
      · simp only [verdict] at stopped
        cases stopped
        obtain ⟨failure, same, onwards⟩ := ih later verdict
        rw [named] at same
        exact ⟨failure, same, .later began passed onwards⟩
      · simp only [verdict] at stopped
        cases stopped

theorem batch_hands_on {failure : CheckFailure}
    (ran : runBatch runner (drain runner below) point batch state desk = some out)
    (passed : out.value = (.ok more, next))
    (onwards : FirstFailure runner point failure [] next out.desk) :
    FirstFailure runner point failure batch state desk := by
  induction batch generalizing state desk out more with
  | nil =>
    cases Option.some.inj ran
    cases passed
    exact onwards
  | cons check rest ih =>
    obtain ⟨first, began, settled⟩ := batch_cases ran
    obtain ⟨failure, _, _, rfl⟩ | ⟨middle, others, here, later, rfl⟩ := settled
    · cases passed
    · obtain ⟨verdict, memory⟩ := Prod.mk.inj passed
      rcases ended : others.value.1 with cause | count
      · simp only [ended] at verdict
        cases verdict
      · exact .later began here (ih later (Prod.ext ended memory) onwards)

theorem drainFrom_first_failure
    (ran : drainFrom runner limit count point state desk = some out)
    (stopped : out.value.1 = .error error) : ∃ failure,
      error = .checkFailed desk.unit.display failure ∧
        FirstFailure runner point failure [] state desk := by
  induction limit generalizing count state desk out with
  | zero => cases ran
  | succ limit ih =>
    obtain ⟨below, same, idle | ⟨_, one, batch, settled⟩⟩ := drain_cases ran
    · obtain ⟨_, rfl⟩ := idle
      cases stopped
    · cases same
      rcases settled with ⟨cause, next, failed, rfl⟩ | ⟨more, next, last, passed, later, rfl⟩
      · have here : one.value.1 = .error error := (congrArg Prod.fst failed).trans stopped
        obtain ⟨failure, named, first⟩ := batch_first_failure batch here
        exact ⟨failure, named, .take first⟩
      · obtain ⟨failure, named, onwards⟩ := ih later stopped
        have kept : one.desk.unit.source = desk.unit.source :=
          work_source (batch_work (drainFrom_work runner limit 0) batch [])
        refine ⟨failure, ?_, .take (batch_hands_on batch passed onwards)⟩
        rw [named, CompilationUnit.display, kept]
        rfl

end UnitPipeline
