import UnitPipeline.Proofs.Check.Account
import UnitPipeline.Proofs.Unit.Conduct

namespace UnitPipeline
variable {σ : Type}

theorem drain_gives_nothing {runner : Runner σ} (keeps : runner.Does Deed.Keeping)
    (ran : drain runner limit point state desk = some out) : givenIn out.events = [] :=
  drainFrom_obeys keeping_lasts keeps limit 0 point state desk out ran

-- A drain loses no check and takes none twice, though the checks it runs may
-- queue others and drain any checkpoint again: what waited before and what came
-- has been started, for its own checkpoint, or waits at the end. This says also
-- that nothing is left behind in a batch of a drain inside it.
theorem drain_conserves {runner : Runner σ} (keeps : runner.Does Deed.Keeping)
    (ran : drain runner limit point state desk = some out) :
    (desk.unit.checks.entries ++ queuedIn out.events).Perm
        (startedIn out.events ++ out.desk.unit.checks.entries) ∧
      ∀ total, out.value.1 = .ok total → out.desk.unit.checks.waiting point = [] := by
  refine ⟨?_, fun total passed => drainFrom_empties ran passed⟩
  -- The outermost drain holds nothing when it begins, and nothing when it ends.
  have whole := work_accounted (drain_work runner limit point state desk out ran [])
  simpa only [Accounted, Bench.pending, List.nil_append, drain_gives_nothing keeps ran,
    List.append_nil] using whole

def nesting : Runner Nat := fun seen check =>
  match check with
  | .validate .. =>
    .change (.queueCheck .postTyper .syntheticsDrained) fun _ =>
      .drain .postUnit seen fun _ after => .done (.ok (), after + 1)
  | _ => .done (.error (.failed "nest" "late"), seen)

theorem nesting_keeps : nesting.Does Deed.Keeping := by
  intro seen check
  cases check with
  | validate => exact ⟨nofun, fun _ => ⟨nofun, fun _ _ => True.intro⟩⟩
  | _ => trivial

def nestedDesk : Desk :=
  let source : SourceFile := .persistent "A.scala" ""
  let check (code : String) : DeferredCheck := .validate code none ""
  ⟨{}, (CompilationUnit.new source).withChecks
    ⟨[(.postTyper, check "a"), (.postUnit, .syntheticsDrained), (.postUnit, check "b"),
      (.postTyper, check "c")]⟩⟩

theorem nesting_conserves : ∃ out, drain nesting 4 .postTyper 0 nestedDesk = some out ∧
    (nestedDesk.unit.checks.entries ++ queuedIn out.events).Perm
      (startedIn out.events ++ out.desk.unit.checks.entries) ∧
    startedIn out.events = [(.postTyper, .validate "a" none ""), (.postUnit, .syntheticsDrained),
      (.postTyper, .validate "c" none ""), (.postUnit, .validate "b" none ""),
      (.postTyper, .syntheticsDrained)] ∧
    out.desk.unit.checks.entries =
      [(.postTyper, .syntheticsDrained), (.postTyper, .syntheticsDrained)] := by
  obtain ⟨whole, _⟩ := drain_conserves nesting_keeps
    (rfl : drain nesting 4 .postTyper 0 nestedDesk = some _)
  exact ⟨_, rfl, whole, rfl, rfl⟩

end UnitPipeline
