import UnitPipeline.Proofs.Check.ClosedForm
import UnitPipeline.Proofs.Unit.Steps

namespace UnitPipeline
variable {β : Type} {limit : Nat} {desk middle : Desk}

inductive Job
  | step (step : Step)
  | drain (point : CheckPoint) (enabled : OrderedSet Feature)

-- A drain that fails leaves a desk like any other. The job after it goes on from there.
def Job.run (limit : Nat) (desk : Desk) : Job → Option Desk
  | step s => some (s.apply desk)
  | drain point enabled =>
    (UnitPipeline.drain StandardChecks.runner limit point enabled desk).map (·.desk)

def Desk.through (limit : Nat) (desk : Desk) (jobs : List Job) : Option Desk :=
  jobs.foldlM (Job.run limit) desk

def gathered (limit : Nat) (tell : Desk → Job → List β) : Desk → List Job → List β
  | _, [] => []
  | desk, job :: rest =>
    tell desk job ++
      ((job.run limit desk).map fun after => gathered limit tell after rest).getD []

variable {job : Job}

theorem through_cons (first : job.run limit desk = some middle) :
    desk.through limit (job :: rest) = middle.through limit rest := by
  simp [Desk.through, first]

theorem gathered_cons {tell : Desk → Job → List β} (first : job.run limit desk = some middle) :
    gathered limit tell desk (job :: rest) = tell desk job ++ gathered limit tell middle rest := by
  simp [gathered, first]

theorem Job.run_drain (enough : 2 ≤ limit) (desk : Desk) (point : CheckPoint)
    (enabled : OrderedSet Feature) : (Job.drain point enabled).run limit desk =
      some (StandardChecks.settled enabled point desk).desk := by
  have twice := StandardChecks.drain_settles enabled point desk
  simp [Job.run, drain_extends enough _ _ _ _ twice]

theorem Job.ends (enough : 2 ≤ limit) (desk : Desk) (job : Job) :
    ∃ after, job.run limit desk = some after := by
  cases job with
  | step s => exact ⟨_, rfl⟩
  | drain point enabled => exact ⟨_, run_drain enough desk point enabled⟩

theorem jobs_end (enough : 2 ≤ limit) (jobs : List Job) (desk : Desk) :
    ∃ last, desk.through limit jobs = some last := by
  induction jobs generalizing desk with
  | nil => exact ⟨desk, rfl⟩
  | cons job rest ih =>
    obtain ⟨middle, first⟩ := job.ends enough desk
    rw [through_cons first]
    exact ih middle

end UnitPipeline
