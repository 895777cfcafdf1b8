import UnitPipeline.Proofs.Unit.Work

namespace UnitPipeline
variable {σ α : Type}

def Drain.Extends (large small : Drain σ) : Prop :=
  ∀ point state desk out, small point state desk = some out → large point state desk = some out

theorem action_extends {small large : Drain σ} (more : large.Extends small) {action : Action σ α}
    (ran : action.run small desk = some out) : action.run large desk = some out := by
  induction action generalizing desk out with
  | done value => exact ran
  | look next ih => exact ih _ _ ran
  | change op next ih =>
    obtain ⟨later, inside, rfl⟩ := Option.map_eq_some_iff.mp ran
    exact Option.map_eq_some_iff.mpr ⟨later, ih _ inside, rfl⟩
  | enterPhase phase next ih => exact ih ran
  | setTracking on next ih => exact ih ran
  | drain point runner next ih =>
    obtain ⟨first, drained, rest⟩ := Option.bind_eq_some_iff.mp ran
    obtain ⟨later, inside, rfl⟩ := Option.map_eq_some_iff.mp rest
    refine Option.bind_eq_some_iff.mpr ⟨first, more _ _ _ _ drained, ?_⟩
    exact Option.map_eq_some_iff.mpr ⟨later, ih _ _ inside, rfl⟩

theorem batch_extends {runner : Runner σ} {small large : Drain σ} (more : large.Extends small)
    (ran : runBatch runner small point batch state desk = some out) :
    runBatch runner large point batch state desk = some out := by
  induction batch generalizing state desk out with
  | nil => exact ran
  | cons check rest ih =>
    obtain ⟨first, began, settled⟩ := batch_cases ran
    unfold runBatch
    rw [action_extends more began]
    obtain ⟨failure, next, verdict, rfl⟩ | ⟨next, last, verdict, later, rfl⟩ := settled
    · simp [verdict, Desk.withChecks, CompilationUnit.withChecks]
    · simp [verdict, ih later]

-- A drain that ends within some number of batches ends in the same way if it is
-- given more.
theorem drainFrom_extends {runner : Runner σ} (within : limit ≤ larger) (count : Nat) :
    (drainFrom runner larger count).Extends (drainFrom runner limit count) := by
  induction limit generalizing larger count with
  | zero =>
    intro point state desk out ran
    cases ran
  | succ limit ih =>
    intro point state desk out ran
    cases larger with
    | zero => cases within
    | succ larger =>
      have fewer := Nat.le_of_succ_le_succ within
      obtain ⟨below, same, idle | ⟨waits, one, batch, settled⟩⟩ := drain_cases ran
      · obtain ⟨empty, rfl⟩ := idle
        simp [drainFrom, empty]
      · cases same
        have begun := batch_extends (ih fewer 0) batch
        unfold drainFrom
        cases found : desk.unit.checks.waiting point with
        | nil => exact absurd found waits
        | cons check rest =>
          rw [found] at begun
          refine Option.bind_eq_some_iff.mpr ⟨one, begun, ?_⟩
          obtain ⟨failure, next, verdict, rfl⟩ | ⟨more, next, last, verdict, later, rfl⟩ := settled
          · simp [verdict]
          · simp [verdict, ih fewer _ _ _ _ _ later]

theorem drain_extends {runner : Runner σ} (within : limit ≤ larger) :
    (drain runner larger).Extends (drain runner limit) := drainFrom_extends within 0

end UnitPipeline
