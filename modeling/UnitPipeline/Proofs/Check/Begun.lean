import UnitPipeline.Proofs.Unit.Conduct

namespace UnitPipeline
variable {σ : Type} {runner : Runner σ} {inner : Drain σ}

structure Begun (σ : Type) where
  check : DeferredCheck
  state : σ
  desk : Desk

def batchBegun (runner : Runner σ) (inner : Drain σ) :
    List DeferredCheck → σ → Desk → List (Begun σ)
  | [], _, _ => []
  | check :: rest, state, desk =>
    ⟨check, state, desk⟩ ::
      match (runner state check).run inner desk with
      | some ⟨(.ok (), next), after, _⟩ => batchBegun runner inner rest next after
      | _ => []

-- The checks of a drain that are begun, batch after batch, up to the first that fails.
-- Those of drains inside it do not count.
def drainBegun (runner : Runner σ) : Nat → CheckPoint → σ → Desk → List (Begun σ)
  | 0, _, _, _ => []
  | limit + 1, point, state, desk =>
    let batch := desk.unit.checks.waiting point
    let taken := desk.withChecks (desk.unit.checks.without point)
    batchBegun runner (drain runner limit) batch state taken ++
      match runBatch runner (drain runner limit) point batch state taken with
      | some ⟨(.ok _, next), after, _⟩ => drainBegun runner limit point next after
      | _ => []

theorem batchBegun_passed (ran : (runner state check).run inner desk = some out)
    (passed : out.value = (.ok (), next)) : batchBegun runner inner (check :: rest) state desk =
      ⟨check, state, desk⟩ :: batchBegun runner inner rest next out.desk := by
  obtain ⟨value, after, events⟩ := out
  cases passed
  simp only [batchBegun, ran]

theorem batchBegun_failed (ran : (runner state check).run inner desk = some out)
    (failed : out.value = (.error cause, next)) :
    batchBegun runner inner (check :: rest) state desk = [⟨check, state, desk⟩] := by
  obtain ⟨value, after, events⟩ := out
  cases failed
  simp only [batchBegun, ran]

theorem drainBegun_empty (empty : desk.unit.checks.waiting point = []) (limit : Nat) :
    drainBegun runner limit point state desk = [] := by
  induction limit generalizing desk with
  | zero => rfl
  | succ limit ih =>
    have taken : (desk.withChecks (desk.unit.checks.without point)).unit.checks.waiting point =
        [] := by simp
    simp only [drainBegun, empty, batchBegun, runBatch, List.nil_append, ih taken]

theorem drainBegun_batch
    (batch : runBatch runner (drain runner limit) point (desk.unit.checks.waiting point) state
      (desk.withChecks (desk.unit.checks.without point)) = some one) :
    drainBegun runner (limit + 1) point state desk =
      batchBegun runner (drain runner limit) (desk.unit.checks.waiting point) state
          (desk.withChecks (desk.unit.checks.without point)) ++
        match one.value with
        | (.ok _, next) => drainBegun runner limit point next one.desk
        | (.error _, _) => [] := by
  obtain ⟨⟨failure | more, next⟩, after, events⟩ := one
  · simp only [drainBegun, batch]
  · simp only [drainBegun, batch]

-- A law of drains in terms of the checks that they begin: how a desk, these checks, and
-- the desk afterwards lie to each other. It holds of every drain if it holds of each check.
structure Following (runner : Runner σ) (law : Desk → List (Begun σ) → Desk → Prop) : Prop where
  refl : ∀ desk, law desk [] desk
  trans : ∀ {a b c now later}, law a now b → law b later c → law a (now ++ later) c
  requeue : ∀ desk q, law desk [] (desk.withChecks q)
  check : ∀ inner state check desk out, (runner state check).run inner desk = some out →
    law desk [⟨check, state, desk⟩] out.desk

section
variable {law : Desk → List (Begun σ) → Desk → Prop}

theorem batch_follows (following : Following runner law)
    (ran : runBatch runner inner point batch state desk = some out) :
    law desk (batchBegun runner inner batch state desk) out.desk := by
  induction batch generalizing state desk out with
  | nil =>
    cases Option.some.inj ran
    exact following.refl desk
  | cons check rest ih =>
    obtain ⟨first, began, settled⟩ := batch_cases ran
    have here := following.check inner state check desk first began
    obtain ⟨failure, next, failed, rfl⟩ | ⟨next, more, passed, later, rfl⟩ := settled
    · rw [batchBegun_failed began failed]
      exact following.trans here (following.requeue first.desk _)
    · have onwards : law first.desk _ more.desk := ih later
      rw [batchBegun_passed began passed]
      exact following.trans here onwards

theorem drainFrom_follows (following : Following runner law)
    (ran : drainFrom runner limit count point state desk = some out) :
    law desk (drainBegun runner limit point state desk) out.desk := by
  induction limit generalizing count state desk out with
  | zero => cases ran
  | succ limit ih =>
    obtain ⟨below, same, idle | ⟨_, one, batch, settled⟩⟩ := drain_cases ran
    · obtain ⟨empty, rfl⟩ := idle
      rw [drainBegun_empty empty]
      exact following.refl desk
    · cases same
      have began : runBatch runner (drain runner limit) point _ state _ = some one := batch
      have body := following.trans (following.requeue desk _) (batch_follows following began)
      rw [drainBegun_batch began]
      obtain ⟨failure, next, failed, rfl⟩ | ⟨more, next, last, passed, later, rfl⟩ := settled
      · simpa only [failed, List.nil_append, List.append_nil] using body
      · have onwards : law one.desk _ last.desk := ih later
        simp only [passed]
        exact following.trans body onwards

end

end UnitPipeline
