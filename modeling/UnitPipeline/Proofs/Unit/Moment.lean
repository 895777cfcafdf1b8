import UnitPipeline.Proofs.Unit.Conduct

namespace UnitPipeline
variable {σ α : Type}

-- The session is in a phase at every moment of an action: before each of its
-- steps, at its end, and in the drains inside it, of which `inside` says so.
def Action.During (phase : Phase) (inner : Drain σ) (inside : CheckPoint → σ → Desk → Prop) :
    Action σ α → Desk → Prop
  | .done _, desk => desk.session.phase = phase
  | .look next, desk => desk.session.phase = phase ∧
      (next desk.session desk.unit).During phase inner inside desk
  | .change op next, desk => desk.session.phase = phase ∧
      (next (op.answer desk.session desk.unit)).During phase inner inside
        { desk with unit := op.apply desk.session desk.unit }
  | .enterPhase other next, desk => desk.session.phase = phase ∧
      next.During phase inner inside { desk with session := desk.session.enterPhase other }
  | .setTracking on next, desk => desk.session.phase = phase ∧
      next.During phase inner inside { desk with session := desk.session.setTracking on }
  | .drain point runner next, desk => desk.session.phase = phase ∧ inside point runner desk ∧
      ∀ first, inner point runner desk = some first →
        (next first.value.1 first.value.2).During phase inner inside first.desk

def BatchDuring (phase : Phase) (runner : Runner σ) (inner : Drain σ)
    (inside : CheckPoint → σ → Desk → Prop) : List DeferredCheck → σ → Desk → Prop
  | [], _, desk => desk.session.phase = phase
  | check :: rest, state, desk => (runner state check).During phase inner inside desk ∧
      ∀ first next, (runner state check).run inner desk = some first → first.value = (.ok (), next) →
        BatchDuring phase runner inner inside rest next first.desk

def DrainDuring (phase : Phase) (runner : Runner σ) : Nat → CheckPoint → σ → Desk → Prop
  | 0, _, _, desk => desk.session.phase = phase
  | limit + 1, point, state, desk => desk.session.phase = phase ∧
      let batch := desk.unit.checks.waiting point
      let taken := desk.withChecks (desk.unit.checks.without point)
      BatchDuring phase runner (drain runner limit) (DrainDuring phase runner limit) batch state
          taken ∧
        ∀ one more next, runBatch runner (drain runner limit) point batch state taken = some one →
          one.value = (.ok more, next) → batch ≠ [] →
          DrainDuring phase runner limit point next one.desk

theorem action_during {inner : Drain σ} {inside : CheckPoint → σ → Desk → Prop}
    (calm : inner.Obeys SamePhase)
    (within : ∀ point state desk, desk.session.phase = phase → inside point state desk)
    {action : Action σ α} (stays : action.Does Deed.Staying) (here : desk.session.phase = phase) :
    action.During phase inner inside desk := by
  induction action generalizing desk with
  | done value => exact here
  | look next ih => exact ⟨here, ih _ _ (stays _ _) here⟩
  | change op next ih => exact ⟨here, ih _ (stays.2 _) here⟩
  | enterPhase other next ih => exact absurd rfl (stays.1 other)
  | setTracking on next ih => exact ⟨here, ih stays.2 here⟩
  | drain point runner next ih =>
    refine ⟨here, within point runner desk here, ?_⟩
    intro first ran
    have same : first.desk.session.phase = desk.session.phase := calm point runner desk first ran
    exact ih _ _ (stays.2 _ _) (same.trans here)

theorem batch_during {runner : Runner σ} {inner : Drain σ} {inside : CheckPoint → σ → Desk → Prop}
    (calm : inner.Obeys SamePhase)
    (within : ∀ point state desk, desk.session.phase = phase → inside point state desk)
    (stays : runner.Does Deed.Staying) (here : desk.session.phase = phase) :
    BatchDuring phase runner inner inside batch state desk := by
  induction batch generalizing state desk with
  | nil => exact here
  | cons check rest ih =>
    refine ⟨action_during calm within (stays state check) here, ?_⟩
    intro first next ran _
    have same : first.desk.session.phase = desk.session.phase :=
      action_obeys staying_lasts.toLasting (fun _ => calm) (stays state check) ran
    exact ih (same.trans here)

theorem drain_during {runner : Runner σ} (stays : runner.Does Deed.Staying)
    (here : desk.session.phase = phase) : DrainDuring phase runner limit point state desk := by
  induction limit generalizing point state desk with
  | zero => exact here
  | succ limit ih =>
    have calm : (drain runner limit).Obeys SamePhase := drainFrom_obeys staying_lasts stays limit 0
    refine ⟨here, batch_during calm (fun _ _ _ now => ih now) stays here, ?_⟩
    intro one more next ran _ _
    have same := batch_obeys staying_lasts stays calm ran
    exact ih (same.trans here)

end UnitPipeline
