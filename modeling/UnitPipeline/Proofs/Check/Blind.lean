import UnitPipeline.Check.Standard
import UnitPipeline.Proofs.Unit.Work

namespace UnitPipeline
variable {σ α β : Type}

-- An action that neither drains nor clears its unit, and whose course does not
-- depend on the queue. It may queue checks and change all else.
def Action.Blind : Action σ α → Prop
  | .done _ => True
  | .look next => (∀ s u, (next s u).Blind) ∧ ∀ s u q, next s (u.withChecks q) = next s u
  | .change op next => op ≠ .clear ∧ ∀ answer, (next answer).Blind
  | .enterPhase _ next => next.Blind
  | .setTracking _ next => next.Blind
  | .drain .. => False

def Runner.Blind (runner : Runner σ) : Prop := ∀ state check, (runner state check).Blind

-- On any other queue, and whatever drains would do, a blind action takes the
-- same course. All it does to the queue is to append what its history says.
theorem blind_run {inner : Drain σ} {action : Action σ α} (blind : action.Blind)
    (ran : action.run inner desk = some out) :
    out.desk.unit.checks.entries = desk.unit.checks.entries ++ queuedIn out.events ∧
      startedIn out.events = [] ∧
      ∀ (other : Drain σ) (q : CheckQueue), action.run other (desk.withChecks q) =
        some ⟨out.value, out.desk.withChecks ⟨q.entries ++ queuedIn out.events⟩, out.events⟩ := by
  induction action generalizing desk out with
  | done value =>
    cases Option.some.inj ran
    refine ⟨(List.append_nil _).symm, rfl, ?_⟩
    intro other q
    simp [Action.run, queuedIn]
  | look next ih =>
    obtain ⟨grown, none, same⟩ := ih _ _ (blind.1 _ _) ran
    refine ⟨grown, none, ?_⟩
    intro other q
    have turn : next desk.session (desk.withChecks q).unit = next desk.session desk.unit :=
      blind.2 _ _ _
    simpa only [Action.run, Desk.withChecks_session, turn] using same other q
  | change op next ih =>
    obtain ⟨later, inside, rfl⟩ := Option.map_eq_some_iff.mp ran
    obtain ⟨keeps, blindly⟩ := blind
    obtain ⟨grown, none, same⟩ := ih _ (blindly _) inside
    obtain ⟨queued, started, _⟩ := op.events_account desk.session desk.unit
    have here := op.apply_checks desk.session desk.unit keeps
    refine ⟨?_, ?_, ?_⟩
    · simp only [queuedIn_append, queued, ← List.append_assoc]
      rw [← here]
      exact grown
    · simp only [startedIn_append, started, none, List.append_nil]
    · intro other q
      have after := op.apply_withChecks desk.session desk.unit q keeps
      have answered := op.answer_withChecks desk.session desk.unit q
      have noted := op.events_withChecks desk.session desk.unit q keeps
      have inside := same other ⟨q.entries ++ op.queues⟩
      change ((next (op.answer desk.session (desk.unit.withChecks q))).run other
        ⟨desk.session, op.apply desk.session (desk.unit.withChecks q)⟩).map _ = _
      rw [answered, after]
      change Action.run other _ ⟨desk.session, _⟩ = _ at inside
      rw [inside]
      simp [noted, queued]
  | enterPhase phase next ih => exact ih blind ran
  | setTracking on next ih => exact ih blind ran
  | drain point runner next ih => exact blind.elim

theorem blind_any {inner : Drain σ} {action : Action σ α} (blind : action.Blind)
    (ran : action.run inner desk = some out) (other : Drain σ) :
    action.run other desk = some out := by
  obtain ⟨grown, _, same⟩ := blind_run blind ran
  have again := same other desk.unit.checks
  rw [← grown] at again
  exact again

theorem blind_ends (inner : Drain σ) {action : Action σ α} (blind : action.Blind) (desk : Desk) :
    ∃ out, action.run inner desk = some out := by
  induction action generalizing desk with
  | done value => exact ⟨_, rfl⟩
  | look next ih => exact ih _ _ (blind.1 _ _) desk
  | change op next ih =>
    obtain ⟨later, inside⟩ := ih (op.answer desk.session desk.unit) (blind.2 _)
      { desk with unit := op.apply desk.session desk.unit }
    refine ⟨{ later with events := op.events desk.session desk.unit ++ later.events }, ?_⟩
    simp only [Action.run, inside, Option.map_some]
  | enterPhase phase next ih => exact ih blind _
  | setTracking on next ih => exact ih blind _
  | drain point runner next ih => exact blind.elim

end UnitPipeline
