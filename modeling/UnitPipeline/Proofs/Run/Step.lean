import UnitPipeline.Proofs.Run.Course
import UnitPipeline.Proofs.Run.Order
import UnitPipeline.Proofs.Unit.Conduct

namespace UnitPipeline
variable {σ : Type} {d : Driver σ}

def Outcome.advance (out : Outcome (α × σ)) (result : Except DriverError Unit) : Advance σ :=
  ⟨result, out.desk.unit, ⟨out.desk.session, out.value.2⟩, out.events⟩

-- All that can come of one phase on one unit: the phase fails, the parser leaves
-- no body, or the phase has passed, and then the typer goes on with its drain.
theorem advance_cases (ran : d.advance limit p shared unit = some one) :
    ∃ out, (p.run shared.state).run (drain d.runner limit) ⟨shared.session, unit⟩ = some out ∧
      ((∃ error, one = out.advance (.error error)) ∨
        out.value.1 = .ok () ∧
        (p.phase ≠ .typer ∧ one = out.advance (.ok ()) ∨
          p.phase = .typer ∧ ∃ last,
            d.drainUnit limit .postTyper ⟨out.desk.session, out.value.2⟩ out.desk.unit = some last ∧
            one = { last with events := out.events ++ last.events })) := by
  unfold Driver.advance at ran
  obtain ⟨out, body, settled⟩ := Option.bind_eq_some_iff.mp ran
  refine ⟨out, body, ?_⟩
  rcases verdict : out.value.1 with cause | ⟨⟩
  · simp only [verdict] at settled
    exact Or.inl ⟨_, (Option.some.inj settled).symm⟩
  · simp only [verdict] at settled
    split at settled
    · exact Or.inl ⟨_, (Option.some.inj settled).symm⟩
    · split at settled
      · rename_i typer
        obtain ⟨error, stopped, _⟩ | ⟨_, last, later, rfl⟩ := andThen_cases settled
        · cases stopped
        · exact Or.inr ⟨rfl, Or.inr ⟨typer, last, later, rfl⟩⟩
      · rename_i other
        exact Or.inr ⟨rfl, Or.inl ⟨other, (Option.some.inj settled).symm⟩⟩

theorem finish_cases (ran : d.finish limit shared unit = some one) :
    ∃ first, d.drainUnit limit .postTyper shared unit = some first ∧
      ((∃ error, first.result = .error error ∧ one = first) ∨
        first.result = .ok () ∧ ∃ last,
          d.drainUnit limit .postUnit first.shared first.unit = some last ∧
          one = { last with events := first.events ++ last.events }) := by
  obtain ⟨first, begun, more⟩ := Option.bind_eq_some_iff.mp ran
  exact ⟨first, begun, andThen_cases more⟩

def Driver.Does (allowed : Deed → Prop) (d : Driver σ) : Prop :=
  d.runner.Does allowed ∧ ∀ p ∈ d.phases, ∀ state, (p.run state).Does allowed

theorem ordered_does (does : d.Does allowed) (known : p ∈ d.ordered) (state : σ) :
    (p.run state).Does allowed := does.2 p ((ordered_perm d).mem_iff.mp known) state

def StepLasts (step : Shared σ → CompilationUnit → Option (Advance σ))
    (law : Desk → List UnitEvent → Desk → Prop) : Prop :=
  ∀ shared unit one, step shared unit = some one →
    law ⟨shared.session, unit⟩ one.events ⟨one.shared.session, one.unit⟩

section
variable {allowed : Deed → Prop} {law : Desk → List UnitEvent → Desk → Prop}

theorem drainUnit_lasts (lasting : LastingDrains allowed law) (does : d.runner.Does allowed)
    (limit : Nat) (point : CheckPoint) : StepLasts (d.drainUnit limit point) law := by
  intro shared unit one ran
  obtain ⟨out, drained, rfl⟩ := Option.map_eq_some_iff.mp ran
  exact drainFrom_obeys lasting does limit 0 point shared.state ⟨shared.session, unit⟩ out drained

theorem advance_lasts (lasting : LastingDrains allowed law) (runner : d.runner.Does allowed)
    (phase : ∀ state, (p.run state).Does allowed) (limit : Nat) :
    StepLasts (d.advance limit p) law := by
  intro shared unit one ran
  obtain ⟨out, body, settled⟩ := advance_cases ran
  have inside := drainFrom_obeys lasting runner limit 0
  have begun := action_obeys lasting.toLasting (fun _ => inside) (phase shared.state) body
  obtain ⟨error, rfl⟩ | ⟨_, ⟨_, rfl⟩ | ⟨_, last, later, rfl⟩⟩ := settled
  · exact begun
  · exact begun
  · exact lasting.trans begun (drainUnit_lasts lasting runner limit .postTyper _ _ last later)

theorem finish_lasts (lasting : LastingDrains allowed law) (does : d.runner.Does allowed)
    (limit : Nat) : StepLasts (d.finish limit) law := by
  intro shared unit one ran
  obtain ⟨first, begun, settled⟩ := finish_cases ran
  have before := drainUnit_lasts lasting does limit .postTyper _ _ first begun
  obtain ⟨error, _, rfl⟩ | ⟨_, last, later, rfl⟩ := settled
  · exact before
  · exact lasting.trans before (drainUnit_lasts lasting does limit .postUnit _ _ last later)

end

end UnitPipeline
