import UnitPipeline.Proofs.Run.Passage
import UnitPipeline.Proofs.Run.Step
import UnitPipeline.Proofs.Unit.Edgeless
import UnitPipeline.Proofs.Unit.Ends

namespace UnitPipeline
variable {σ : Type} {d : Driver σ}

-- What each stage makes of what the stage before it has made of a unit is true in the
-- end of every unit that comes through. `shape` is what a stage asks of the session, and
-- a later stage may ask for less.
theorem rounds_carry (good : Nat → Seat → Prop) (shape : Nat → Shared σ → Prop)
    {done : Seat → Prop} (going : Rounds d limit stage phases live shared rounds survivors after)
    (begun : ∀ seat ∈ live, good stage seat) (start : shape stage shared)
    (enters : ∀ k now phase, shape k now → shape k (now.entering phase))
    (keeps : ∀ k p, phases[k]? = some p → ∀ now unit one, shape (stage + k) now →
      d.advance limit p now unit = some one → shape (stage + k) one.shared)
    (eases : ∀ k now, shape k now → shape (k + 1) now)
    (steps : ∀ k p, phases[k]? = some p → ∀ now slot unit one, shape (stage + k) now →
      good (stage + k) ⟨slot, unit⟩ → d.advance limit p now unit = some one →
      one.result = .ok () → good (stage + k + 1) ⟨slot, one.unit⟩)
    (ends : ∀ now slot unit one, good (stage + phases.length) ⟨slot, unit⟩ →
      d.finish limit now unit = some one → one.result = .ok () → done ⟨slot, one.unit⟩) :
    ∀ seat ∈ survivors, done seat := by
  induction going with
  | last stage made turns =>
    intro seat inside
    obtain ⟨t, among, passed, rfl⟩ := survivor_turn inside
    exact ends t.found t.seat.slot t.seat.unit t.one (begun _ (turns.seat_mem among))
      (turns.took t among) passed
  | next stage p made turns later ih =>
    obtain ⟨found, middle⟩ := turns.keeps (shape stage) (keeps 0 p rfl) (enters _ _ _ start)
    refine ih ?_ (eases _ _ middle) ?_ ?_ ?_
    · intro seat inside
      obtain ⟨t, among, passed, rfl⟩ := survivor_turn inside
      exact steps 0 p rfl t.found t.seat.slot t.seat.unit t.one (found t among)
        (begun _ (turns.seat_mem among)) (turns.took t among) passed
    · intro k q known
      have here := keeps (k + 1) q known
      rwa [← Nat.succ_add_eq_add_succ] at here
    · intro k q known
      have here := steps (k + 1) q known
      rwa [← Nat.succ_add_eq_add_succ] at here
    · rwa [List.length_cons, ← Nat.succ_add_eq_add_succ] at ends

theorem advance_ends {result : Except PhaseError Unit}
    (ends : (p.run shared.state).Ends (drain d.runner limit) shared.session unit (result, memory) v)
    (other : p.phase ≠ .typer) (ran : d.advance limit p shared unit = some one)
    (passed : one.result = .ok ()) : result = .ok () ∧ one.unit = v := by
  obtain ⟨events, went⟩ := ends
  obtain ⟨out, body, settled⟩ := advance_cases ran
  cases Option.some.inj (went.symm.trans body)
  obtain ⟨error, rfl⟩ | ⟨ok, ⟨_, rfl⟩ | ⟨typer, _⟩⟩ := settled
  · cases passed
  · exact ⟨ok, rfl⟩
  · exact absurd typer other

-- No check runs, so the session is none of the runner's business.
theorem advance_session (changes : (p.run shared.state).Does Deed.Changing)
    (other : p.phase ≠ .typer) (ran : d.advance limit p shared unit = some one) :
    one.shared.session = shared.session := by
  obtain ⟨out, body, settled⟩ := advance_cases ran
  have same := action_obeys changing_lasts nofun changes body
  obtain ⟨error, rfl⟩ | ⟨_, ⟨_, rfl⟩ | ⟨typer, _⟩⟩ := settled
  · exact same
  · exact same
  · exact absurd typer other

end UnitPipeline
