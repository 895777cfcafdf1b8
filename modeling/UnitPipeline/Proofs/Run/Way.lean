import UnitPipeline.Proofs.Check.Refinement
import UnitPipeline.Proofs.Run.Isolation
import UnitPipeline.Proofs.Unit.Ends

namespace UnitPipeline
variable {σ : Type} {d : Driver σ} {p : CompilerPhase σ} {later : List (CompilerPhase σ)}
  {shared : Shared σ} {memory : σ} {u v : CompilationUnit} {limit : Nat}

theorem RunReport.mem_fates {r : RunReport} (unique : (r.fates.map (·.1)).Nodup) :
    (slot, fate) ∈ r.fates ↔ r.fate? slot = some fate := by
  refine ⟨fate?_of_mem unique, fun found => ?_⟩
  obtain ⟨before, behind, split, _⟩ := List.lookup_eq_some_iff.mp found
  rw [split]
  simp

theorem RunReport.failed_iff {r : RunReport} {f : UnitFailure} (unique : (r.fates.map (·.1)).Nodup) :
    f ∈ r.failures ↔ r.fate? f.slot = some (.dropped f.unit f.phase f.error) := by
  rw [← mem_fates unique, fates, List.mem_append]
  constructor
  · exact fun failed => Or.inr (List.mem_map.mpr ⟨f, failed, rfl⟩)
  · rintro (survived | failed)
    · obtain ⟨seat, _, same⟩ := List.mem_map.mp survived
      cases (Prod.mk.inj same).2
    · obtain ⟨⟨slot, unit, phase, error⟩, inside, same⟩ := List.mem_map.mp failed
      obtain ⟨rfl, rfl, rfl, rfl⟩ : slot = f.slot ∧ unit = f.unit ∧ phase = f.phase ∧ error = f.error := by
        simpa using same
      exact inside

theorem RunReport.survived_iff {r : RunReport} {seat : Seat} (unique : (r.fates.map (·.1)).Nodup) :
    seat ∈ r.survivors ↔ r.fate? seat.slot = some (.survived seat.unit) := by
  rw [← mem_fates unique, fates, List.mem_append]
  constructor
  · exact fun survived => Or.inl (List.mem_map.mpr ⟨seat, survived, rfl⟩)
  · rintro (survived | failed)
    · obtain ⟨⟨slot, unit⟩, inside, same⟩ := List.mem_map.mp survived
      obtain ⟨rfl, rfl⟩ : slot = seat.slot ∧ unit = seat.unit := by simpa using same
      exact inside
    · obtain ⟨f, _, same⟩ := List.mem_map.mp failed
      cases (Prod.mk.inj same).2

theorem fate_source {d : Driver σ} (ran : d.run limit shared sources = some r)
    (sealed : r.report.fate? slot = some fate) : ∃ source, sources[slot]? = some source := by
  obtain ⟨rounds, going, failures, _⟩ := run_rounds ran
  have inside := List.mem_map_of_mem (f := (·.1)) ((RunReport.mem_fates (fates_unique ran)).mpr sealed)
  rw [RunReport.fates_slots, failures, (rounds_perm going).mem_iff] at inside
  obtain ⟨seat, known, same⟩ := List.mem_map.mp inside
  obtain ⟨source, here, _⟩ := seats_source known
  rw [same] at here
  exact ⟨source, here⟩

def CompilerPhase.Takes (p : CompilerPhase σ) (d : Driver σ) (limit : Nat) (shared : Shared σ)
    (u : CompilationUnit) (result : Except PhaseError Unit) (memory : σ) (v : CompilationUnit) : Prop :=
  (p.run shared.state).Ends (drain d.runner limit) (shared.session.enterPhase p.phase) u
    (result, memory) v

theorem way_stopped (takes : p.Takes d limit shared u (.error cause) memory v) :
    d.way limit shared (p :: later) u =
      some (.dropped v.display p.phase (.phase p.phase v.display cause)) := by
  obtain ⟨events, ran⟩ := takes
  simp only [Driver.way, Driver.advance, Shared.entering, ran, Option.bind_some, Advance.fate]

theorem way_next (takes : p.Takes d limit shared u (.ok ()) memory v) (plain : p.phase ≠ .typer)
    (body : v.body.isSome = true) :
    d.way limit shared (p :: later) u = d.way limit shared later v := by
  obtain ⟨events, ran⟩ := takes
  have there : v.body.isNone = false := by
    rw [← Option.not_isSome, body]
    rfl
  simp only [Driver.way, Driver.advance, Shared.entering, ran, Option.bind_some, there,
    Bool.and_false, Bool.false_eq_true, if_false, if_neg plain, Advance.fate]

theorem drainUnit_of {out : Outcome (Except UnitError Nat × σ)}
    (drained : drain d.runner limit point shared.state ⟨shared.session, u⟩ = some out) :
    d.drainUnit limit point shared u = some ⟨match out.value.1 with
        | .ok _ => .ok ()
        | .error e => .error (.unit e),
      out.desk.unit, ⟨out.desk.session, out.value.2⟩, out.events⟩ := by
  rw [Driver.drainUnit, drained]
  rfl

theorem way_typer {out : Outcome (Except UnitError Nat × σ)} (typer : p.phase = .typer)
    (takes : p.Takes d limit shared u (.ok ()) memory v)
    (drained : drain d.runner limit .postTyper memory ⟨shared.session.enterPhase .typer, v⟩ =
      some out) :
    d.way limit shared (p :: later) u = match out.value.1 with
      | .ok _ => d.way limit shared later out.desk.unit
      | .error e => some (.dropped out.desk.unit.display .typer (.unit e)) := by
  obtain ⟨events, ran⟩ := takes
  rw [typer] at ran
  have checks : d.drainUnit limit .postTyper ⟨shared.session.enterPhase .typer, memory⟩ v = _ :=
    drainUnit_of drained
  simp only [Driver.way, Driver.advance, Shared.entering, typer, ran, Option.bind_some,
    reduceCtorEq, decide_false, Bool.false_and, Bool.false_eq_true, if_false, if_true,
    Driver.Advance.andThen, checks, Option.map_some, Advance.fate]
  cases out.value.1 <;> rfl

theorem way_last {out : Outcome (Except UnitError Nat × σ)} (enough : 1 ≤ limit)
    (clean : u.checks.waiting .postTyper = [])
    (drained : drain d.runner limit .postUnit shared.state
      ⟨shared.session.enterPhase .terminal, u⟩ = some out) :
    d.way limit shared [] u = match out.value.1 with
      | .ok _ => some (.survived out.desk.unit)
      | .error e => some (.dropped out.desk.unit.display .terminal (.unit e)) := by
  obtain ⟨below, rfl⟩ := Nat.exists_eq_add_of_le' enough
  have idle : drain d.runner (below + 1) .postTyper shared.state
      ⟨shared.session.enterPhase .terminal, u⟩ = some _ := drainFrom_idle clean
  have first : d.drainUnit (below + 1) .postTyper (shared.entering .terminal) u = _ :=
    drainUnit_of idle
  have second : d.drainUnit (below + 1) .postUnit (shared.entering .terminal) u = _ :=
    drainUnit_of drained
  simp only [Shared.entering] at first second
  simp only [Driver.way, Driver.finish, Shared.entering, first, Option.bind_some,
    Driver.Advance.andThen, second, Option.map_some, Advance.fate]
  cases out.value.1 <;> rfl

end UnitPipeline
