import UnitPipeline.Proofs.Run.Course

namespace UnitPipeline
variable {σ : Type} {d : Driver σ} {step : Shared σ → CompilationUnit → Option (Advance σ)}

-- What every step leaves as it is of that which the units share is so at each
-- turn and at the end.
theorem Turns.keeps (shape : Shared σ → Prop) (turns : Turns step live shared made last)
    (keeps : ∀ now unit one, shape now → step now unit = some one → shape one.shared)
    (start : shape shared) : (∀ t ∈ made, shape t.found) ∧ shape last := by
  induction turns with
  | done =>
    refine ⟨?_, start⟩
    intro t inside
    cases inside
  | next took later ih =>
    obtain ⟨others, ended⟩ := ih (keeps _ _ _ start took)
    refine ⟨?_, ended⟩
    intro t inside
    rcases List.mem_cons.mp inside with rfl | behind
    · exact start
    · exact others t behind

theorem Round.survivor_mem {r : Round σ} (inside : t ∈ r.turns) (passed : t.one.result = .ok ()) :
    ⟨t.seat.slot, t.one.unit⟩ ∈ r.survivors :=
  List.mem_filterMap.mpr ⟨t, inside, by simp [Turn.survivor?, passed]⟩

theorem Round.failure_mem {r : Round σ} (inside : t ∈ r.turns)
    (failed : t.one.result = .error error) :
    ⟨t.seat.slot, t.one.unit.display, r.phase.getD .terminal, error⟩ ∈ r.failures :=
  List.mem_filterMap.mpr ⟨t, inside, by simp [Turn.failure?, failed]⟩

theorem rounds_each {good : Round σ → Prop}
    (going : Rounds d limit stage phases live shared rounds survivors after)
    (inPhase : ∀ k p live (shared : Shared σ) made last, phases[k]? = some p →
      Turns (d.advance limit p) live (shared.entering p.phase) made last →
      good ⟨stage + k, some p.phase, made⟩)
    (atEnd : ∀ live (shared : Shared σ) made last,
      Turns (d.finish limit) live (shared.entering .terminal) made last →
      good ⟨stage + phases.length, none, made⟩) : ∀ r ∈ rounds, good r := by
  induction going with
  | last stage made turns =>
    intro r inside
    rw [List.mem_singleton.mp inside]
    exact atEnd _ _ made _ turns
  | next stage p made turns later ih =>
    intro r inside
    rcases List.mem_cons.mp inside with rfl | afterwards
    · exact inPhase 0 p _ _ made _ rfl turns
    · refine ih ?_ ?_ r afterwards
      · intro k q live shared made last found turns
        have here := inPhase (k + 1) q live shared made last found turns
        rwa [← Nat.succ_add_eq_add_succ] at here
      · intro live shared made last turns
        have here := atEnd live shared made last turns
        rwa [List.length_cons, ← Nat.succ_add_eq_add_succ] at here

theorem rounds_next (going : Rounds d limit stage phases live shared rounds survivors after)
    (split : rounds = earlier ++ one :: next :: later) (inside : t ∈ next.turns) :
    t.seat ∈ one.survivors := by
  induction going generalizing earlier with
  | last stage made turns =>
    have lengths := congrArg List.length split
    simp only [List.length_append, List.length_cons, List.length_nil] at lengths
    omega
  | next stage p made turns others ih =>
    cases earlier with
    | cons first rest => exact ih (List.cons.inj split).2
    | nil =>
      obtain ⟨rfl, behind⟩ := List.cons.inj split
      cases others with
      | last stage made turns =>
        obtain ⟨rfl, _⟩ := List.cons.inj behind
        exact turns.seat_mem inside
      | next stage p made turns others =>
        obtain ⟨rfl, _⟩ := List.cons.inj behind
        exact turns.seat_mem inside

-- A law of units: how a unit, what happens to it, and the unit afterwards lie to
-- each other.
structure UnitLaw (law : CompilationUnit → List UnitEvent → CompilationUnit → Prop) : Prop where
  refl : ∀ u, law u [] u
  trans : ∀ {u v w now later}, law u now v → law v later w → law u (now ++ later) w

def StepObeys (step : Shared σ → CompilationUnit → Option (Advance σ))
    (law : CompilationUnit → List UnitEvent → CompilationUnit → Prop) : Prop :=
  ∀ shared unit one, step shared unit = some one → law unit one.events one.unit

section
variable {law : CompilationUnit → List UnitEvent → CompilationUnit → Prop}

theorem turn_course (lawful : UnitLaw law)
    (going : Rounds d limit stage phases live shared rounds survivors after)
    (steps : ∀ p ∈ phases, StepObeys (d.advance limit p) law) (unique : (live.map (·.slot)).Nodup)
    (split : rounds = earlier ++ r :: later) (inside : t ∈ r.turns) :
    ∃ start ∈ live, start.slot = t.seat.slot ∧
      law start.unit (historyOf t.seat.slot (earlier.flatMap Round.events)) t.seat.unit := by
  induction going generalizing earlier with
  | last stage made turns =>
    obtain ⟨rfl, same⟩ : earlier = [] ∧ _ = _ := by
      cases earlier with
      | nil => exact ⟨rfl, split⟩
      | cons first rest => simp at split
    obtain ⟨rfl, _⟩ := List.cons.inj same
    exact ⟨t.seat, turns.seat_mem inside, rfl, lawful.refl _⟩
  | next stage p made turns others ih =>
    cases earlier with
    | nil =>
      obtain ⟨rfl, _⟩ := List.cons.inj split
      exact ⟨t.seat, turns.seat_mem inside, rfl, lawful.refl _⟩
    | cons first rest =>
      obtain ⟨rfl, behind⟩ := List.cons.inj split
      rw [← turns.slots stage (some p.phase)] at unique
      obtain ⟨middle, here, same, course⟩ :=
        ih (fun q known => steps q (List.mem_cons_of_mem _ known))
          ((Round.survivors_sublist _).nodup unique) behind
      obtain ⟨before, among, _, rfl⟩ := survivor_turn here
      refine ⟨before.seat, turns.seat_mem among, same, ?_⟩
      rw [List.flatMap_cons, historyOf_append, ← same, round_alone among unique]
      rw [← same] at course
      exact lawful.trans (steps p List.mem_cons_self _ _ _ (turns.took before among)) course

theorem slot_course (lawful : UnitLaw law)
    (going : Rounds d limit stage phases live shared rounds survivors after)
    (steps : ∀ p ∈ phases, StepObeys (d.advance limit p) law)
    (ends : StepObeys (d.finish limit) law) (unique : (live.map (·.slot)).Nodup)
    (inside : start ∈ live) :
    ∃ unit, law start.unit (historyOf start.slot (rounds.flatMap Round.events)) unit := by
  induction going generalizing start with
  | last stage made turns =>
    rw [← turns.slots stage none] at unique
    rw [← turns.seats] at inside
    obtain ⟨t, among, rfl⟩ := List.mem_map.mp inside
    rw [List.flatMap_singleton, round_alone among unique]
    exact ⟨_, ends _ _ _ (turns.took t among)⟩
  | next stage p made turns others ih =>
    rw [← turns.slots stage (some p.phase)] at unique
    rw [← turns.seats] at inside
    obtain ⟨t, among, rfl⟩ := List.mem_map.mp inside
    have now := steps p List.mem_cons_self _ _ _ (turns.took t among)
    rw [List.flatMap_cons, historyOf_append, round_alone among unique]
    rcases verdict : t.one.result with error | ⟨⟩
    · rw [history_apart others (Round.failed_apart unique (Round.failure_mem among verdict))]
      exact ⟨_, lawful.trans now (lawful.refl _)⟩
    · obtain ⟨unit, course⟩ := ih (fun q known => steps q (List.mem_cons_of_mem _ known))
        ((Round.survivors_sublist _).nodup unique) (Round.survivor_mem among verdict)
      exact ⟨unit, lawful.trans now course⟩

end

end UnitPipeline
