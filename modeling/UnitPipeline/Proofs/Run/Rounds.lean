import UnitPipeline.Run.Driver

namespace UnitPipeline
variable {σ : Type}

structure Turn (σ : Type) where
  seat : Seat
  found : Shared σ
  one : Advance σ

namespace Turn

def survivor? (t : Turn σ) : Option Seat :=
  match t.one.result with
  | .ok () => some ⟨t.seat.slot, t.one.unit⟩
  | .error _ => none

def failure? (phase : Option Phase) (t : Turn σ) : Option UnitFailure :=
  match t.one.result with
  | .ok () => none
  | .error error => some ⟨t.seat.slot, t.one.unit.display, phase.getD .terminal, error⟩

def passed (t : Turn σ) : Bool :=
  match t.one.result with
  | .ok () => true
  | .error _ => false

def history (phase : Option Phase) (opening : Shared σ → Seat → RunEvent)
    (closing : Seat → List RunEvent) (t : Turn σ) : List RunEvent :=
  opening t.found t.seat :: t.one.events.map (.within t.seat.slot) ++
    match t.one.result with
    | .ok () => closing ⟨t.seat.slot, t.one.unit⟩
    | .error error => [.dropped t.seat.slot t.one.unit.display phase error]

end Turn

inductive Turns (step : Shared σ → CompilationUnit → Option (Advance σ)) :
    List Seat → Shared σ → List (Turn σ) → Shared σ → Prop where
  | done : Turns step [] shared [] shared
  | next (took : step shared seat.unit = some one) (later : Turns step rest one.shared turns last) :
      Turns step (seat :: rest) shared (⟨seat, shared, one⟩ :: turns) last

section
variable {phase : Option Phase} {step : Shared σ → CompilationUnit → Option (Advance σ)}

theorem Turns.seats (turns : Turns step live shared made last) : made.map (·.seat) = live := by
  induction turns with
  | done => rfl
  | next took later ih => rw [List.map_cons, ih]

theorem Turns.took (turns : Turns step live shared made last) :
    ∀ t ∈ made, step t.found t.seat.unit = some t.one := by
  induction turns with
  | done =>
    intro t inside
    cases inside
  | next took later ih =>
    intro t inside
    rcases List.mem_cons.mp inside with rfl | others
    · exact took
    · exact ih t others

theorem sweep_turns {opening : Shared σ → Seat → RunEvent} {closing : Seat → List RunEvent}
    (ran : Driver.sweep phase step opening closing live shared = some out) :
    ∃ made, Turns step live shared made out.shared ∧
      out.live = made.filterMap Turn.survivor? ∧
      out.failures = made.filterMap (Turn.failure? phase) ∧
      out.events = made.flatMap (Turn.history phase opening closing) := by
  induction live generalizing shared out with
  | nil =>
    cases Option.some.inj ran
    exact ⟨[], .done, rfl, rfl, rfl⟩
  | cons seat rest ih =>
    obtain ⟨one, took, more⟩ := Option.bind_eq_some_iff.mp ran
    obtain ⟨others, later, rfl⟩ := Option.map_eq_some_iff.mp more
    obtain ⟨made, turns, live, failures, events⟩ := ih later
    refine ⟨⟨seat, shared, one⟩ :: made, ?_⟩
    rcases verdict : one.result with error | ⟨⟩
    · refine ⟨.next took turns, ?_, ?_, ?_⟩
      · simp [Turn.survivor?, verdict, live]
      · simp [Turn.failure?, verdict, failures]
      · simp [Turn.history, verdict, events]
    · refine ⟨.next took turns, ?_, ?_, ?_⟩
      · simp [Turn.survivor?, verdict, live]
      · simp [Turn.failure?, verdict, failures]
      · simp [Turn.history, verdict, events]

theorem survivor_slots (made : List (Turn σ)) :
    (made.filterMap Turn.survivor?).map (·.slot) = (made.filter Turn.passed).map (·.seat.slot) := by
  induction made with
  | nil => rfl
  | cons t rest ih =>
    rcases verdict : t.one.result with error | ⟨⟩
    · simpa [Turn.survivor?, Turn.passed, verdict] using ih
    · simpa [Turn.survivor?, Turn.passed, verdict] using ih

theorem failure_slots (phase : Option Phase) (made : List (Turn σ)) :
    (made.filterMap (Turn.failure? phase)).map (·.slot) =
      (made.filter fun t => !t.passed).map (·.seat.slot) := by
  induction made with
  | nil => rfl
  | cons t rest ih =>
    rcases verdict : t.one.result with error | ⟨⟩
    · simpa [Turn.failure?, Turn.passed, verdict] using ih
    · simpa [Turn.failure?, Turn.passed, verdict] using ih

theorem survivor_turn {made : List (Turn σ)} (found : seat ∈ made.filterMap Turn.survivor?) :
    ∃ t ∈ made, t.one.result = .ok () ∧ seat = ⟨t.seat.slot, t.one.unit⟩ := by
  obtain ⟨t, inside, turned⟩ := List.mem_filterMap.mp found
  refine ⟨t, inside, ?_⟩
  rcases verdict : t.one.result with error | ⟨⟩
  · simp [Turn.survivor?, verdict] at turned
  · simp only [Turn.survivor?, verdict, Option.some.injEq] at turned
    exact ⟨rfl, turned.symm⟩

theorem failure_turn {made : List (Turn σ)}
    (found : f ∈ made.filterMap (Turn.failure? phase)) :
    ∃ t ∈ made, ∃ error, t.one.result = .error error ∧
      f = ⟨t.seat.slot, t.one.unit.display, phase.getD .terminal, error⟩ := by
  obtain ⟨t, inside, turned⟩ := List.mem_filterMap.mp found
  refine ⟨t, inside, ?_⟩
  rcases verdict : t.one.result with error | ⟨⟩
  · simp only [Turn.failure?, verdict, Option.some.injEq] at turned
    exact ⟨error, rfl, turned.symm⟩
  · simp [Turn.failure?, verdict] at turned

end

structure Round (σ : Type) where
  stage : Nat
  phase : Option Phase
  turns : List (Turn σ)

namespace Round

def survivors (r : Round σ) : List Seat := r.turns.filterMap Turn.survivor?

def failures (r : Round σ) : List UnitFailure := r.turns.filterMap (Turn.failure? r.phase)

def slots (r : Round σ) : List Nat := r.turns.map (·.seat.slot)

def events (r : Round σ) : List RunEvent :=
  match r.phase with
  | some phase =>
    .entering phase r.turns.length :: r.turns.flatMap (Turn.history phase
      (fun now seat => .visit seat.slot r.stage phase now.session.phase)
      fun seat => [.phaseDone seat.slot seat.unit.display phase])
  | none =>
    r.turns.flatMap (Turn.history none (fun now seat => .closing seat.slot now.session.phase)
      fun _ => [])

end Round

def Shared.entering (shared : Shared σ) (phase : Phase) : Shared σ :=
  { shared with session := shared.session.enterPhase phase }

-- All rounds of a run: one for each phase from a stage on, and the final drains.
-- Each takes up the units that the one before left over.
inductive Rounds (d : Driver σ) (limit : Nat) : Nat → List (CompilerPhase σ) → List Seat →
    Shared σ → List (Round σ) → List Seat → Shared σ → Prop where
  | last (stage : Nat) (made : List (Turn σ))
      (turns : Turns (d.finish limit) live (shared.entering .terminal) made after) :
      Rounds d limit stage [] live shared [⟨stage, none, made⟩]
        (Round.survivors ⟨stage, none, made⟩) after
  | next (stage : Nat) (p : CompilerPhase σ) (made : List (Turn σ))
      (turns : Turns (d.advance limit p) live (shared.entering p.phase) made middle)
      (later : Rounds d limit (stage + 1) phases (Round.survivors ⟨stage, some p.phase, made⟩)
        middle rounds survivors after) :
      Rounds d limit stage (p :: phases) live shared (⟨stage, some p.phase, made⟩ :: rounds)
        survivors after

theorem Round.slots_perm (r : Round σ) :
    (r.survivors.map (·.slot) ++ r.failures.map (·.slot)).Perm r.slots := by
  simp only [survivors, failures, slots, survivor_slots, failure_slots, ← List.map_append]
  exact (List.filter_append_perm Turn.passed r.turns).map _

theorem Round.survivors_sublist (r : Round σ) : (r.survivors.map (·.slot)).Sublist r.slots := by
  rw [survivors, survivor_slots]
  exact List.filter_sublist.map _

theorem Round.failures_sublist (r : Round σ) : (r.failures.map (·.slot)).Sublist r.slots := by
  rw [failures, failure_slots]
  exact List.filter_sublist.map _

theorem Round.failed_apart {r : Round σ} (unique : r.slots.Nodup) (failed : f ∈ r.failures) :
    f.slot ∉ r.survivors.map (·.slot) := by
  have parts := List.nodup_append.mp (r.slots_perm.nodup_iff.mpr unique)
  intro survived
  exact parts.2.2 _ survived _ (List.mem_map.mpr ⟨f, failed, rfl⟩) rfl

theorem runPhases_rounds {d : Driver σ}
    (ran : d.runPhases limit stage phases live shared = some middle)
    (ended : Driver.sweep none (d.finish limit)
      (fun now seat => .closing seat.slot now.session.phase) (fun _ => []) middle.live
      (middle.shared.entering .terminal) = some last) :
    ∃ rounds, Rounds d limit stage phases live shared rounds last.live last.shared ∧
      middle.failures ++ last.failures = rounds.flatMap Round.failures ∧
      middle.events ++ last.events = rounds.flatMap Round.events := by
  induction phases generalizing stage live shared middle with
  | nil =>
    cases Option.some.inj ran
    obtain ⟨made, turns, alive, failures, events⟩ := sweep_turns ended
    refine ⟨[⟨stage, none, made⟩], ?_, ?_, ?_⟩
    · rw [alive]
      exact .last stage made turns
    · simp [failures, Round.failures]
    · simp [events, Round.events]
  | cons p later ih =>
    obtain ⟨here, swept, more⟩ := Option.bind_eq_some_iff.mp ran
    obtain ⟨rest, inside, rfl⟩ := Option.map_eq_some_iff.mp more
    obtain ⟨made, turns, alive, failures, events⟩ := sweep_turns swept
    obtain ⟨rounds, going, failed, told⟩ := ih inside ended
    refine ⟨⟨stage, some p.phase, made⟩ :: rounds, ?_, ?_, ?_⟩
    · rw [alive] at going
      exact .next stage p made turns going
    · simp [failures, Round.failures, ← failed]
    · have units : live.length = made.length := by rw [← turns.seats, List.length_map]
      simp [events, Round.events, ← told, units]

theorem run_rounds {d : Driver σ} (ran : d.run limit shared sources = some r) :
    ∃ rounds, Rounds d limit 0 d.ordered (Driver.seats sources) shared rounds
        r.report.survivors r.shared ∧
      r.report.failures = rounds.flatMap Round.failures ∧
      r.events = rounds.flatMap Round.events ++
        [.finished r.report.survivors.length r.report.failures.length] := by
  obtain ⟨middle, through, more⟩ := Option.bind_eq_some_iff.mp ran
  obtain ⟨last, ended, rfl⟩ := Option.map_eq_some_iff.mp more
  obtain ⟨rounds, going, failed, told⟩ := runPhases_rounds through ended
  refine ⟨rounds, going, failed, ?_⟩
  simp only [told]

theorem Turns.slots (turns : Turns step live shared made last) (stage : Nat)
    (phase : Option Phase) : (Round.mk stage phase made).slots = live.map (·.slot) := by
  rw [← turns.seats, List.map_map]
  rfl

theorem rounds_perm {d : Driver σ}
    (going : Rounds d limit stage phases live shared rounds survivors after) :
    (survivors.map (·.slot) ++ (rounds.flatMap Round.failures).map (·.slot)).Perm
      (live.map (·.slot)) := by
  induction going with
  | last stage made turns =>
    rw [← turns.slots, List.flatMap_singleton]
    exact Round.slots_perm _
  | next stage p made turns later ih =>
    rw [← turns.slots stage (some p.phase), List.flatMap_cons, List.map_append]
    refine (List.perm_append_comm.append_left _).trans ?_
    rw [← List.append_assoc]
    exact (ih.append_right _).trans (Round.slots_perm _)

theorem rounds_sublist {d : Driver σ}
    (going : Rounds d limit stage phases live shared rounds survivors after) :
    (survivors.map (·.slot)).Sublist (live.map (·.slot)) := by
  induction going with
  | last stage made turns =>
    rw [← turns.slots]
    exact Round.survivors_sublist _
  | next stage p made turns later ih =>
    rw [← turns.slots stage (some p.phase)]
    exact ih.trans (Round.survivors_sublist _)

theorem rounds_slots {d : Driver σ}
    (going : Rounds d limit stage phases live shared rounds survivors after) :
    ∀ r ∈ rounds, r.slots.Sublist (live.map (·.slot)) := by
  induction going with
  | last stage made turns =>
    intro r inside
    cases List.mem_singleton.mp inside
    have same := turns.slots stage none
    exact same ▸ .refl _
  | next stage p made turns later ih =>
    intro r inside
    rw [← turns.slots stage (some p.phase)]
    rcases List.mem_cons.mp inside with rfl | afterwards
    · exact .refl _
    · exact (ih r afterwards).trans (Round.survivors_sublist _)

theorem rounds_fit {d : Driver σ}
    (going : Rounds d limit stage phases live shared rounds survivors after) :
    ∀ r ∈ rounds, r.phase = none → r.stage = stage + phases.length := by
  induction going with
  | last stage made turns =>
    intro r inside _
    rw [List.mem_singleton.mp inside]
    rfl
  | next stage p made turns later ih =>
    intro r inside final
    rcases List.mem_cons.mp inside with rfl | afterwards
    · cases final
    · rw [ih r afterwards final, List.length_cons]
      omega

end UnitPipeline
