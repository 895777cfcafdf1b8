import UnitPipeline.Proofs.Run.Rounds
import UnitPipeline.Proofs.Unit.Work

namespace UnitPipeline
variable {σ β : Type}

def RunEvent.of? (slot : Nat) : RunEvent → Option UnitEvent
  | within at_ event => if at_ = slot then some event else none
  | _ => none

def historyOf (slot : Nat) (events : List RunEvent) : List UnitEvent :=
  events.filterMap (RunEvent.of? slot)

-- The stages that took the unit up. The final drains come after all phases.
def RunEvent.stage? (phases slot : Nat) : RunEvent → Option Nat
  | visit at_ stage _ _ => if at_ = slot then some stage else none
  | closing at_ _ => if at_ = slot then some phases else none
  | _ => none

def stagesOf (phases slot : Nat) (events : List RunEvent) : List Nat :=
  events.filterMap (RunEvent.stage? phases slot)

@[simp] theorem historyOf_append (slot : Nat) (a b : List RunEvent) :
    historyOf slot (a ++ b) = historyOf slot a ++ historyOf slot b :=
  List.filterMap_append ..

@[simp] theorem stagesOf_append (phases slot : Nat) (a b : List RunEvent) :
    stagesOf phases slot (a ++ b) = stagesOf phases slot a ++ stagesOf phases slot b :=
  List.filterMap_append ..

def turnsOf (slot : Nat) (told : Turn σ → List β) (turns : List (Turn σ)) : List β :=
  turns.flatMap fun t => if t.seat.slot = slot then told t else []

theorem turnsOf_cons (t : Turn σ) (rest : List (Turn σ)) (told : Turn σ → List β) :
    turnsOf slot told (t :: rest) =
      (if t.seat.slot = slot then told t else []) ++ turnsOf slot told rest := rfl

theorem turnsOf_apart (told : Turn σ → List β) (apart : slot ∉ turns.map (·.seat.slot)) :
    turnsOf slot told turns = [] := by
  apply List.flatMap_eq_nil_iff.mpr
  intro t inside
  exact if_neg fun same => apart (List.mem_map.mpr ⟨t, inside, same⟩)

theorem turnsOf_alone (told : Turn σ → List β) (inside : t ∈ turns)
    (unique : (turns.map (·.seat.slot)).Nodup) : turnsOf t.seat.slot told turns = told t := by
  induction turns with
  | nil => cases inside
  | cons first rest ih =>
    obtain ⟨apart, others⟩ := List.nodup_cons.mp unique
    rw [turnsOf_cons]
    rcases List.mem_cons.mp inside with rfl | later
    · rw [if_pos rfl, turnsOf_apart told apart, List.append_nil]
    · have other : first.seat.slot ≠ t.seat.slot := by
        intro same
        exact apart (List.mem_map.mpr ⟨t, later, same.symm⟩)
      rw [if_neg other, List.nil_append]
      exact ih later others

section
variable {phase : Option Phase} {opening : Shared σ → Seat → RunEvent}
  {closing : Seat → List RunEvent}

theorem turn_reads (read : RunEvent → Option β) (closes : ∀ seat, (closing seat).filterMap read = [])
    (drops : ∀ slot unit phase error, read (.dropped slot unit phase error) = none) (t : Turn σ) :
    (t.history phase opening closing).filterMap read =
      ([opening t.found t.seat] ++ t.one.events.map (RunEvent.within t.seat.slot)).filterMap read := by
  unfold Turn.history
  rw [List.filterMap_append]
  rcases verdict : t.one.result with error | ⟨⟩
  · simp [drops]
  · simp [closes]

theorem within_history (slot at_ : Nat) (events : List UnitEvent) :
    historyOf slot (events.map (.within at_)) = if at_ = slot then events else [] := by
  rw [historyOf, List.filterMap_map]
  by_cases same : at_ = slot
  · have all : RunEvent.of? slot ∘ RunEvent.within at_ = some := funext fun _ => if_pos same
    rw [all, List.filterMap_some, if_pos same]
  · rw [if_neg same]
    exact List.filterMap_eq_nil_iff.mpr fun _ _ => if_neg same

theorem within_stages (phases slot at_ : Nat) (events : List UnitEvent) :
    stagesOf phases slot (events.map (.within at_)) = [] := by
  rw [stagesOf, List.filterMap_map]
  exact List.filterMap_eq_nil_iff.mpr fun _ _ => rfl

theorem turn_history (opens : ∀ now seat, historyOf slot [opening now seat] = [])
    (closes : ∀ seat, historyOf slot (closing seat) = []) (t : Turn σ) :
    historyOf slot (t.history phase opening closing) =
      if t.seat.slot = slot then t.one.events else [] := by
  rw [historyOf, turn_reads _ closes fun _ _ _ _ => rfl, ← historyOf]
  rw [historyOf_append, opens, within_history, List.nil_append]

theorem turn_stages
    (opens : ∀ now seat, stagesOf phases slot [opening now seat] =
      if seat.slot = slot then [stage] else [])
    (closes : ∀ seat, stagesOf phases slot (closing seat) = []) (t : Turn σ) :
    stagesOf phases slot (t.history phase opening closing) =
      if t.seat.slot = slot then [stage] else [] := by
  rw [stagesOf, turn_reads _ closes fun _ _ _ _ => rfl, ← stagesOf]
  rw [stagesOf_append, opens, within_stages, List.append_nil]

end

theorem round_history (slot : Nat) (r : Round σ) :
    historyOf slot r.events = turnsOf slot (·.one.events) r.turns := by
  unfold Round.events
  cases r.phase with
  | none =>
    rw [historyOf, List.filterMap_flatMap]
    exact congrArg r.turns.flatMap (funext (turn_history (fun _ _ => rfl) fun _ => rfl))
  | some phase =>
    rw [historyOf, List.filterMap_cons, List.filterMap_flatMap]
    exact congrArg r.turns.flatMap (funext (turn_history (fun _ _ => rfl) fun _ => rfl))

theorem round_stages (slot : Nat) (r : Round σ) (fits : r.phase = none → r.stage = phases) :
    stagesOf phases slot r.events = turnsOf slot (fun _ => [r.stage]) r.turns := by
  unfold Round.events
  cases kind : r.phase with
  | none =>
    rw [stagesOf, List.filterMap_flatMap, fits kind]
    refine congrArg r.turns.flatMap (funext (turn_stages ?_ fun _ => rfl))
    intro now seat
    by_cases same : seat.slot = slot <;> simp [stagesOf, RunEvent.stage?, same]
  | some phase =>
    rw [stagesOf, List.filterMap_cons, List.filterMap_flatMap]
    refine congrArg r.turns.flatMap (funext (turn_stages ?_ fun _ => rfl))
    intro now seat
    by_cases same : seat.slot = slot <;> simp [stagesOf, RunEvent.stage?, same]

def StepWorks (step : Shared σ → CompilationUnit → Option (Advance σ)) : Prop :=
  ∀ shared unit one, step shared unit = some one →
    Work ⟨[], ⟨shared.session, unit⟩⟩ one.events ⟨[], ⟨one.shared.session, one.unit⟩⟩

theorem drainUnit_works (d : Driver σ) (limit : Nat) (point : CheckPoint) :
    StepWorks (d.drainUnit limit point) := by
  intro shared unit one ran
  obtain ⟨out, drained, rfl⟩ := Option.map_eq_some_iff.mp ran
  exact drain_work d.runner limit point shared.state ⟨shared.session, unit⟩ out drained []

theorem andThen_cases {first : Advance σ} {next : Shared σ → CompilationUnit → Option (Advance σ)}
    (ran : Driver.Advance.andThen first next = some one) :
    (∃ error, first.result = .error error ∧ one = first) ∨
      first.result = .ok () ∧ ∃ last, next first.shared first.unit = some last ∧
        one = { last with events := first.events ++ last.events } := by
  unfold Driver.Advance.andThen at ran
  rcases verdict : first.result with error | ⟨⟩
  · simp only [verdict] at ran
    exact Or.inl ⟨error, rfl, (Option.some.inj ran).symm⟩
  · simp only [verdict] at ran
    obtain ⟨last, later, equal⟩ := Option.map_eq_some_iff.mp ran
    exact Or.inr ⟨rfl, last, later, equal.symm⟩

theorem andThen_work {first : Advance σ} {next : Shared σ → CompilationUnit → Option (Advance σ)}
    (works : StepWorks next)
    (begun : Work b first.events ⟨[], ⟨first.shared.session, first.unit⟩⟩)
    (ran : Driver.Advance.andThen first next = some one) :
    Work b one.events ⟨[], ⟨one.shared.session, one.unit⟩⟩ := by
  obtain ⟨error, _, rfl⟩ | ⟨_, last, later, rfl⟩ := andThen_cases ran
  · exact begun
  · exact begun.trans (works _ _ last later)

theorem advance_works (d : Driver σ) (limit : Nat) (p : CompilerPhase σ) :
    StepWorks (d.advance limit p) := by
  intro shared unit one ran
  unfold Driver.advance at ran
  obtain ⟨out, body, settled⟩ := Option.bind_eq_some_iff.mp ran
  have begun := action_work (drain_work d.runner limit) _ body []
  rcases verdict : out.value.1 with cause | ⟨⟩
  · simp only [verdict] at settled
    cases settled
    exact begun
  · simp only [verdict] at settled
    split at settled
    · cases settled
      exact begun
    · split at settled
      · exact andThen_work (drainUnit_works d limit .postTyper) begun settled
      · cases settled
        exact begun

theorem finish_works (d : Driver σ) (limit : Nat) : StepWorks (d.finish limit) := by
  intro shared unit one ran
  obtain ⟨first, drained, more⟩ := Option.bind_eq_some_iff.mp ran
  exact andThen_work (drainUnit_works d limit .postUnit)
    (drainUnit_works d limit .postTyper shared unit first drained) more

section
variable {d : Driver σ} {step : Shared σ → CompilationUnit → Option (Advance σ)}

theorem round_alone {r : Round σ} (inside : t ∈ r.turns) (unique : r.slots.Nodup) :
    historyOf t.seat.slot r.events = t.one.events := by
  rw [round_history]
  exact turnsOf_alone (·.one.events) inside unique

theorem Turns.work (turns : Turns step live shared made last) (works : StepWorks step)
    (inside : t ∈ made) : Work ⟨[], ⟨t.found.session, t.seat.unit⟩⟩ t.one.events
      ⟨[], ⟨t.one.shared.session, t.one.unit⟩⟩ :=
  works _ _ _ (turns.took t inside)

theorem Turns.seat_mem (turns : Turns step live shared made last) (inside : t ∈ made) :
    t.seat ∈ live := by
  rw [← turns.seats]
  exact List.mem_map.mpr ⟨t, inside, rfl⟩

theorem history_apart (going : Rounds d limit stage phases live shared rounds survivors after)
    (apart : slot ∉ live.map (·.slot)) : historyOf slot (rounds.flatMap Round.events) = [] := by
  rw [historyOf, List.filterMap_flatMap]
  apply List.flatMap_eq_nil_iff.mpr
  intro r inside
  have untold : slot ∉ r.slots := fun here => apart ((rounds_slots going r inside).subset here)
  exact (round_history slot r).trans (turnsOf_apart _ untold)

theorem stages_apart (going : Rounds d limit stage phases live shared rounds survivors after)
    (apart : slot ∉ live.map (·.slot)) :
    stagesOf (stage + phases.length) slot (rounds.flatMap Round.events) = [] := by
  rw [stagesOf, List.filterMap_flatMap]
  apply List.flatMap_eq_nil_iff.mpr
  intro r inside
  have untold : slot ∉ r.slots := fun here => apart ((rounds_slots going r inside).subset here)
  exact (round_stages slot r (rounds_fit going r inside)).trans (turnsOf_apart _ untold)

theorem survivor_course (going : Rounds d limit stage phases live shared rounds survivors after)
    (unique : (live.map (·.slot)).Nodup) (survived : seat ∈ survivors) :
    ∃ start ∈ live, start.slot = seat.slot ∧ ∃ earlier found unit one,
      historyOf seat.slot (rounds.flatMap Round.events) = earlier ++ one.events ∧
      Course start.unit earlier unit ∧ d.finish limit found unit = some one ∧
      one.result = .ok () ∧ one.unit = seat.unit := by
  induction going with
  | last stage made turns =>
    rw [← turns.slots stage none] at unique
    obtain ⟨t, inside, passed, rfl⟩ := survivor_turn survived
    refine ⟨t.seat, turns.seat_mem inside, rfl, [], t.found, t.seat.unit, t.one, ?_⟩
    refine ⟨?_, .rest, turns.took t inside, passed, rfl⟩
    rw [List.flatMap_singleton, List.nil_append]
    exact round_alone inside unique
  | next stage p made turns later ih =>
    rw [← turns.slots stage (some p.phase)] at unique
    -- What the later rounds start from is what this round has made of the unit.
    obtain ⟨middle, here, same, earlier, found, unit, one, told, course, ended⟩ :=
      ih ((Round.survivors_sublist _).nodup unique) survived
    obtain ⟨t, inside, _, rfl⟩ := survivor_turn here
    refine ⟨t.seat, turns.seat_mem inside, same, t.one.events ++ earlier, found, unit, one, ?_⟩
    refine ⟨?_, .turn (turns.work (advance_works d _ p) inside) course, ended⟩
    rw [List.flatMap_cons, historyOf_append, told, ← same, List.append_assoc]
    exact congrArg (· ++ _) (round_alone inside unique)

theorem failure_course (going : Rounds d limit stage phases live shared rounds survivors after)
    (unique : (live.map (·.slot)).Nodup) (failed : f ∈ rounds.flatMap Round.failures) :
    ∃ start ∈ live, start.slot = f.slot ∧ ∃ unit, f.unit = unit.display ∧
      Course start.unit (historyOf f.slot (rounds.flatMap Round.events)) unit := by
  induction going with
  | last stage made turns =>
    rw [← turns.slots stage none] at unique
    rw [List.flatMap_singleton] at failed ⊢
    obtain ⟨t, inside, _, _, rfl⟩ := failure_turn failed
    refine ⟨t.seat, turns.seat_mem inside, rfl, t.one.unit, rfl, ?_⟩
    have told : historyOf t.seat.slot (Round.events ⟨stage, none, made⟩) = t.one.events :=
      round_alone inside unique
    rw [told, ← List.append_nil t.one.events]
    exact .turn (turns.work (finish_works d _) inside) .rest
  | next stage p made turns later ih =>
    rw [← turns.slots stage (some p.phase)] at unique
    rw [List.flatMap_cons] at failed ⊢
    rw [historyOf_append]
    rcases List.mem_append.mp failed with here | afterwards
    · rw [history_apart later (Round.failed_apart unique here)]
      obtain ⟨t, inside, _, _, rfl⟩ := failure_turn here
      refine ⟨t.seat, turns.seat_mem inside, rfl, t.one.unit, rfl, ?_⟩
      rw [round_alone inside unique]
      exact .turn (turns.work (advance_works d _ p) inside) .rest
    · obtain ⟨middle, here, same, unit, named, course⟩ :=
        ih ((Round.survivors_sublist _).nodup unique) afterwards
      obtain ⟨t, inside, _, rfl⟩ := survivor_turn here
      refine ⟨t.seat, turns.seat_mem inside, same, unit, named, ?_⟩
      rw [← same, round_alone inside unique]
      rw [← same] at course
      exact .turn (turns.work (advance_works d _ p) inside) course

end

end UnitPipeline
