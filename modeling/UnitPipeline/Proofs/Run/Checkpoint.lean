import UnitPipeline.Proofs.Check.InOrder
import UnitPipeline.Proofs.Run.Leftover
import UnitPipeline.Proofs.Run.Step
import UnitPipeline.Proofs.Run.Telling

namespace UnitPipeline
variable {σ : Type} {d : Driver σ}

def ChecksInOrder (u : CompilationUnit) (events : List UnitEvent) (v : CompilationUnit) : Prop :=
  InOrder u.checks.waiting events v.checks.waiting

theorem checks_lawful : UnitLaw ChecksInOrder :=
  ⟨fun u => .refl u.checks.waiting, fun first second => InOrder.trans first second⟩

theorem drainUnit_in_order (plain : d.runner.Does Deed.Plain)
    (ran : d.drainUnit limit point shared unit = some one) :
    ChecksInOrder unit one.events one.unit ∧ ∀ e ∈ startedIn one.events, e.1 = point := by
  obtain ⟨out, drained, rfl⟩ := Option.map_eq_some_iff.mp ran
  exact drainFrom_in_order plain drained

theorem drainUnit_empties (ran : d.drainUnit limit point shared unit = some one)
    (passed : one.result = .ok ()) : one.unit.checks.waiting point = [] := by
  obtain ⟨out, total, drained, verdict, same, _, _⟩ := drainUnit_passed ran passed
  rw [same]
  exact drainFrom_empties drained verdict

theorem advance_in_order (plain : d.Does Deed.Plain) (known : p ∈ d.ordered)
    (ran : d.advance limit p shared unit = some one) :
    ChecksInOrder unit one.events one.unit ∧ ∀ e ∈ startedIn one.events, e.1 = .postTyper := by
  obtain ⟨out, body, settled⟩ := advance_cases ran
  have phase := ordered_does plain known shared.state
  have order : ChecksInOrder unit out.events out.desk.unit := action_in_order phase body []
  have none := (plain_only_queues phase body).1
  obtain ⟨error, rfl⟩ | ⟨_, ⟨_, rfl⟩ | ⟨_, last, later, rfl⟩⟩ := settled
  · exact ⟨order, fun e inside => absurd (none ▸ inside) List.not_mem_nil⟩
  · exact ⟨order, fun e inside => absurd (none ▸ inside) List.not_mem_nil⟩
  · obtain ⟨rest, starts⟩ := drainUnit_in_order plain.1 later
    refine ⟨order.trans rest, ?_⟩
    intro e inside
    rw [startedIn_append, none] at inside
    exact starts e inside

theorem advance_empties (typer : p.phase = .typer)
    (ran : d.advance limit p shared unit = some one) (passed : one.result = .ok ()) :
    one.unit.checks.waiting .postTyper = [] := by
  obtain ⟨out, _, ⟨error, rfl⟩ | ⟨_, ⟨other, _⟩ | ⟨_, last, later, rfl⟩⟩⟩ := advance_cases ran
  · cases passed
  · exact absurd typer other
  · have emptied := drainUnit_empties later passed
    exact emptied

theorem finish_in_order (plain : d.Does Deed.Plain)
    (ran : d.finish limit shared unit = some one) : ChecksInOrder unit one.events one.unit := by
  obtain ⟨first, begun, ⟨error, _, rfl⟩ | ⟨_, last, later, rfl⟩⟩ := finish_cases ran
  · exact (drainUnit_in_order plain.1 begun).1
  · exact (drainUnit_in_order plain.1 begun).1.trans (drainUnit_in_order plain.1 later).1

theorem started_here (split : events = told ++ .started point check during :: later) :
    (point, check) ∈ startedIn events := by
  rw [split, startedIn_append]
  exact List.mem_append_right _ List.mem_cons_self

theorem finish_typer_first (plain : d.Does Deed.Plain)
    (ran : d.finish limit shared unit = some one)
    (split : one.events = told ++ .started .postUnit check during :: later) :
    unit.checks.waiting .postTyper <+: ofPoint .postTyper (startedIn told) := by
  obtain ⟨first, begun, settled⟩ := finish_cases ran
  obtain ⟨order, starts⟩ := drainUnit_in_order plain.1 begun
  obtain ⟨error, _, rfl⟩ | ⟨passed, last, _, rfl⟩ := settled
  · cases starts _ (started_here split)
  · rcases split_part split with ⟨rest, here⟩ | ⟨between, rfl, _⟩
    · cases starts _ (started_here here)
    · have all := order.left .postTyper
      rw [drainUnit_empties begun passed, List.append_nil] at all
      rw [startedIn_append, ofPoint_append, ← all, List.append_assoc]
      exact List.prefix_append _ _

def Round.Steps (d : Driver σ) (limit : Nat) (r : Round σ) : Prop :=
  ∀ t ∈ r.turns, (∃ p ∈ d.ordered, r.phase = some p.phase ∧
      d.advance limit p t.found t.seat.unit = some t.one) ∨
    r.phase = none ∧ d.finish limit t.found t.seat.unit = some t.one

theorem rounds_steps (going : Rounds d limit 0 d.ordered live shared rounds survivors after) :
    ∀ r ∈ rounds, r.Steps d limit := by
  refine rounds_each going ?_ ?_
  · intro k p live shared made last found turns t inside
    exact Or.inl ⟨p, List.mem_of_getElem? found, rfl, turns.took t inside⟩
  · intro live shared made last turns t inside
    exact Or.inr ⟨rfl, turns.took t inside⟩

def RunEvent.BeginsLate (e : RunEvent) : Prop :=
  ∃ slot check during, e = .within slot (.started .postUnit check during)

def RunEvent.inPhases : RunEvent → Bool
  | entering .. | visit .. | phaseDone .. | dropped _ _ (some _) _ => true
  | _ => false

theorem told_late {r : Round σ} (inside : e ∈ r.told t) (late : e.BeginsLate) :
    ∃ check, (.postUnit, check) ∈ startedIn t.one.events := by
  obtain ⟨slot, check, during, rfl⟩ := late
  obtain opens | ⟨event, happened, same⟩ | behind := Round.told_cases inside
  · unfold Round.opening at opens
    split at opens <;> cases opens
  · cases same
    exact ⟨check, List.mem_filterMap.mpr ⟨_, happened, rfl⟩⟩
  · obtain ⟨error, drops⟩ | ⟨phase, _, done⟩ := Round.ending_cases behind
    · cases drops
    · cases done

theorem phase_not_late (plain : d.Does Deed.Plain) {r : Round σ} (steps : r.Steps d limit)
    (inPhase : r.phase ≠ none) (inside : e ∈ r.events) : ¬ e.BeginsLate := by
  intro late
  rw [Round.events_told] at inside
  rcases List.mem_append.mp inside with head | body
  · obtain ⟨slot, check, during, rfl⟩ := late
    cases Round.heading_slot head
  · obtain ⟨t, among, told⟩ := List.mem_flatMap.mp body
    obtain ⟨check, started⟩ := told_late told late
    rcases steps t among with ⟨p, known, _, ran⟩ | ⟨final, _⟩
    · cases (advance_in_order plain known ran).2 _ started
    · exact inPhase final

theorem last_no_phase {r : Round σ} (final : r.phase = none) (inside : e ∈ r.events) :
    e.inPhases = false := by
  rw [Round.events_told] at inside
  rcases List.mem_append.mp inside with head | body
  · obtain ⟨phase, other, _⟩ := Round.heading_cases head
    rw [final] at other
    cases other
  · obtain ⟨t, _, told⟩ := List.mem_flatMap.mp body
    obtain rfl | ⟨event, _, rfl⟩ | behind := Round.told_cases told
    · rw [Round.opening, final]
      rfl
    · rfl
    · obtain ⟨error, rfl⟩ | ⟨phase, other, _⟩ := Round.ending_cases behind
      · rw [final]
        rfl
      · rw [final] at other
        cases other

theorem rounds_phases (going : Rounds d limit stage phases live shared rounds survivors after) :
    rounds.Pairwise fun first _ => first.phase ≠ none := by
  induction going with
  | last stage made turns => exact List.pairwise_singleton _ _
  | next stage p made turns later ih => exact List.pairwise_cons.mpr ⟨fun _ _ => nofun, ih⟩

theorem rounds_late (plain : d.Does Deed.Plain)
    (going : Rounds d limit 0 d.ordered live shared rounds survivors after) :
    (rounds.flatMap Round.events).Pairwise fun e f => e.BeginsLate → f.inPhases = false := by
  have steps := rounds_steps going
  refine List.pairwise_flatMap.mpr ⟨?_, (rounds_phases going).imp_of_mem ?_⟩
  · intro r inside
    apply List.pairwise_of_forall_mem_list
    intro e first f second late
    by_cases final : r.phase = none
    · exact last_no_phase final second
    · exact absurd late (phase_not_late plain (steps r inside) final first)
  · intro r _ inside _ inPhase e here f _ late
    exact absurd late (phase_not_late plain (steps r inside) inPhase here)

def Settled (point : CheckPoint) (unit : CompilationUnit) (events : List UnitEvent) : Prop :=
  unit.checks.waiting point = [] ∧ ofPoint point (startedIn events) = ofPoint point (queuedIn events)

theorem advance_obeys (plain : d.Does Deed.Plain) (limit : Nat) :
    ∀ p ∈ d.ordered, StepObeys (d.advance limit p) ChecksInOrder :=
  fun _ known _ _ _ ran => (advance_in_order plain known ran).1

theorem finish_obeys (plain : d.Does Deed.Plain) (limit : Nat) :
    StepObeys (d.finish limit) ChecksInOrder :=
  fun _ _ _ ran => finish_in_order plain ran

def TypersSettle (rounds : List (Round σ)) : Prop :=
  ∀ earlier typer next later, rounds = earlier ++ typer :: next :: later →
    typer.phase = some .typer → ∀ t ∈ next.turns, Settled .postTyper t.seat.unit
      (historyOf t.seat.slot ((earlier ++ [typer]).flatMap Round.events))

def Round.TyperFirst (r : Round σ) : Prop :=
  r.phase = none → ∀ t ∈ r.turns, ∀ told check during later,
    t.one.events = told ++ .started .postUnit check during :: later →
    t.seat.unit.checks.waiting .postTyper <+: ofPoint .postTyper (startedIn told)

theorem rounds_settle (plain : d.Does Deed.Plain)
    (going : Rounds d limit 0 d.ordered (Driver.seats sources) shared rounds survivors after) :
    TypersSettle rounds := by
  intro earlier typer next later split kind t inside
  have emptied : t.seat.unit.checks.waiting .postTyper = [] := by
    obtain ⟨before, among, passed, same⟩ := survivor_turn (rounds_next going split inside)
    rw [same]
    have here : typer ∈ rounds := split ▸ List.mem_append_right _ List.mem_cons_self
    obtain ⟨p, _, itself, ran⟩ | ⟨final, _⟩ := rounds_steps going typer here before among
    · rw [kind] at itself
      exact advance_empties (Option.some.inj itself).symm ran passed
    · rw [kind] at final
      cases final
  refine ⟨emptied, ?_⟩
  have again : rounds = (earlier ++ [typer]) ++ next :: later := by
    rw [split, List.append_assoc]
    rfl
  obtain ⟨start, known, _, course⟩ := turn_course checks_lawful going (advance_obeys plain limit)
    (seats_unique sources) again inside
  obtain ⟨source, _, fresh⟩ := seats_source known
  have all := course.left .postTyper
  rw [emptied, fresh, List.append_nil] at all
  exact all.symm

theorem rounds_typer_first (plain : d.Does Deed.Plain)
    (going : Rounds d limit 0 d.ordered live shared rounds survivors after) :
    ∀ r ∈ rounds, r.TyperFirst := by
  intro r inside final t among told check during later split
  rcases rounds_steps going r inside t among with ⟨p, _, itself, _⟩ | ⟨_, ran⟩
  · rw [final] at itself
    cases itself
  · exact finish_typer_first plain ran split

theorem rounds_in_order (plain : d.Does Deed.Plain)
    (going : Rounds d limit 0 d.ordered (Driver.seats sources) shared rounds survivors after)
    (slot : Nat) : ∃ left, InOrder (fun _ => [])
      (historyOf slot (rounds.flatMap Round.events)) left := by
  by_cases known : slot ∈ (Driver.seats sources).map (·.slot)
  · obtain ⟨start, inside, rfl⟩ := List.mem_map.mp known
    obtain ⟨unit, course⟩ := slot_course checks_lawful going (advance_obeys plain limit)
      (finish_obeys plain limit) (seats_unique sources) inside
    obtain ⟨source, _, fresh⟩ := seats_source inside
    rw [fresh] at course
    exact ⟨_, course⟩
  · rw [history_apart going known]
    exact ⟨_, .refl _⟩

-- Where the checks of a run are started. They are started at their checkpoint and
-- nowhere else, in the order in which they were queued, and none of a unit that
-- was dropped.
structure ChecksInPlace (d : Driver σ) (limit : Nat) (shared : Shared σ)
    (sources : List SourceFile) (r : RunResult σ) : Prop where
  rounds : ∃ rounds, Rounds d limit 0 d.ordered (Driver.seats sources) shared rounds
      r.report.survivors r.shared ∧
    r.events = rounds.flatMap Round.events ++
      [.finished r.report.survivors.length r.report.failures.length] ∧
    TypersSettle rounds ∧ ∀ round ∈ rounds, round.TyperFirst
  late : r.events.Pairwise fun e f => e.BeginsLate → f.inPhases = false
  once : ∀ slot told, told <+: historyOf slot r.events → ∀ point,
    ofPoint point (startedIn told) <+: ofPoint point (queuedIn told)
  silent : r.events.Pairwise Silences

theorem run_checks_in_place (plain : d.Does Deed.Plain)
    (ran : d.run limit shared sources = some r) : ChecksInPlace d limit shared sources r := by
  obtain ⟨rounds, going, _, events⟩ := run_rounds ran
  refine ⟨⟨rounds, going, events, rounds_settle plain going, rounds_typer_first plain going⟩,
    ?_, ?_, ?_⟩
  · rw [events]
    refine List.pairwise_append.mpr ⟨rounds_late plain going, List.pairwise_singleton _ _, ?_⟩
    intro e _ f last _
    rw [List.mem_singleton.mp last]
    rfl
  · intro slot told early
    have same : historyOf slot r.events = historyOf slot (rounds.flatMap Round.events) := by
      rw [events, historyOf_append]
      exact List.append_nil _
    obtain ⟨left, order⟩ := rounds_in_order plain going slot
    rw [same] at early
    exact order.started told early
  · exact run_silent ran

def preparing (kind : Phase) : CompilerPhase Nat :=
  ⟨kind, fun seen => .change (.queueCheck .postTyper (.validate "a" none "m")) fun _ =>
    .change (.queueCheck .postUnit .syntheticsDrained) fun _ => .done (.ok (), seen)⟩

def doubling : Runner Nat := fun seen check =>
  match check with
  | .validate .. =>
    .change (.queueCheck .postTyper .syntheticsDrained) fun _ =>
      .change (.queueCheck .postTyper .syntheticsDrained) fun _ => .done (.ok (), seen + 1)
  | _ => .done (if seen = 4 then .error (.failed "drain" "late") else .ok (), seen + 1)

def checking : Driver Nat := ⟨[preparing .backend, preparing .typer, preparing .typer], doubling⟩

theorem queue_plain (point : CheckPoint) (check : DeferredCheck) :
    Deed.Plain (.change (.queueCheck point check)) := ⟨nofun, nofun⟩

theorem checking_plain : checking.Does Deed.Plain := by
  refine ⟨?_, ?_⟩
  · intro seen check
    cases check with
    | validate => exact ⟨queue_plain _ _, fun _ => ⟨queue_plain _ _, fun _ => True.intro⟩⟩
    | _ => exact True.intro
  · intro p known state
    simp only [checking, List.mem_cons, List.not_mem_nil, or_false] at known
    rcases known with rfl | rfl | rfl <;>
      exact ⟨queue_plain _ _, fun _ => ⟨queue_plain _ _, fun _ => True.intro⟩⟩

-- Two typers and a phase behind them. The unit in the middle is dropped in the
-- drain of the first typer, with one check for the typer and one for the unit left.
theorem checking_in_place : ∃ r, checking.run 3 ⟨{}, 0⟩ twins = some r ∧
    ChecksInPlace checking 3 ⟨{}, 0⟩ twins r ∧
    r.report.survivors.map (·.slot) = [0, 2, 3] ∧
    startedIn (historyOf 1 r.events) =
      [(.postTyper, .validate "a" none "m"), (.postTyper, .syntheticsDrained)] ∧
    queuedIn (historyOf 1 r.events) =
      [(.postTyper, .validate "a" none "m"), (.postUnit, .syntheticsDrained),
        (.postTyper, .syntheticsDrained), (.postTyper, .syntheticsDrained)] := by
  have told : (checking.run 3 ⟨{}, 0⟩ twins).map (fun r => (r.report.survivors.map (·.slot),
      startedIn (historyOf 1 r.events), queuedIn (historyOf 1 r.events))) =
      some ([0, 2, 3], [(.postTyper, .validate "a" none "m"), (.postTyper, .syntheticsDrained)],
        [(.postTyper, .validate "a" none "m"), (.postUnit, .syntheticsDrained),
          (.postTyper, .syntheticsDrained), (.postTyper, .syntheticsDrained)]) := rfl
  obtain ⟨r, ran, ends⟩ := Option.map_eq_some_iff.mp told
  obtain ⟨units, rest⟩ := Prod.mk.inj ends
  obtain ⟨started, queued⟩ := Prod.mk.inj rest
  exact ⟨r, ran, run_checks_in_place checking_plain ran, units, started, queued⟩

end UnitPipeline
