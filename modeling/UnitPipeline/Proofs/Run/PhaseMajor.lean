import UnitPipeline.Proofs.Run.Partition
import UnitPipeline.Proofs.Run.Step
import UnitPipeline.Proofs.Run.Telling
import UnitPipeline.Proofs.Unit.Moment

namespace UnitPipeline
variable {σ : Type} {d : Driver σ}

structure Call where
  stage : Nat
  slot : Nat
  phase : Phase
  during : Phase
  deriving DecidableEq, Repr

def RunEvent.call? : RunEvent → Option Call
  | visit slot stage phase during => some ⟨stage, slot, phase, during⟩
  | _ => none

def callsOf (events : List RunEvent) : List Call := events.filterMap RunEvent.call?

def RunEvent.finished? : RunEvent → Option Nat
  | phaseDone slot .. => some slot
  | _ => none

def finishedIn (slot : Nat) (events : List RunEvent) : Nat :=
  (events.filterMap RunEvent.finished?).count slot

def upTo : Nat → List RunEvent → List RunEvent
  | _, [] => []
  | 0, .entering .. :: _ => []
  | stage + 1, .entering phase units :: later => .entering phase units :: upTo stage later
  | stage, e :: later => e :: upTo stage later

def liveAt (units : List Nat) (stage : Nat) (events : List RunEvent) : List Nat :=
  units.filter fun slot => slot ∉ droppedIn (upTo stage events)

@[simp] theorem callsOf_append (a b : List RunEvent) : callsOf (a ++ b) = callsOf a ++ callsOf b :=
  List.filterMap_append ..

@[simp] theorem finishedIn_append (slot : Nat) (a b : List RunEvent) :
    finishedIn slot (a ++ b) = finishedIn slot a + finishedIn slot b := by
  simp [finishedIn]

theorem ending_calls (r : Round σ) (t : Turn σ) : callsOf (r.ending t) = [] := by
  unfold Round.ending
  split
  · rfl
  · split <;> rfl

theorem told_calls (r : Round σ) (t : Turn σ) : callsOf (r.told t) = callsOf [r.opening t] := by
  have work : callsOf (t.one.events.map (RunEvent.within t.seat.slot)) = [] := by
    apply List.filterMap_eq_nil_iff.mpr
    intro e inside
    obtain ⟨event, _, rfl⟩ := List.mem_map.mp inside
    rfl
  unfold Round.told
  rw [callsOf_append, ending_calls, List.append_nil, ← List.singleton_append, callsOf_append, work,
    List.append_nil]

theorem round_calls (r : Round σ) :
    callsOf r.events = r.turns.flatMap fun t => callsOf [r.opening t] := by
  have none : callsOf r.heading = [] := by
    unfold Round.heading
    split <;> rfl
  rw [Round.events_told, callsOf_append, none, List.nil_append]
  exact List.filterMap_flatMap.trans (congrArg r.turns.flatMap (funext (told_calls r)))

theorem phase_calls (stage : Nat) (phase : Phase) (made : List (Turn σ)) :
    callsOf (Round.events ⟨stage, some phase, made⟩) =
      made.map fun t => ⟨stage, t.seat.slot, phase, t.found.session.phase⟩ := by
  rw [round_calls, List.map_eq_flatMap]
  rfl

theorem last_calls (stage : Nat) (made : List (Turn σ)) :
    callsOf (Round.events ⟨stage, none, made⟩) = [] := by
  rw [round_calls]
  exact List.flatMap_eq_nil_iff.mpr fun _ _ => rfl

theorem upTo_past (told : ∀ e ∈ here, e.slot? ≠ none) (stage : Nat) (later : List RunEvent) :
    upTo stage (here ++ later) = here ++ upTo stage later := by
  induction here with
  | nil => rfl
  | cons e rest ih =>
    have others := ih fun f inside => told f (List.mem_cons_of_mem _ inside)
    cases e with
    | entering => exact absurd rfl (told _ List.mem_cons_self)
    | _ => cases stage <;> simp [upTo, others]

theorem Round.survivors_live {r : Round σ} (unique : r.slots.Nodup) :
    (r.slots.filter fun slot => slot ∉ droppedIn r.events) = r.survivors.map (·.slot) := by
  rw [events_dropped, survivors, survivor_slots, slots, List.filter_map]
  refine congrArg (List.map _) (List.filter_congr ?_)
  intro t inside
  rcases verdict : t.one.result with error | ⟨⟩
  · have failed := List.mem_map_of_mem (f := UnitFailure.slot) (failure_mem inside verdict)
    simpa [Turn.passed, verdict] using failed
  · have survived := List.mem_map_of_mem (f := Seat.slot) (survivor_mem inside verdict)
    have kept : t.seat.slot ∉ r.failures.map (·.slot) := by
      intro also
      obtain ⟨failure, failed, same⟩ := List.mem_map.mp also
      exact failed_apart unique failed (same ▸ survived)
    simpa [Turn.passed, verdict] using kept

theorem liveAt_next {made : List (Turn σ)}
    (unique : (Round.slots ⟨stage, some phase, made⟩).Nodup) (k : Nat) (later : List RunEvent) :
    liveAt (Round.slots ⟨stage, some phase, made⟩) (k + 1)
        (Round.events ⟨stage, some phase, made⟩ ++ later) =
      liveAt ((Round.survivors ⟨stage, some phase, made⟩).map (·.slot)) k later := by
  let r : Round σ := ⟨stage, some phase, made⟩
  have body : ∀ e ∈ r.turns.flatMap r.told, e.slot? ≠ none := by
    intro e inside
    obtain ⟨t, _, told⟩ := List.mem_flatMap.mp inside
    rw [Round.told_slot told]
    exact Option.some_ne_none _
  have past : upTo (k + 1) (r.events ++ later) = r.events ++ upTo k later := by
    rw [Round.events_told]
    exact congrArg (_ :: ·) (upTo_past body k later)
  unfold liveAt
  rw [past, droppedIn_append, ← Round.survivors_live unique, List.filter_filter]
  apply List.filter_congr
  intro slot _
  rw [← Bool.decide_and]
  apply decide_eq_decide.mpr
  rw [List.mem_append, not_or]
  exact and_comm

theorem liveAt_first (units : List Nat) (stage : Nat) (phase : Phase) (made : List (Turn σ))
    (later : List RunEvent) :
    liveAt units 0 (Round.events ⟨stage, some phase, made⟩ ++ later) = units :=
  List.filter_eq_self.mpr fun _ _ => decide_eq_true List.not_mem_nil

theorem Turns.inPhase {step : Shared σ → CompilationUnit → Option (Advance σ)} {shared : Shared σ}
    (turns : Turns step live (shared.entering phase) made last) (stays : StepLasts step SamePhase) :
    (∀ t ∈ made, t.found.session.phase = phase) ∧ last.session.phase = phase :=
  turns.keeps (fun now => now.session.phase = phase)
    (fun now unit one here took => (stays now unit one took).trans here) rfl

theorem rounds_calls (going : Rounds d limit stage phases live shared rounds survivors after)
    (stays : ∀ p ∈ phases, StepLasts (d.advance limit p) SamePhase) (unique : (live.map (·.slot)).Nodup)
    (later : List RunEvent) :
    callsOf (rounds.flatMap Round.events) = phases.zipIdx.flatMap fun entry =>
      (liveAt (live.map (·.slot)) entry.2 (rounds.flatMap Round.events ++ later)).map fun slot =>
        ⟨stage + entry.2, slot, entry.1.phase, entry.1.phase⟩ := by
  induction going with
  | last stage made turns =>
    rw [List.flatMap_singleton]
    exact last_calls stage made
  | next stage p made turns others ih =>
    have slots := turns.slots stage (some p.phase)
    rw [← slots] at unique ⊢
    have now := (turns.inPhase (stays p List.mem_cons_self)).1
    have onwards := ih (fun q known => stays q (List.mem_cons_of_mem _ known))
      ((Round.survivors_sublist _).nodup unique)
    rw [List.zipIdx_cons, List.flatMap_cons, List.flatMap_cons, callsOf_append, phase_calls]
    refine congrArg₂ (· ++ ·) ?_ ?_
    · dsimp only
      rw [List.append_assoc, liveAt_first, Round.slots, List.map_map]
      refine List.map_congr_left fun t inside => ?_
      rw [now t inside]
      rfl
    · rw [onwards, Nat.zero_add, List.zipIdx_succ, List.flatMap_map]
      refine congrArg (List.flatMap · _) (funext fun entry => ?_)
      dsimp only
      rw [List.append_assoc, liveAt_next unique, Nat.succ_add_eq_add_succ]

theorem rounds_stages (going : Rounds d limit stage phases live shared rounds survivors after)
    (fits : stage + phases.length = total) (unique : (live.map (·.slot)).Nodup)
    (inside : slot ∈ live.map (·.slot)) : ∃ n, stage + n ≤ total + 1 ∧
      stagesOf total slot (rounds.flatMap Round.events) = List.range' stage n := by
  induction going with
  | last stage made turns =>
    rw [← turns.slots stage none] at unique inside
    obtain ⟨t, among, rfl⟩ := List.mem_map.mp inside
    refine ⟨1, Nat.succ_le_succ (Nat.le_of_eq fits), ?_⟩
    rw [List.flatMap_singleton, round_stages _ _ fun _ => fits, turnsOf_alone _ among unique]
    rfl
  | next stage p made turns later ih =>
    have shifted := (Nat.succ_add_eq_add_succ ..).trans fits
    rw [← turns.slots stage (some p.phase)] at unique inside
    obtain ⟨t, among, rfl⟩ := List.mem_map.mp inside
    have here : stagesOf total t.seat.slot (Round.events ⟨stage, some p.phase, made⟩) = [stage] :=
      (round_stages _ _ fun final => by cases final).trans (turnsOf_alone _ among unique)
    rw [List.flatMap_cons, stagesOf_append, here]
    by_cases goes : t.seat.slot ∈ (Round.survivors ⟨stage, some p.phase, made⟩).map (·.slot)
    · obtain ⟨n, below, others⟩ := ih shifted ((Round.survivors_sublist _).nodup unique) goes
      refine ⟨n + 1, by omega, ?_⟩
      rw [others]
      rfl
    · have silent := stages_apart later goes
      rw [shifted] at silent
      refine ⟨1, by omega, ?_⟩
      rw [silent]
      rfl

theorem survivor_finished {made : List (Turn σ)}
    (survived : slot ∈ (Round.survivors ⟨stage, some phase, made⟩).map (·.slot)) :
    1 ≤ finishedIn slot (Round.events ⟨stage, some phase, made⟩) := by
  obtain ⟨seat, found, rfl⟩ := List.mem_map.mp survived
  obtain ⟨t, inside, passed, rfl⟩ := survivor_turn found
  apply List.count_pos_iff.mpr
  refine List.mem_filterMap.mpr ⟨.phaseDone t.seat.slot t.one.unit.display phase, ?_, rfl⟩
  rw [Round.events_told]
  refine List.mem_append_right _ (List.mem_flatMap.mpr ⟨t, inside, List.mem_append_right _ ?_⟩)
  simp [Round.ending, passed]

-- Who takes up a unit at a stage does so when every unit of the run has been
-- dropped or has come through all earlier stages.
theorem rounds_barrier (going : Rounds d limit stage phases live shared rounds survivors after)
    (unique : (live.map (·.slot)).Nodup) (silent : callsOf tail = [])
    (split : rounds.flatMap Round.events ++ tail = told ++ .visit slot k phase during :: later) :
    stage ≤ k ∧ ∀ other ∈ live.map (·.slot),
      other ∈ droppedIn told ∨ k ≤ stage + finishedIn other told := by
  induction going generalizing told with
  | last stage made turns =>
    have none := congrArg callsOf split
    rw [List.flatMap_singleton, callsOf_append, last_calls, silent, callsOf_append] at none
    cases (List.append_eq_nil_iff.mp none.symm).2
  | next stage p made turns others ih =>
    rw [← turns.slots stage (some p.phase)] at unique ⊢
    rw [List.flatMap_cons, List.append_assoc] at split
    rcases split_part split with ⟨rest, here⟩ | ⟨between, rfl, behind⟩
    · -- The visit belongs to this round, and its stage is that of the round.
      have call : ⟨k, slot, phase, during⟩ ∈ callsOf (Round.events ⟨stage, some p.phase, made⟩) := by
        rw [here, callsOf_append]
        exact List.mem_append_right _ List.mem_cons_self
      rw [phase_calls] at call
      obtain ⟨t, _, same⟩ := List.mem_map.mp call
      cases same
      exact ⟨Nat.le_refl _, fun _ _ => Or.inr (Nat.le_add_right _ _)⟩
    · obtain ⟨beyond, passed⟩ := ih ((Round.survivors_sublist _).nodup unique) behind
      refine ⟨by omega, ?_⟩
      intro other inside
      rw [droppedIn_append, finishedIn_append]
      by_cases goes : other ∈ (Round.survivors ⟨stage, some p.phase, made⟩).map (·.slot)
      · have done := survivor_finished goes
        rcases passed other goes with dropped | finished
        · exact Or.inl (List.mem_append_right _ dropped)
        · exact Or.inr (by omega)
      · refine Or.inl (List.mem_append_left _ ?_)
        rw [← Round.survivors_live unique, List.mem_filter] at goes
        simpa [inside] using goes

theorem rounds_end (going : Rounds d limit stage phases live shared rounds survivors after)
    (stays : StepLasts (d.finish limit) SamePhase) : after.session.phase = .terminal := by
  induction going with
  | last stage made turns => exact (turns.inPhase stays).2
  | next stage p made turns others ih => exact ih

-- The session is in the phase's own phase at every moment of a turn: of the call
-- and, after the typer, of the drain that follows it.
def Driver.AdvanceDuring (d : Driver σ) (limit : Nat) (p : CompilerPhase σ) (shared : Shared σ)
    (unit : CompilationUnit) : Prop :=
  (p.run shared.state).During p.phase (drain d.runner limit) (DrainDuring p.phase d.runner limit)
      ⟨shared.session, unit⟩ ∧
    ∀ out, (p.run shared.state).run (drain d.runner limit) ⟨shared.session, unit⟩ = some out →
      out.value.1 = .ok () → p.phase = .typer →
      DrainDuring p.phase d.runner limit .postTyper out.value.2 out.desk

def Driver.FinishDuring (d : Driver σ) (limit : Nat) (shared : Shared σ) (unit : CompilationUnit) :
    Prop :=
  DrainDuring .terminal d.runner limit .postTyper shared.state ⟨shared.session, unit⟩ ∧
    ∀ out, drain d.runner limit .postTyper shared.state ⟨shared.session, unit⟩ = some out →
      DrainDuring .terminal d.runner limit .postUnit out.value.2 out.desk

def Round.During (d : Driver σ) (limit : Nat) (r : Round σ) : Prop :=
  match d.ordered[r.stage]? with
  | some p => r.phase = some p.phase ∧
      ∀ t ∈ r.turns, d.AdvanceDuring limit p t.found t.seat.unit
  | none => r.phase = none ∧ ∀ t ∈ r.turns, d.FinishDuring limit t.found t.seat.unit

theorem advance_during (stays : d.Does Deed.Staying) (known : p ∈ d.ordered)
    (here : shared.session.phase = p.phase) : d.AdvanceDuring limit p shared unit := by
  have calm := drainFrom_obeys staying_lasts stays.1 limit 0
  have phase := ordered_does stays known shared.state
  refine ⟨action_during calm (fun _ _ _ now => drain_during stays.1 now) phase here, ?_⟩
  intro out ran _ _
  have same := action_obeys staying_lasts.toLasting (fun _ => calm) phase ran
  exact drain_during stays.1 (same.trans here)

theorem finish_during (stays : d.Does Deed.Staying) (here : shared.session.phase = .terminal) :
    d.FinishDuring limit shared unit := by
  refine ⟨drain_during stays.1 here, ?_⟩
  intro out ran
  have same := drainFrom_obeys staying_lasts stays.1 limit 0 _ _ _ out ran
  exact drain_during stays.1 (same.trans here)

theorem rounds_during (stays : d.Does Deed.Staying)
    (going : Rounds d limit 0 d.ordered live shared rounds survivors after) :
    ∀ r ∈ rounds, r.During d limit := by
  refine rounds_each going ?_ ?_
  · intro k p live shared made last found turns
    have known : p ∈ d.ordered := List.mem_of_getElem? found
    have lasts := advance_lasts staying_lasts stays.1 (ordered_does stays known) limit
    have here := (turns.inPhase lasts).1
    simp only [Round.During, Nat.zero_add, found]
    exact ⟨trivial, fun t inside => advance_during stays known (here t inside)⟩
  · intro live shared made last turns
    have here := (turns.inPhase (finish_lasts staying_lasts stays.1 limit)).1
    have beyond : d.ordered[0 + d.ordered.length]? = none := by simp
    simp only [Round.During, beyond]
    exact ⟨trivial, fun t inside => finish_during stays (here t inside)⟩

-- A run goes through the sorted phases one after the other, each over all units
-- that are left.
structure PhaseMajor (d : Driver σ) (limit : Nat) (shared : Shared σ) (sources : List SourceFile)
    (r : RunResult σ) : Prop where
  allPhases : d.ordered.Perm d.phases
  sorted : d.ordered.Pairwise fun p q => p.phase.rank ≤ q.phase.rank
  stable : ∀ kind, (d.ordered.filter fun p => p.phase = kind) =
    d.phases.filter fun p => p.phase = kind
  -- phase by phase one call for each unit not dropped before, in the order of the
  -- sources, and the session is then in the phase of that phase
  calls : callsOf r.events = d.ordered.zipIdx.flatMap fun (p, stage) =>
    (liveAt (List.range sources.length) stage r.events).map fun slot =>
      ⟨stage, slot, p.phase, p.phase⟩
  -- the stages of a unit, the final drains as the last one, have no gap
  firstStages : ∀ slot < sources.length, ∃ n ≤ d.ordered.length + 1,
    stagesOf d.ordered.length slot r.events = List.range n
  silent : r.events.Pairwise Silences
  barrier : ∀ told slot stage phase during later,
    r.events = told ++ .visit slot stage phase during :: later →
    ∀ other < sources.length, other ∈ droppedIn told ∨ stage ≤ finishedIn other told
  during : ∃ rounds, Rounds d limit 0 d.ordered (Driver.seats sources) shared rounds
      r.report.survivors r.shared ∧
    r.events = rounds.flatMap Round.events ++
      [.finished r.report.survivors.length r.report.failures.length] ∧
    ∀ round ∈ rounds, round.During d limit
  ended : r.shared.session.phase = .terminal

theorem run_phase_major (stays : d.Does Deed.Staying)
    (ran : d.run limit shared sources = some r) : PhaseMajor d limit shared sources r := by
  obtain ⟨rounds, going, _, events⟩ := run_rounds ran
  have unique := seats_unique sources
  have slots := seats_slots sources
  have steps : ∀ p ∈ d.ordered, StepLasts (d.advance limit p) SamePhase := fun p known =>
    advance_lasts staying_lasts stays.1 (ordered_does stays known) limit
  have finals := finish_lasts staying_lasts stays.1 limit
  refine ⟨ordered_perm d, ordered_sorted d, ordered_stable d, ?_, ?_, ?_, ?_, ?_,
    rounds_end going finals⟩
  · have calls := rounds_calls going steps unique
      [.finished r.report.survivors.length r.report.failures.length]
    rw [← events, slots] at calls
    rw [events, callsOf_append, ← events, calls]
    simp only [Nat.zero_add]
    exact List.append_nil _
  · intro slot below
    have inside : slot ∈ (Driver.seats sources).map (·.slot) := by
      rw [slots]
      exact List.mem_range.mpr below
    obtain ⟨n, bound, stages⟩ := rounds_stages going (Nat.zero_add _) unique inside
    refine ⟨n, by omega, ?_⟩
    rw [events, stagesOf_append, stages, List.range_eq_range']
    exact List.append_nil _
  · exact run_silent ran
  · intro told slot stage phase during later split other below
    rw [events] at split
    have inside : other ∈ (Driver.seats sources).map (·.slot) := by
      rw [slots]
      exact List.mem_range.mpr below
    have passed := (rounds_barrier going unique rfl split).2 other inside
    rwa [Nat.zero_add] at passed
  · exact ⟨rounds, going, events, rounds_during stays going⟩

def queueing (kind : Phase) : CompilerPhase Nat :=
  ⟨kind, fun seen => .change (.queueCheck .postTyper .syntheticsDrained) fun _ =>
    .done (.ok (), seen + 1)⟩

def doubled : Driver Nat :=
  ⟨[refusing .typer 9, queueing .namer, queueing .typer, refusing .namer 4],
    fun seen _ => .done (.ok (), seen)⟩

theorem doubled_stays : doubled.Does Deed.Staying := by
  refine ⟨fun _ _ => True.intro, ?_⟩
  intro p known state
  simp only [doubled, List.mem_cons, List.not_mem_nil, or_false] at known
  rcases known with rfl | rfl | rfl | rfl
  · exact True.intro
  · exact ⟨nofun, fun _ => True.intro⟩
  · exact ⟨nofun, fun _ => True.intro⟩
  · exact True.intro

theorem doubled_phase_major : ∃ r, doubled.run 2 ⟨{}, 0⟩ twins = some r ∧
    PhaseMajor doubled 2 ⟨{}, 0⟩ twins r ∧
    (callsOf r.events).map (fun c => (c.stage, c.slot)) =
      [(0, 0), (0, 1), (0, 2), (0, 3), (1, 0), (1, 1), (1, 2), (1, 3), (2, 1), (2, 2), (2, 3),
        (3, 1), (3, 3)] := by
  have told : (doubled.run 2 ⟨{}, 0⟩ twins).map (fun r =>
      (callsOf r.events).map fun c => (c.stage, c.slot)) =
      some [(0, 0), (0, 1), (0, 2), (0, 3), (1, 0), (1, 1), (1, 2), (1, 3), (2, 1), (2, 2), (2, 3),
        (3, 1), (3, 3)] := rfl
  obtain ⟨r, ran, calls⟩ := Option.map_eq_some_iff.mp told
  exact ⟨r, ran, run_phase_major doubled_stays ran, calls⟩

end UnitPipeline
