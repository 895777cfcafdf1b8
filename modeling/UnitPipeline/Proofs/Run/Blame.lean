import UnitPipeline.Proofs.Check.FirstFailure
import UnitPipeline.Proofs.Run.Partition
import UnitPipeline.Proofs.Run.Passage
import UnitPipeline.Proofs.Run.Step
import UnitPipeline.Proofs.Run.Way
import UnitPipeline.Proofs.Unit.Throughout

namespace UnitPipeline
variable {σ : Type} {d : Driver σ}

def DriverError.unit? : DriverError → Option String
  | missingBody name => some name
  | phase _ name _ => some name
  | unit (.checkFailed name _) => some name
  | source _ => none

def DriverError.Fits (filed : Phase) : DriverError → Prop
  | missingBody _ => filed = .parser
  | phase kind _ _ => filed = kind
  | unit _ => filed = .typer ∨ filed = .terminal
  | source _ => False

namespace Driver

def call (d : Driver σ) (limit : Nat) (p : CompilerPhase σ) (shared : Shared σ)
    (unit : CompilationUnit) : Option (Outcome (Except PhaseError Unit × σ)) :=
  (p.run shared.state).run (drain d.runner limit) ⟨shared.session, unit⟩

structure Stops (d : Driver σ) (limit : Nat) (point : CheckPoint) (state : σ) (desk : Desk)
    (failure : CheckFailure) : Prop where
  ends : (drain d.runner limit point state desk).map (·.value.1) =
    some (.error (.checkFailed desk.unit.display failure))
  first : FirstFailure d.runner point failure [] state desk

end Driver

inductive Blame (d : Driver σ) (limit : Nat) (shared : Shared σ) (unit : CompilationUnit) :
    Option (CompilerPhase σ) → DriverError → Prop where
  | refused (called : d.call limit p shared unit = some out)
      (answered : out.value.1 = .error cause) :
      Blame d limit shared unit (some p) (.phase p.phase unit.display cause)
  | bodiless (called : d.call limit p shared unit = some out) (passed : out.value.1 = .ok ())
      (parser : p.phase = .parser) (present : unit.isPresent = true)
      (empty : out.desk.unit.body = none) :
      Blame d limit shared unit (some p) (.missingBody unit.display)
  | typed {failure : CheckFailure} (called : d.call limit p shared unit = some out)
      (passed : out.value.1 = .ok ()) (typer : p.phase = .typer)
      (stops : d.Stops limit .postTyper out.value.2 out.desk failure) :
      Blame d limit shared unit (some p) (.unit (.checkFailed unit.display failure))
  | lastTyper {failure : CheckFailure}
      (stops : d.Stops limit .postTyper shared.state ⟨shared.session, unit⟩ failure) :
      Blame d limit shared unit none (.unit (.checkFailed unit.display failure))
  | lastUnit {failure : CheckFailure}
      (drained : drain d.runner limit .postTyper shared.state ⟨shared.session, unit⟩ = some out)
      (passed : out.value.1 = .ok ran)
      (stops : d.Stops limit .postUnit out.value.2 out.desk failure) :
      Blame d limit shared unit none (.unit (.checkFailed unit.display failure))

theorem Blame.named (blame : Blame d limit shared unit p error) :
    error.unit? = some unit.display := by
  cases blame <;> rfl

theorem Blame.fits (blame : Blame d limit shared unit p error) :
    error.Fits ((p.map (·.phase)).getD .terminal) := by
  cases blame with
  | refused _ _ => rfl
  | bodiless _ _ parser _ _ => exact parser
  | typed _ _ typer _ => exact Or.inl typer
  | lastTyper _ => exact Or.inr rfl
  | lastUnit _ _ _ => exact Or.inr rfl

theorem drain_display (drained : drain d.runner limit point state desk = some out) :
    out.desk.unit.display = desk.unit.display :=
  congrArg SourceFile.display (work_source (drain_work d.runner limit _ _ _ out drained []))

theorem call_display (called : d.call limit p shared unit = some out) :
    out.desk.unit.display = unit.display := action_display (drain_work d.runner limit) _ called

theorem call_present (called : d.call limit p shared unit = some out) :
    out.desk.unit.isPresent = unit.isPresent := by
  have same := work_source (action_work (drain_work d.runner limit) _ called [])
  exact congrArg SourceFile.isPresent same

theorem drainUnit_failed (ran : d.drainUnit limit point shared unit = some one)
    (failed : one.result = .error error) : ∃ failure,
      error = .unit (.checkFailed unit.display failure) ∧
        d.Stops limit point shared.state ⟨shared.session, unit⟩ failure := by
  obtain ⟨out, drained, rfl⟩ := Option.map_eq_some_iff.mp ran
  rcases verdict : out.value.1 with cause | ran
  · simp only [verdict] at failed
    cases failed
    obtain ⟨failure, rfl, first⟩ := drainFrom_first_failure drained verdict
    refine ⟨failure, rfl, ?_, first⟩
    rw [drained, Option.map_some, verdict]
  · simp only [verdict] at failed
    cases failed

theorem drainUnit_stops {failure : CheckFailure}
    (stops : d.Stops limit point state ⟨session, unit⟩ failure) : ∃ one,
    d.drainUnit limit point ⟨session, state⟩ unit = some one ∧
      one.result = .error (.unit (.checkFailed unit.display failure)) := by
  obtain ⟨out, drained, verdict⟩ := Option.map_eq_some_iff.mp stops.ends
  exact ⟨_, drainUnit_of drained, by simp only [verdict]⟩

theorem advance_failed (ran : d.advance limit p shared unit = some one)
    (failed : one.result = .error error) : Blame d limit shared unit (some p) error := by
  obtain ⟨out, called, settled⟩ := Option.bind_eq_some_iff.mp ran
  have named := call_display called
  rcases verdict : out.value.1 with cause | ⟨⟩
  · simp only [verdict] at settled
    cases settled
    cases failed
    rw [named]
    exact .refused called verdict
  · simp only [verdict] at settled
    split at settled
    · rename_i bodiless
      cases settled
      cases failed
      simp only [Bool.and_eq_true, decide_eq_true_eq, Option.isNone_iff_eq_none] at bodiless
      obtain ⟨⟨parser, present⟩, empty⟩ := bodiless
      rw [named]
      exact .bodiless called verdict parser ((call_present called).symm.trans present) empty
    · split at settled
      · rename_i typer
        obtain ⟨_, stopped, _⟩ | ⟨_, last, later, rfl⟩ := andThen_cases settled
        · cases stopped
        · obtain ⟨failure, rfl, stops⟩ := drainUnit_failed later failed
          rw [named]
          exact .typed called verdict typer stops
      · cases settled
        cases failed

theorem finish_failed (ran : d.finish limit shared unit = some one)
    (failed : one.result = .error error) : Blame d limit shared unit none error := by
  obtain ⟨first, begun, settled⟩ := finish_cases ran
  obtain ⟨_, _, rfl⟩ | ⟨passed, last, later, rfl⟩ := settled
  · obtain ⟨failure, rfl, stops⟩ := drainUnit_failed begun failed
    exact .lastTyper stops
  · obtain ⟨failure, rfl, stops⟩ := drainUnit_failed later failed
    obtain ⟨out, drained, rfl⟩ := Option.map_eq_some_iff.mp begun
    rw [drain_display drained]
    rcases verdict : out.value.1 with cause | ran
    · simp only [verdict] at passed
      cases passed
    · exact .lastUnit drained verdict stops

theorem Blame.advance (blame : Blame d limit shared unit (some p) error) : ∃ one,
    d.advance limit p shared unit = some one ∧ one.result = .error error := by
  unfold Driver.advance
  cases blame with
  | refused called answered =>
    have named := call_display called
    unfold Driver.call at called
    simp only [called, Option.bind_some, answered]
    exact ⟨_, rfl, by rw [named]⟩
  | bodiless called passed parser present empty =>
    have named := call_display called
    have still := (call_present called).trans present
    unfold Driver.call at called
    simp only [called, Option.bind_some, passed, parser, still, empty, Option.isNone_none,
      decide_true, Bool.and_self, if_true]
    exact ⟨_, rfl, by rw [named]⟩
  | typed called passed typer stops =>
    have named := call_display called
    obtain ⟨last, drained, failed⟩ := drainUnit_stops stops
    unfold Driver.call at called
    simp only [called, Option.bind_some, passed, typer, Driver.Advance.andThen, drained,
      Option.map_some]
    exact ⟨_, rfl, by rw [failed, named]⟩

theorem Blame.finish (blame : Blame d limit shared unit none error) : ∃ one,
    d.finish limit shared unit = some one ∧ one.result = .error error := by
  unfold Driver.finish
  cases blame with
  | lastTyper stops =>
    obtain ⟨first, drained, failed⟩ := drainUnit_stops stops
    simp only [drained, Option.bind_some, Driver.Advance.andThen, failed]
    exact ⟨_, rfl, failed⟩
  | lastUnit drained passed stops =>
    have named := drain_display drained
    obtain ⟨last, later, failed⟩ := drainUnit_stops stops
    simp only [drainUnit_of drained, passed, Option.bind_some, Driver.Advance.andThen, later,
      Option.map_some]
    exact ⟨_, rfl, by rw [failed, named]⟩

-- A round is that of the phase at its place, and drops exactly the units for which
-- there is a reason, each for that reason.
def Round.Blames (d : Driver σ) (limit : Nat) (r : Round σ) : Prop :=
  r.phase = d.ordered[r.stage]?.map (·.phase) ∧ ∀ t ∈ r.turns, ∀ error,
    t.one.result = .error error ↔ Blame d limit t.found t.seat.unit d.ordered[r.stage]? error

theorem failed_iff {p : Option (CompilerPhase σ)}
    {step : Shared σ → CompilationUnit → Option (Advance σ)} (took : step shared unit = some one)
    (blamed : ∀ error, one.result = .error error → Blame d limit shared unit p error)
    (fails : ∀ error, Blame d limit shared unit p error →
      ∃ again, step shared unit = some again ∧ again.result = .error error) (error : DriverError) :
    one.result = .error error ↔ Blame d limit shared unit p error := by
  refine ⟨blamed error, fun blame => ?_⟩
  obtain ⟨again, other, failed⟩ := fails error blame
  cases Option.some.inj (took.symm.trans other)
  exact failed

theorem rounds_blame
    (going : Rounds d limit 0 d.ordered live shared rounds survivors after) :
    ∀ r ∈ rounds, r.Blames d limit := by
  refine rounds_each going ?_ ?_
  · intro k p live shared made last found turns
    simp only [Round.Blames, Nat.zero_add, found, Option.map_some, true_and]
    intro t inside
    have took := turns.took t inside
    exact failed_iff took (fun _ => advance_failed took) fun _ => Blame.advance
  · intro live shared made last turns
    have beyond : d.ordered[0 + d.ordered.length]? = none := by simp
    simp only [Round.Blames, beyond, Option.map_none, true_and]
    intro t inside
    have took := turns.took t inside
    exact failed_iff took (fun _ => finish_failed took) fun _ => Blame.finish

theorem rounds_source (going : Rounds d limit 0 d.ordered live shared rounds survivors after) :
    ∀ r ∈ rounds, ∀ t ∈ r.turns, t.one.unit.source = t.seat.unit.source := by
  refine rounds_each going ?_ ?_
  · intro k p live shared made last _ turns t inside
    exact work_source (turns.work (advance_works d limit p) inside)
  · intro live shared made last turns t inside
    exact work_source (turns.work (finish_works d limit) inside)

theorem failure_named (going : Rounds d limit 0 d.ordered (Driver.seats sources) shared rounds
      survivors after) (failed : f ∈ rounds.flatMap Round.failures) :
    sources[f.slot]?.map SourceFile.display = some f.unit ∧ f.error.unit? = some f.unit ∧
      f.error.Fits f.phase := by
  obtain ⟨start, inside, same, unit, named, course⟩ :=
    failure_course going (seats_unique sources) failed
  obtain ⟨source, known, fresh⟩ := seats_source inside
  refine ⟨?_, ?_⟩
  · rw [← same, known, named, CompilationUnit.display, course_source course, fresh]
    rfl
  · obtain ⟨r, among, here⟩ := List.mem_flatMap.mp failed
    obtain ⟨phase, blames⟩ := rounds_blame going r among
    obtain ⟨t, turn, error, stopped, rfl⟩ := failure_turn here
    have blame := (blames t turn error).mp stopped
    have kept : t.one.unit.display = t.seat.unit.display :=
      congrArg SourceFile.display (rounds_source going r among t turn)
    refine ⟨blame.named.trans (congrArg some kept.symm), ?_⟩
    rw [phase]
    exact blame.fits

def Driver.AdvanceThroughout (good : Desk → Prop) (d : Driver σ) (limit : Nat)
    (p : CompilerPhase σ) (shared : Shared σ) (unit : CompilationUnit) : Prop :=
  (p.run shared.state).Throughout good (drain d.runner limit) (DrainThroughout good d.runner limit)
      ⟨shared.session, unit⟩ ∧
    ∀ out, d.call limit p shared unit = some out → out.value.1 = .ok () → p.phase = .typer →
      DrainThroughout good d.runner limit .postTyper out.value.2 out.desk

def Driver.FinishThroughout (good : Desk → Prop) (d : Driver σ) (limit : Nat) (shared : Shared σ)
    (unit : CompilationUnit) : Prop :=
  DrainThroughout good d.runner limit .postTyper shared.state ⟨shared.session, unit⟩ ∧
    ∀ out, drain d.runner limit .postTyper shared.state ⟨shared.session, unit⟩ = some out →
      DrainThroughout good d.runner limit .postUnit out.value.2 out.desk

def Round.Embodied (d : Driver σ) (limit : Nat) (r : Round σ) : Prop :=
  match d.ordered[r.stage]? with
  | some p => ∀ t ∈ r.turns, t.seat.unit.isPresent = true →
      d.AdvanceThroughout Desk.Embodied limit p t.found t.seat.unit
  | none => ∀ t ∈ r.turns, t.seat.unit.isPresent = true →
      d.FinishThroughout Desk.Embodied limit t.found t.seat.unit

theorem advance_embodied (keeps : d.Does Deed.Keeping) (known : p ∈ d.ordered)
    (body : unit.body.isSome = true) :
    d.AdvanceThroughout Desk.Embodied limit p shared unit := by
  have inside := drainFrom_obeys embodied_lasts keeps.1 limit 0
  have phase := ordered_does keeps known shared.state
  refine ⟨action_throughout embodied_lasts.toLasting inside
    (fun _ _ _ now => drain_throughout embodied_lasts keeps.1 now) phase body, ?_⟩
  intro out called _ _
  exact drain_throughout embodied_lasts keeps.1
    (action_obeys embodied_lasts.toLasting (fun _ => inside) phase called body)

theorem finish_embodied (keeps : d.Does Deed.Keeping) (body : unit.body.isSome = true) :
    d.FinishThroughout Desk.Embodied limit shared unit := by
  refine ⟨drain_throughout embodied_lasts keeps.1 body, ?_⟩
  intro out drained
  exact drain_throughout embodied_lasts keeps.1
    (drainFrom_obeys embodied_lasts keeps.1 limit 0 _ _ _ out drained body)

def CompilationUnit.Parsed (u : CompilationUnit) : Prop :=
  u.isPresent = true → u.body.isSome = true

-- What a parser lets through has a body, and the phases behind it leave it one.
theorem advance_parsed (keeps : d.Does Deed.Keeping) (known : p ∈ d.ordered)
    (ran : d.advance limit p shared unit = some one) (passed : one.result = .ok ())
    (begun : p.phase = .parser ∨ unit.Parsed) : one.unit.Parsed := by
  have same := work_source (advance_works d limit p shared unit one ran)
  intro present
  have before : unit.isPresent = true := (congrArg SourceFile.isPresent same).symm.trans present
  rcases begun with parser | parsed
  · obtain ⟨out, called, settled⟩ := advance_cases ran
    obtain ⟨error, rfl⟩ | ⟨verdict, ⟨_, rfl⟩ | ⟨typer, _⟩⟩ := settled
    · cases passed
    · refine Decidable.byContradiction fun empty => ?_
      have none : out.desk.unit.body = none := Option.not_isSome_iff_eq_none.mp empty
      obtain ⟨other, again, failed⟩ :=
        (Blame.bodiless called verdict parser before none).advance
      cases Option.some.inj (ran.symm.trans again)
      cases failed
    · rw [parser] at typer
      cases typer
  · exact advance_lasts embodied_lasts keeps.1 (ordered_does keeps known) limit _ _ one ran
      (parsed before)

theorem finish_parsed (keeps : d.Does Deed.Keeping)
    (ran : d.finish limit shared unit = some one) (begun : unit.Parsed) : one.unit.Parsed := by
  have same := work_source (finish_works d limit shared unit one ran)
  intro present
  have before : unit.isPresent = true := (congrArg SourceFile.isPresent same).symm.trans present
  exact finish_lasts embodied_lasts keeps.1 limit _ _ one ran (begun before)

theorem rounds_parsed (keeps : d.Does Deed.Keeping) (parsed : Prop)
    (going : Rounds d limit stage phases live shared rounds survivors after)
    (known : ∀ p ∈ phases, p ∈ d.ordered) (begun : parsed → ∀ seat ∈ live, seat.unit.Parsed) :
    (∀ earlier round later, rounds = earlier ++ round :: later →
      parsed ∨ some .parser ∈ earlier.map (·.phase) → ∀ t ∈ round.turns, t.seat.unit.Parsed) ∧
      (parsed ∨ .parser ∈ phases.map (·.phase) → ∀ seat ∈ survivors, seat.unit.Parsed) := by
  induction going generalizing parsed with
  | last stage made turns =>
    refine ⟨?_, ?_⟩
    · intro earlier round later split behind t inside
      cases earlier with
      | nil =>
        obtain ⟨rfl, _⟩ := List.cons.inj split
        exact begun (by simpa using behind) t.seat (turns.seat_mem inside)
      | cons first rest => simp at split
    · intro behind seat survived
      obtain ⟨t, inside, _, rfl⟩ := survivor_turn survived
      exact finish_parsed keeps (turns.took t inside)
        (begun (by simpa using behind) t.seat (turns.seat_mem inside))
  | next stage p made turns others ih =>
    have onwards : parsed ∨ p.phase = .parser →
        ∀ seat ∈ Round.survivors ⟨stage, some p.phase, made⟩, seat.unit.Parsed := by
      intro behind seat survived
      obtain ⟨t, inside, passed, rfl⟩ := survivor_turn survived
      refine advance_parsed keeps (known p List.mem_cons_self) (turns.took t inside) passed ?_
      exact behind.symm.imp_right fun here => begun here t.seat (turns.seat_mem inside)
    obtain ⟨taken, left⟩ := ih _ (fun q among => known q (List.mem_cons_of_mem _ among)) onwards
    refine ⟨?_, ?_⟩
    · intro earlier round later split behind t inside
      cases earlier with
      | nil =>
        obtain ⟨rfl, _⟩ := List.cons.inj split
        exact begun (by simpa using behind) t.seat (turns.seat_mem inside)
      | cons first rest =>
        obtain ⟨rfl, further⟩ := List.cons.inj split
        refine taken rest round later further ?_ t inside
        simpa [or_assoc, eq_comm] using behind
    · intro behind
      apply left
      simpa [or_assoc, eq_comm] using behind

theorem rounds_embodied {earlier later : List (Round σ)} {round : Round σ}
    (keeps : d.Does Deed.Keeping)
    (going : Rounds d limit 0 d.ordered live shared rounds survivors after)
    (split : rounds = earlier ++ round :: later) (behind : some .parser ∈ earlier.map (·.phase)) :
    round.Embodied d limit := by
  have parsed := (rounds_parsed keeps False going (fun _ known => known) nofun).1
    earlier round later split (Or.inr behind)
  unfold Round.Embodied
  split
  · rename_i p found
    intro t inside present
    exact advance_embodied keeps (List.mem_of_getElem? found) (parsed t inside present)
  · intro t inside present
    exact finish_embodied keeps (parsed t inside present)

-- Who answers for what a run drops, and what it does not drop. Every failure names the
-- unit of its source, is filed under the phase that dropped it, and has a cause there;
-- without a cause nothing is dropped. As long as nobody clears a unit, every unit that
-- is present has a body from the first parser on that it gets past.
structure Accountable (d : Driver σ) (limit : Nat) (shared : Shared σ) (sources : List SourceFile)
    (r : RunResult σ) : Prop where
  named : ∀ f ∈ r.report.failures, sources[f.slot]?.map SourceFile.display = some f.unit ∧
    f.error.unit? = some f.unit ∧ f.error.Fits f.phase
  rounds : ∃ rounds, Rounds d limit 0 d.ordered (Driver.seats sources) shared rounds
      r.report.survivors r.shared ∧
    r.report.failures = rounds.flatMap Round.failures ∧
    (∀ round ∈ rounds, round.Blames d limit) ∧
    (d.Does Deed.Keeping → ∀ earlier round later, rounds = earlier ++ round :: later →
      some .parser ∈ earlier.map (·.phase) → round.Embodied d limit)
  bodies : d.Does Deed.Keeping → .parser ∈ d.phases.map (·.phase) →
    ∀ u ∈ r.report.units, u.isPresent = true → u.body.isSome = true

theorem run_accountable (ran : d.run limit shared sources = some r) :
    Accountable d limit shared sources r := by
  obtain ⟨rounds, going, failures, _⟩ := run_rounds ran
  refine ⟨?_, ⟨rounds, going, failures, rounds_blame going, ?_⟩, ?_⟩
  · intro f failed
    rw [failures] at failed
    exact failure_named going failed
  · intro keeps earlier round later split behind
    exact rounds_embodied keeps going split behind
  · intro keeps parser u survived present
    obtain ⟨seat, inside, rfl⟩ := List.mem_map.mp survived
    have ordered : .parser ∈ d.ordered.map (·.phase) :=
      ((ordered_perm d).map _).mem_iff.mpr parser
    exact (rounds_parsed keeps False going (fun _ known => known) nofun).2
      (Or.inr ordered) seat inside present

def parsingMost : CompilerPhase Unit :=
  ⟨.parser, fun _ => .look fun _ u =>
    if u.display = "A.scala" then .done (.ok (), ())
    else .change (.setBody ⟨0⟩) fun _ =>
      .done (if u.display = "B.scala" then .error ⟨"unreadable"⟩ else .ok (), ())⟩

def typingMost : CompilerPhase Unit :=
  ⟨.typer, fun _ => .look fun _ u =>
    if u.display = "C.scala" then
      .change (.queueCheck .postTyper .syntheticsDrained) fun _ => .done (.ok (), ())
    else if u.display = "D.scala" then
      .change (.queueCheck .postUnit (.computed ⟨7⟩)) fun _ => .done (.ok (), ())
    else .done (.ok (), ())⟩

def strict : Driver Unit :=
  ⟨[typingMost, parsingMost], fun _ check => match check with
    | .computed node => .done (.error (.missingComputation node), ())
    | _ => .done (.error (.syntheticsNotDrained 1), ())⟩

theorem strict_keeps : strict.Does Deed.Keeping := by
  refine ⟨?_, ?_⟩
  · intro state check
    cases check <;> exact True.intro
  · intro p known state
    simp only [strict, List.mem_cons, List.not_mem_nil, or_false] at known
    rcases known with rfl | rfl
    · intro s u
      dsimp only
      split
      · exact ⟨nofun, fun _ => True.intro⟩
      · split
        · exact ⟨nofun, fun _ => True.intro⟩
        · exact True.intro
    · intro s u
      dsimp only
      split
      · exact True.intro
      · exact ⟨nofun, fun _ => True.intro⟩

def fiveSources : List SourceFile :=
  [.persistent "E.scala" "", .persistent "D.scala" "", .persistent "C.scala" "",
    .persistent "B.scala" "", .persistent "A.scala" "", .absent]

theorem strict_accountable : ∃ r, strict.run 2 ⟨{}, ()⟩ fiveSources = some r ∧
    Accountable strict 2 ⟨{}, ()⟩ fiveSources r ∧ strict.Does Deed.Keeping ∧
    r.report.survivors.map (fun seat => (seat.slot, seat.unit.body)) =
      [(0, some ⟨0⟩), (5, some ⟨0⟩)] ∧
    r.report.failures.map (fun f => (f.slot, f.phase, f.error)) =
      [(3, .parser, .phase .parser "B.scala" ⟨"unreadable"⟩),
        (4, .parser, .missingBody "A.scala"),
        (2, .typer, .unit (.checkFailed "C.scala" (.syntheticsNotDrained 1))),
        (1, .terminal, .unit (.checkFailed "D.scala" (.missingComputation ⟨7⟩)))] := by
  have told : (strict.run 2 ⟨{}, ()⟩ fiveSources).map (fun r =>
      (r.report.survivors.map fun seat => (seat.slot, seat.unit.body),
        r.report.failures.map fun f => (f.slot, f.phase, f.error))) =
      some ([(0, some ⟨0⟩), (5, some ⟨0⟩)],
        [(3, .parser, .phase .parser "B.scala" ⟨"unreadable"⟩),
          (4, .parser, .missingBody "A.scala"),
          (2, .typer, .unit (.checkFailed "C.scala" (.syntheticsNotDrained 1))),
          (1, .terminal, .unit (.checkFailed "D.scala" (.missingComputation ⟨7⟩)))]) := rfl
  obtain ⟨r, ran, ends⟩ := Option.map_eq_some_iff.mp told
  obtain ⟨units, failures⟩ := Prod.mk.inj ends
  exact ⟨r, ran, run_accountable ran, strict_keeps, units, failures⟩

end UnitPipeline
