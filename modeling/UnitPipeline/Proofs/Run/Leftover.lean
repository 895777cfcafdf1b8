import UnitPipeline.Proofs.Check.Account
import UnitPipeline.Proofs.Run.Partition

namespace UnitPipeline
variable {σ : Type} {d : Driver σ}

theorem drainUnit_passed (ran : d.drainUnit limit point shared unit = some one)
    (passed : one.result = .ok ()) : ∃ out total,
      drain d.runner limit point shared.state ⟨shared.session, unit⟩ = some out ∧
      out.value.1 = .ok total ∧ one.unit = out.desk.unit ∧ one.events = out.events ∧
      one.shared = ⟨out.desk.session, out.value.2⟩ := by
  obtain ⟨out, drained, rfl⟩ := Option.map_eq_some_iff.mp ran
  rcases verdict : out.value.1 with error | total
  · simp [verdict] at passed
  · exact ⟨out, total, drained, verdict, rfl, rfl, rfl⟩

theorem finish_passed (ran : d.finish limit shared unit = some one) (passed : one.result = .ok ()) :
    ∃ first out total, d.drainUnit limit .postTyper shared unit = some first ∧
      first.unit.checks.waiting .postTyper = [] ∧
      drain d.runner limit .postUnit first.shared.state ⟨first.shared.session, first.unit⟩ =
        some out ∧ out.value.1 = .ok total ∧ one.unit = out.desk.unit ∧
      one.events = first.events ++ out.events := by
  obtain ⟨first, begun, more⟩ := Option.bind_eq_some_iff.mp ran
  obtain ⟨error, stopped, rfl⟩ | ⟨went, last, later, rfl⟩ := andThen_cases more
  · rw [stopped] at passed
    cases passed
  · obtain ⟨before, _, drained, clean, same, _, _⟩ := drainUnit_passed begun went
    obtain ⟨out, total, ended, verdict, unit, events, _⟩ := drainUnit_passed later passed
    refine ⟨first, out, total, begun, ?_, ended, verdict, unit, ?_⟩
    · rw [same]
      exact drainFrom_empties drained clean
    · rw [← events]

theorem isEmpty_iff_waiting (q : CheckQueue) :
    q.isEmpty = true ↔ ∀ point, q.waiting point = [] := by
  constructor
  · intro empty point
    rw [waiting_eq, List.isEmpty_iff.mp empty]
    rfl
  · intro none
    apply List.isEmpty_iff.mpr
    apply List.eq_nil_iff_forall_not_mem.mpr
    intro e inside
    have waits : e.2 ∈ q.waiting e.1 := by
      apply List.mem_map.mpr
      exact ⟨e, List.mem_filter.mpr ⟨inside, decide_eq_true rfl⟩, rfl⟩
    rw [none] at waits
    cases waits

theorem Accounted.ofPoint (whole : Accounted before events after) (point : CheckPoint) :
    (UnitPipeline.ofPoint point before ++ UnitPipeline.ofPoint point (queuedIn events)).Perm
      (UnitPipeline.ofPoint point (startedIn events ++ givenIn events) ++
        UnitPipeline.ofPoint point after) := by
  have parts := (List.Perm.filter (fun e => decide (e.1 = point)) whole).map (·.2)
  simpa [UnitPipeline.ofPoint] using parts

theorem left_none {queued used left : List α} (whole : queued.Perm (used ++ left)) :
    left = [] ↔ queued.Perm used := by
  constructor
  · rintro rfl
    rwa [List.append_nil] at whole
  · intro same
    have lengths := whole.length_eq.symm.trans same.length_eq
    rw [List.length_append] at lengths
    exact List.length_eq_zero_iff.mp (by omega)

def LastDrain (d : Driver σ) (limit : Nat) (events : List UnitEvent) (u : CompilationUnit) : Prop :=
  ∃ state desk out total, desk.unit.checks.waiting .postTyper = [] ∧
    drain d.runner limit .postUnit state desk = some out ∧ out.value.1 = .ok total ∧
    out.events = events ∧ out.desk.unit = u

-- One drain can only leave checks of the other checkpoint, and it leaves just
-- those that were queued while it ran and not used up.
theorem LastDrain.leaves (ended : LastDrain d limit events u) :
    u.checks.waiting .postUnit = [] ∧
      (u.checks.isEmpty = true ↔ (ofPoint .postTyper (queuedIn events)).Perm
        (ofPoint .postTyper (startedIn events ++ givenIn events))) := by
  obtain ⟨state, desk, out, total, clean, drained, verdict, rfl, rfl⟩ := ended
  have done := drainFrom_empties drained verdict
  refine ⟨done, ?_⟩
  have work := drain_work d.runner limit .postUnit state desk out drained []
  have whole := (work_accounted work).ofPoint .postTyper
  simp only [Bench.pending, List.nil_append, ← waiting_eq, clean] at whole
  rw [← left_none whole, isEmpty_iff_waiting]
  constructor
  · intro none
    exact none .postTyper
  · intro none point
    cases point with
    | postUnit => exact done
    | postTyper => exact none

-- What is left in the queue of a unit that survives its run: no check for the
-- unit, and of those for the typer the ones that its very last drain queued and
-- did not come to.
theorem leftover_exact (ran : d.run limit shared sources = some r)
    (survived : seat ∈ r.report.survivors) :
    seat.unit.checks.waiting .postUnit = [] ∧
      (seat.unit.checks.isEmpty = true ↔ (queuedIn (historyOf seat.slot r.events)).Perm
        (startedIn (historyOf seat.slot r.events) ++ givenIn (historyOf seat.slot r.events))) ∧
      ∃ earlier last, historyOf seat.slot r.events = earlier ++ last ∧
        LastDrain d limit last seat.unit ∧
        (seat.unit.checks.isEmpty = true ↔ (ofPoint .postTyper (queuedIn last)).Perm
          (ofPoint .postTyper (startedIn last ++ givenIn last))) := by
  obtain ⟨rounds, going, _, events⟩ := run_rounds ran
  have told : historyOf seat.slot r.events = historyOf seat.slot (rounds.flatMap Round.events) := by
    rw [events, historyOf_append]
    exact List.append_nil _
  obtain ⟨start, inside, _, earlier, found, unit, one, split, course, ended, passed, same⟩ :=
    survivor_course going (seats_unique sources) survived
  obtain ⟨source, _, fresh⟩ := seats_source inside
  obtain ⟨first, out, total, begun, clean, drained, verdict, last, noted⟩ :=
    finish_passed ended passed
  have final : LastDrain d limit out.events seat.unit :=
    ⟨_, _, out, total, clean, drained, verdict, rfl, last.symm.trans same⟩
  obtain ⟨done, exactly⟩ := final.leaves
  refine ⟨done, ?_, earlier ++ first.events, out.events, ?_, final, exactly⟩
  · -- The account of the whole course begins with the empty queue of a new unit.
    have whole := (course_accounted course).trans
      (work_accounted (finish_works d limit found unit one ended))
    rw [fresh, ← split, ← told] at whole
    simp only [Bench.pending, List.nil_append, same] at whole
    exact List.isEmpty_iff.trans (left_none whole)
  · rw [told, split, noted, List.append_assoc]

def late : Runner Unit := fun _ check =>
  match check with
  | .validate .. =>
    .change (.queueCheck .postTyper .syntheticsDrained) fun _ => .done (.ok (), ())
  | _ => .done (.ok (), ())

def validating : CompilerPhase Unit :=
  ⟨.namer, fun _ => .change (.queueCheck .postUnit (.validate "late" none "m")) fun _ =>
    .done (.ok (), ())⟩

def lateDriver : Driver Unit := ⟨[validating], late⟩

def oneFile : List SourceFile := [.persistent "A.scala" "a"]

theorem late_leftover : ∃ r seat, lateDriver.run 2 ⟨{}, ()⟩ oneFile = some r ∧
    seat ∈ r.report.survivors ∧ seat.unit.checks.waiting .postUnit = [] ∧
    ∃ last, LastDrain lateDriver 2 last seat.unit ∧
      (seat.unit.checks.isEmpty = true ↔ (ofPoint .postTyper (queuedIn last)).Perm
        (ofPoint .postTyper (startedIn last ++ givenIn last))) := by
  have told : (lateDriver.run 2 ⟨{}, ()⟩ oneFile).map (·.report.survivors.isEmpty) = some false := rfl
  obtain ⟨r, ran, some⟩ := Option.map_eq_some_iff.mp told
  obtain ⟨seat, survived⟩ := List.exists_mem_of_ne_nil _ (List.isEmpty_eq_false_iff.mp some)
  obtain ⟨done, _, _, last, _, ended, exactly⟩ := leftover_exact ran survived
  exact ⟨r, seat, ran, survived, done, last, ended, exactly⟩

theorem late_left : (lateDriver.run 2 ⟨{}, ()⟩ oneFile).map (fun r =>
    (r.report.survivors.map (·.unit.checks.entries), r.report.failures,
      queuedIn (historyOf 0 r.events), startedIn (historyOf 0 r.events))) =
    some ([[(.postTyper, .syntheticsDrained)]], [],
      [(.postUnit, .validate "late" none "m"), (.postTyper, .syntheticsDrained)],
      [(.postUnit, .validate "late" none "m")]) := rfl

end UnitPipeline
