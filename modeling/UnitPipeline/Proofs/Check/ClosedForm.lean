import UnitPipeline.Check.Standard
import UnitPipeline.Proofs.Check.Limit
import UnitPipeline.Proofs.Check.Refinement

namespace UnitPipeline

theorem without_none {q : CheckQueue} (none : q.waiting point = []) : q.without point = q := by
  have others : q.entries.filter (fun e => e.1 ≠ point) = q.entries := by
    simpa [CheckQueue.waiting] using none
  exact congrArg CheckQueue.mk others

namespace StandardChecks

def failure? (u : CompilationUnit) : DeferredCheck → Option CheckFailure
  | .syntheticsDrained =>
    if u.synthetics.isEmpty then none else some (.syntheticsNotDrained u.synthetics.length)
  | .computed node => if u.cache.contains node then none else some (.missingComputation node)
  | .featureEnabled .. | .validate .. => none

def feature? : DeferredCheck → Option Feature
  | .featureEnabled feature _ => some feature
  | .syntheticsDrained | .computed _ | .validate .. => none

def place (u : CompilationUnit) : Option NodeId → Position
  | some node => u.nodePosition node
  | none => .none

def report? (enabled : OrderedSet Feature) (u : CompilationUnit) (earlier : List DeferredCheck) :
    DeferredCheck → Option Diagnostic
  | .featureEnabled feature position =>
    if feature ∈ enabled.toList ∨ feature ∈ u.features.toList ∨
      feature ∈ earlier.filterMap feature? then none
    else some ⟨.warning, position,
      feature.name ++ " is a language feature that should be enabled explicitly"⟩
  | .validate code node message => some ⟨.error, place u node, "[" ++ code ++ "] " ++ message⟩
  | .syntheticsDrained | .computed _ => none

def reports (enabled : OrderedSet Feature) (u : CompilationUnit) (earlier : List DeferredCheck) :
    List DeferredCheck → List Diagnostic
  | [] => []
  | check :: rest =>
    (report? enabled u earlier check).toList ++ reports enabled u (earlier ++ [check]) rest

def missing (enabled : OrderedSet Feature) (checks : List DeferredCheck) : List Feature :=
  (checks.filterMap feature?).filter fun feature => feature ∉ enabled.toList

def after (enabled : OrderedSet Feature) (u : CompilationUnit) (checks : List DeferredCheck) :
    CompilationUnit :=
  { u with
    features := u.features.insertAll (missing enabled checks)
    diagnostics := ⟨u.diagnostics.toList ++ reports enabled u [] checks⟩ }

def passing (u : CompilationUnit) (checks : List DeferredCheck) : List DeferredCheck :=
  checks.takeWhile fun check => (failure? u check).isNone

-- A drain in closed form. All checks are judged by the unit as it is before.
def settled (enabled : OrderedSet Feature) (point : CheckPoint) (desk : Desk) :
    Outcome (Except UnitError Nat × OrderedSet Feature) :=
  let u := desk.unit
  let checks := u.checks.waiting point
  let passed := passing u checks
  let left := checks.drop (passed.length + 1)
  let others := u.checks.entries.filter fun e => e.1 ≠ point
  let unit := (after enabled u passed).withChecks ⟨tagged point left ++ others⟩
  let begun := (checks.take (passed.length + 1)).map fun check =>
    UnitEvent.started point check desk.session.phase
  match checks.findSome? (failure? u) with
  | none => ⟨(.ok checks.length, enabled), { desk with unit },
      begun ++ [.drained u.display point checks.length]⟩
  | some cause => ⟨(.error (.checkFailed u.display cause), enabled), { desk with unit }, begun⟩

theorem passing_all (none : checks.findSome? (failure? u) = none) : passing u checks = checks := by
  induction checks with
  | nil => rfl
  | cons check rest ih =>
    obtain ⟨here, others⟩ := List.forall_mem_cons.mp (List.findSome?_eq_none_iff.mp none)
    have later := ih (List.findSome?_eq_none_iff.mpr others)
    simpa [passing, here] using later

theorem reports_append (enabled : OrderedSet Feature) (u : CompilationUnit)
    (earlier a b : List DeferredCheck) : reports enabled u earlier (a ++ b) =
      reports enabled u earlier a ++ reports enabled u (earlier ++ a) b := by
  induction a generalizing earlier with
  | nil => simp [reports]
  | cons check rest ih => simp [reports, ih, List.append_assoc]

theorem known_after (out : feature ∉ enabled.toList) :
    feature ∈ (after enabled u checks).features.toList ↔
      feature ∈ u.features.toList ∨ feature ∈ checks.filterMap feature? := by
  simp [after, OrderedSet.mem_insertAll, missing, out]

theorem after_nil (enabled : OrderedSet Feature) (u : CompilationUnit) : after enabled u [] = u := by
  simp [after, missing, reports, OrderedSet.insertAll]

theorem after_next (enabled : OrderedSet Feature) (u : CompilationUnit)
    (earlier : List DeferredCheck) (check : DeferredCheck) :
    after enabled u (earlier ++ [check]) =
      { after enabled u earlier with
        features := (after enabled u earlier).features.insertAll (missing enabled [check])
        diagnostics := ⟨(after enabled u earlier).diagnostics.toList ++
          (report? enabled u earlier check).toList⟩ } := by
  simp [after, missing, reports_append, reports, OrderedSet.insertAll_append]

theorem after_silent (known : ∀ feature ∈ missing enabled [check],
      feature ∈ (after enabled u earlier).features.toList)
    (silent : report? enabled u earlier check = none) :
    after enabled u (earlier ++ [check]) = after enabled u earlier := by
  rw [after_next, OrderedSet.insertAll_known known, silent]
  simp

theorem after_known (known : feature ∈ enabled.toList ∨
      feature ∈ (after enabled u earlier).features.toList) :
    after enabled u (earlier ++ [.featureEnabled feature position]) = after enabled u earlier := by
  apply after_silent
  · intro other asked
    obtain ⟨rfl, out⟩ : other = feature ∧ other ∉ enabled.toList := by
      simpa [missing, feature?] using asked
    exact known.resolve_left out
  · apply if_pos
    by_cases allowed : feature ∈ enabled.toList
    · exact Or.inl allowed
    · exact Or.inr ((known_after allowed).mp (known.resolve_left allowed))

theorem report_new (out : feature ∉ enabled.toList)
    (new : feature ∉ (after enabled u earlier).features.toList) :
    report? enabled u earlier (.featureEnabled feature position) = some ⟨.warning, position,
      feature.name ++ " is a language feature that should be enabled explicitly"⟩ :=
  if_neg (not_or.mpr ⟨out, mt (known_after out).mpr new⟩)

theorem check_settles (inner : Drain (OrderedSet Feature)) (enabled : OrderedSet Feature)
    (s : Session) (u : CompilationUnit) (q : CheckQueue) (earlier : List DeferredCheck)
    (check : DeferredCheck) :
    (runner enabled check).run inner ⟨s, (after enabled u earlier).withChecks q⟩ =
      some (match failure? u check with
        | none => ⟨(.ok (), enabled), ⟨s, (after enabled u (earlier ++ [check])).withChecks q⟩, []⟩
        | some cause =>
          ⟨(.error cause, enabled), ⟨s, (after enabled u earlier).withChecks q⟩, []⟩) := by
  cases check with
  | featureEnabled feature position =>
    by_cases known : feature ∈ enabled.toList ∨ feature ∈ (after enabled u earlier).features.toList
    · have passes : (enabled.contains feature ||
          ((after enabled u earlier).withChecks q).features.contains feature) = true :=
        Bool.or_eq_true_iff.mpr (known.imp OrderedSet.contains_iff.mpr OrderedSet.contains_iff.mpr)
      rw [after_known known]
      simp only [runner, handle, Action.bind, Action.run, passes]
      rfl
    · obtain ⟨out, new⟩ := not_or.mp known
      have added : missing enabled [.featureEnabled feature position] = [feature] := by
        simp [missing, feature?, out]
      have warns : (enabled.contains feature ||
          ((after enabled u earlier).withChecks q).features.contains feature) = false := by
        simp [OrderedSet.contains, CompilationUnit.withChecks, out, new]
      rw [after_next, added, report_new out new]
      simp only [runner, handle, Action.bind, Action.run, warns]
      rfl
  | syntheticsDrained =>
    rw [after_silent (by simp [missing, feature?]) rfl]
    simp only [runner, handle, failure?, Action.bind, Action.run]
    cases empty : u.synthetics.isEmpty with
    | true => simp [Action.bind, Action.run, after, CompilationUnit.withChecks, empty]
    | false => simp [Action.bind, Action.run, after, CompilationUnit.withChecks, empty]
  | computed node =>
    rw [after_silent (by simp [missing, feature?]) rfl]
    simp only [runner, handle, failure?, Action.bind, Action.run]
    cases found : u.cache.contains node with
    | true => simp [Action.bind, Action.run, after, CompilationUnit.withChecks, found]
    | false => simp [Action.bind, Action.run, after, CompilationUnit.withChecks, found]
  | validate code node message =>
    rw [after_next]
    cases node <;> rfl

theorem batch_settles (inner : Drain (OrderedSet Feature)) (enabled : OrderedSet Feature)
    (point : CheckPoint) (s : Session) (u : CompilationUnit) (q : CheckQueue)
    (earlier batch : List DeferredCheck) :
    runBatch runner inner point batch enabled ⟨s, (after enabled u earlier).withChecks q⟩ =
      some ⟨(match batch.findSome? (failure? u) with
          | none => .ok batch.length
          | some cause => .error (.checkFailed u.display cause), enabled),
        ⟨s, (after enabled u (earlier ++ passing u batch)).withChecks
          (q.requeue point (batch.drop ((passing u batch).length + 1)))⟩,
        (batch.take ((passing u batch).length + 1)).map fun check =>
          .started point check s.phase⟩ := by
  induction batch generalizing earlier with
  | nil => simp [runBatch, passing, CheckQueue.requeue]
  | cons check rest ih =>
    unfold runBatch
    rw [check_settles]
    cases verdict : failure? u check with
    | some cause =>
      have stopped : passing u (check :: rest) = [] := by simp [passing, verdict]
      simp only [Option.bind_some, stopped, List.findSome?_cons, verdict, List.append_nil]
      rfl
    | none =>
      have passed : passing u (check :: rest) = check :: passing u rest := by
        simp [passing, verdict]
      simp only [Option.bind_some, ih, passed]
      cases ends : rest.findSome? (failure? u) with
      | none => simp [verdict, ends, Except.map]
      | some cause => simp [verdict, ends, Except.map]

-- One batch is enough, and a look for a second one.
theorem drain_settles (enabled : OrderedSet Feature) (point : CheckPoint) (desk : Desk) :
    drain runner 2 point enabled desk = some (settled enabled point desk) := by
  cases found : desk.unit.checks.waiting point with
  | nil =>
    have same : desk.withChecks (desk.unit.checks.without point) = desk := by
      rw [without_none found]
      rfl
    refine (drainFrom_idle found).trans (congrArg some ?_)
    simp only [settled, found, passing, List.takeWhile_nil, List.drop_nil, List.take_nil,
      List.map_nil, List.findSome?_nil, after_nil, Outcome.mk.injEq]
    exact ⟨rfl, same.symm, rfl⟩
  | cons check rest =>
    have first := batch_settles (drainFrom runner 1 0) enabled point desk.session desk.unit
      (desk.unit.checks.without point) [] (check :: rest)
    rw [after_nil, List.nil_append] at first
    refine (drainFrom_batch found).trans (Option.bind_eq_some_iff.mpr ⟨_, first, ?_⟩)
    cases verdict : (check :: rest).findSome? (failure? desk.unit) with
    | none =>
      have empty (u : CompilationUnit) : ((u.withChecks ((desk.unit.checks.without point).requeue point
          ((check :: rest).drop ((check :: rest).length + 1)))).checks.waiting point) = [] := by
        simp
      simp only [settled, found, verdict, passing_all verdict, Nat.zero_add]
      refine (congrArg (Option.map _) (drainFrom_idle (empty _))).trans ?_
      rfl
    | some cause =>
      simp only [settled, found, verdict]
      rfl

end StandardChecks

end UnitPipeline
