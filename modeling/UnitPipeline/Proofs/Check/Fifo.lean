import UnitPipeline.Proofs.Check.Blind

namespace UnitPipeline
variable {σ : Type}

def CheckQueue.oldestIn (point : CheckPoint) : List (CheckPoint × DeferredCheck) →
    Option (DeferredCheck × List (CheckPoint × DeferredCheck))
  | [] => none
  | e :: rest =>
    if e.1 = point then some (e.2, rest)
    else (oldestIn point rest).map fun found => (found.1, e :: found.2)

def CheckQueue.oldest? (q : CheckQueue) (point : CheckPoint) :
    Option (DeferredCheck × CheckQueue) :=
  (oldestIn point q.entries).map fun found => (found.1, ⟨found.2⟩)

def noDrain : Drain σ := fun _ _ _ => none

theorem noDrain_works : (noDrain : Drain σ).Works := by
  intro point state desk out ran
  cases ran

-- The machine that drains a checkpoint one check at a time: the oldest entry
-- leaves the queue and is run, all others wait in the queue meanwhile, and the
-- first failure ends it. `count` is the number of checks that succeeded before.
inductive OneByOne (runner : Runner σ) (point : CheckPoint) :
    Nat → σ → Desk → Outcome (Except UnitError Nat × σ) → Prop where
  | idle (none : desk.unit.checks.oldest? point = .none) :
      OneByOne runner point count state desk
        ⟨(.ok count, state), desk, [.drained desk.unit.display point count]⟩
  | failed (oldest : desk.unit.checks.oldest? point = some (check, others))
      (ran : (runner state check).run noDrain (desk.withChecks others) = some first)
      (verdict : first.value = (.error cause, next)) :
      OneByOne runner point count state desk
        ⟨(.error (.checkFailed first.desk.unit.display cause), next), first.desk,
          .started point check desk.session.phase :: first.events⟩
  | passed (oldest : desk.unit.checks.oldest? point = some (check, others))
      (ran : (runner state check).run noDrain (desk.withChecks others) = some first)
      (verdict : first.value = (.ok (), next))
      (later : OneByOne runner point (count + 1) next first.desk last) :
      OneByOne runner point count state desk
        { last with
          events := .started point check desk.session.phase :: first.events ++ last.events }

theorem oldestIn_none : CheckQueue.oldestIn point entries = none ↔ ofPoint point entries = [] := by
  induction entries with
  | nil => simp [CheckQueue.oldestIn, ofPoint]
  | cons e rest ih =>
    by_cases here : e.1 = point
    · simp [CheckQueue.oldestIn, ofPoint, here]
    · simpa [CheckQueue.oldestIn, ofPoint, here] using ih

theorem oldestIn_some (found : CheckQueue.oldestIn point entries = some (check, others)) :
    ofPoint point entries = check :: ofPoint point others ∧
      ∀ other, other ≠ point → ofPoint other entries = ofPoint other others := by
  induction entries generalizing others with
  | nil => cases found
  | cons e rest ih =>
    simp only [CheckQueue.oldestIn] at found
    split at found
    · rename_i here
      cases Option.some.inj found
      refine ⟨by simp [ofPoint, here], ?_⟩
      intro other apart
      have skipped : ¬ e.1 = other := fun same => apart (same.symm.trans here)
      simp [ofPoint, skipped]
    · rename_i skipped
      obtain ⟨⟨oldest, left⟩, inner, equal⟩ := Option.map_eq_some_iff.mp found
      cases equal
      obtain ⟨mine, theirs⟩ := ih inner
      refine ⟨by simpa [ofPoint, skipped] using mine, ?_⟩
      intro other apart
      have same := theirs other apart
      by_cases here : e.1 = other
      · simpa [ofPoint, here] using same
      · simpa [ofPoint, here] using same

theorem oldest_none {q : CheckQueue} : q.oldest? point = none ↔ q.waiting point = [] := by
  simp [CheckQueue.oldest?, waiting_eq, oldestIn_none]

theorem oldest_some {q others : CheckQueue} (found : q.oldest? point = some (check, others)) :
    q.waiting point = check :: others.waiting point ∧
      ∀ other, other ≠ point → q.waiting other = others.waiting other := by
  obtain ⟨⟨oldest, left⟩, inner, equal⟩ := Option.map_eq_some_iff.mp found
  cases equal
  exact oldestIn_some inner

theorem one_by_one_unique {runner : Runner σ} (left : OneByOne runner point count state desk a)
    (right : OneByOne runner point count state desk b) : a = b := by
  induction left generalizing b with
  | idle none =>
    cases right with
    | idle _ => rfl
    | failed oldest => rw [none] at oldest; cases oldest
    | passed oldest => rw [none] at oldest; cases oldest
  | failed oldest ran verdict =>
    cases right with
    | idle none => rw [none] at oldest; cases oldest
    | failed again same decided =>
      cases oldest.symm.trans again
      cases ran.symm.trans same
      cases verdict.symm.trans decided
      rfl
    | passed again same decided =>
      cases oldest.symm.trans again
      cases ran.symm.trans same
      cases verdict.symm.trans decided
  | passed oldest ran verdict later ih =>
    cases right with
    | idle none => rw [none] at oldest; cases oldest
    | failed again same decided =>
      cases oldest.symm.trans again
      cases ran.symm.trans same
      cases verdict.symm.trans decided
    | passed again same decided next =>
      cases oldest.symm.trans again
      cases ran.symm.trans same
      cases verdict.symm.trans decided
      rw [ih next]

theorem oldest_run {runner : Runner σ} (blind : runner.Blind) {desk : Desk}
    (oldest : desk.unit.checks.oldest? point = some (check, others))
    (ran : (runner state check).run noDrain (desk.withChecks others) = some first) :
    startedIn first.events = [] ∧
      desk.unit.checks.waiting point ++ ofPoint point (queuedIn first.events) =
        check :: first.desk.unit.checks.waiting point ∧
      ∀ other, other ≠ point →
        desk.unit.checks.waiting other ++ ofPoint other (queuedIn first.events) =
          first.desk.unit.checks.waiting other := by
  obtain ⟨grown, none, _⟩ := blind_run (blind state check) ran
  obtain ⟨here, elsewhere⟩ := oldest_some oldest
  simp only [Desk.withChecks_unit, CompilationUnit.withChecks_checks] at grown
  refine ⟨none, ?_, ?_⟩
  · rw [here]
    simp [waiting_eq, grown]
  · intro other apart
    rw [elsewhere other apart]
    simp [waiting_eq, grown]

theorem one_by_one_order {runner : Runner σ} (blind : runner.Blind)
    (machine : OneByOne runner point count state desk final) :
    tagged point (desk.unit.checks.waiting point ++ ofPoint point (queuedIn final.events)) =
      startedIn final.events ++ tagged point (final.desk.unit.checks.waiting point) := by
  induction machine with
  | idle none =>
    rw [oldest_none.mp none]
    rfl
  | failed oldest ran verdict =>
    obtain ⟨none, order, _⟩ := oldest_run blind oldest ran
    simp [order, none, tagged]
  | passed oldest ran verdict later ih =>
    obtain ⟨none, order, _⟩ := oldest_run blind oldest ran
    simp only [List.cons_append, queuedIn_started, queuedIn_append, ofPoint_append,
      startedIn_started, startedIn_append, none, List.nil_append, ← ih]
    rw [← List.append_assoc, order]
    rfl

theorem one_by_one_others {runner : Runner σ} (blind : runner.Blind)
    (machine : OneByOne runner point count state desk final) (apart : other ≠ point) :
    final.desk.unit.checks.waiting other =
      desk.unit.checks.waiting other ++ ofPoint other (queuedIn final.events) := by
  induction machine with
  | idle none => exact (List.append_nil _).symm
  | failed oldest ran verdict =>
    obtain ⟨_, _, elsewhere⟩ := oldest_run blind oldest ran
    exact (elsewhere other apart).symm
  | passed oldest ran verdict later ih =>
    obtain ⟨_, _, elsewhere⟩ := oldest_run blind oldest ran
    simp only [List.cons_append, queuedIn_started, queuedIn_append, ofPoint_append, ih,
      ← elsewhere other apart, List.append_assoc]

theorem one_by_one_passed {runner : Runner σ} (blind : runner.Blind)
    (machine : OneByOne runner point count state desk final)
    (verdict : final.value.1 = .ok total) :
    total = count + (startedIn final.events).length ∧
      final.desk.unit.checks.waiting point = [] := by
  induction machine with
  | idle none =>
    cases verdict
    exact ⟨rfl, oldest_none.mp none⟩
  | failed oldest ran stopped => cases verdict
  | passed oldest ran went later ih =>
    obtain ⟨none, _, _⟩ := oldest_run blind oldest ran
    obtain ⟨counted, empty⟩ := ih verdict
    refine ⟨?_, empty⟩
    simp only [List.cons_append, startedIn_started, startedIn_append, none, List.nil_append,
      List.length_cons]
    omega

theorem one_by_one_failed {runner : Runner σ} {error : UnitError}
    (machine : OneByOne runner point count state desk final)
    (verdict : final.value.1 = .error error) :
    ∃ cause, error = .checkFailed desk.unit.display cause := by
  induction machine with
  | idle none => cases verdict
  | failed oldest ran stopped =>
    cases verdict
    have same := action_display noDrain_works _ ran
    exact ⟨_, congrArg (UnitError.checkFailed · _) same⟩
  | passed oldest ran went later ih =>
    obtain ⟨cause, equal⟩ := ih verdict
    have same := action_display noDrain_works _ ran
    refine ⟨cause, equal.trans ?_⟩
    exact congrArg (UnitError.checkFailed · cause) same

end UnitPipeline
