import UnitPipeline.Proofs.Unit.Work

namespace UnitPipeline
variable {σ : Type}

def Bench.pending (b : Bench) : List (CheckPoint × DeferredCheck) :=
  b.held ++ b.desk.unit.checks.entries

-- No check comes from nowhere, and none is lost: what was there and what was
-- queued is started, given up by clearing the unit, or still there.
def Accounted (before : List (CheckPoint × DeferredCheck)) (events : List UnitEvent)
    (after : List (CheckPoint × DeferredCheck)) : Prop :=
  (before ++ queuedIn events).Perm (startedIn events ++ givenIn events ++ after)

theorem accounted_iff : Accounted before events after ↔ ∀ e, before.count e +
    (queuedIn events).count e =
      (startedIn events).count e + (givenIn events).count e + after.count e := by
  simp only [Accounted, List.perm_iff_count, List.count_append]

theorem Accounted.refl (entries : List (CheckPoint × DeferredCheck)) :
    Accounted entries [] entries := by
  simp [Accounted, queuedIn, startedIn, givenIn]

theorem Accounted.trans (left : Accounted before now middle)
    (right : Accounted middle later after) : Accounted before (now ++ later) after := by
  rw [accounted_iff] at left right ⊢
  intro e
  have first := left e
  have second := right e
  simp only [queuedIn_append, startedIn_append, givenIn_append, List.count_append]
  omega

theorem tagged_waiting (q : CheckQueue) (point : CheckPoint) :
    tagged point (q.waiting point) = q.entries.filter fun e => e.1 = point := by
  rcases q with ⟨entries⟩
  induction entries with
  | nil => rfl
  | cons e rest ih =>
    simp only [tagged, CheckQueue.waiting] at ih ⊢
    by_cases here : e.1 = point
    · subst here
      simpa using ih
    · simpa [here] using ih

theorem take_perm (q : CheckQueue) (point : CheckPoint) :
    (tagged point (q.waiting point) ++ (q.without point).entries).Perm q.entries := by
  rw [tagged_waiting]
  have parts := List.filter_append_perm (fun e => decide (e.1 = point)) q.entries
  simpa [CheckQueue.without] using parts

theorem change_accounted (s : Session) (u : CompilationUnit) (op : UnitOp) :
    Accounted u.checks.entries (op.events s u) (op.apply s u).checks.entries := by
  obtain ⟨queued, started, given⟩ := op.events_account s u
  simp only [Accounted, queued, started, given, List.nil_append]
  by_cases clears : op = .clear
  · subst clears
    simp [UnitOp.queues, UnitOp.givesUp, UnitOp.apply, CompilationUnit.cleared]
  · have none : op.givesUp u = [] := by cases op <;> first | rfl | exact absurd rfl clears
    rw [op.apply_checks s u clears, none]
    exact .refl _

theorem step_accounted (step : WorkStep b events next) :
    Accounted b.pending events next.pending := by
  cases step with
  | @change held desk op =>
    have here := change_accounted desk.session desk.unit op
    rw [accounted_iff] at here ⊢
    intro e
    have counts := here e
    simp only [Bench.pending, List.count_append]
    omega
  | enterPhase phase => exact .refl _
  | setTracking on => exact .refl _
  | @take held desk point =>
    -- What leaves the queue is held from now on.
    have moved := take_perm desk.unit.checks point
    rw [List.perm_iff_count] at moved
    rw [accounted_iff]
    intro e
    have counts := moved e
    simp only [Bench.pending, Desk.withChecks_unit, CompilationUnit.withChecks_checks,
      List.count_append, queuedIn_nil, startedIn_nil, givenIn_nil, List.count_nil] at counts ⊢
    omega
  | start point check => simp [Accounted, Bench.pending]
  | @putBack held desk point rest =>
    rw [accounted_iff]
    intro e
    have back : (desk.unit.checks.requeue point rest).entries =
      tagged point rest ++ desk.unit.checks.entries := rfl
    simp only [Bench.pending, Desk.withChecks_unit, CompilationUnit.withChecks_checks, back,
      List.count_append, queuedIn_nil, startedIn_nil, givenIn_nil, List.count_nil]
    omega
  | drained point ran empty => simp [Accounted, Bench.pending]

theorem work_accounted (work : Work b events next) : Accounted b.pending events next.pending := by
  induction work with
  | rest => exact .refl _
  | step first _ ih => exact (step_accounted first).trans ih

theorem course_accounted (course : Course u events v) :
    Accounted u.checks.entries events v.checks.entries := by
  induction course with
  | rest => exact .refl _
  | turn work _ ih => exact (work_accounted work).trans ih

end UnitPipeline
