import UnitPipeline.Unit.Operation

namespace UnitPipeline

def CompilationUnit.withChecks (u : CompilationUnit) (q : CheckQueue) : CompilationUnit :=
  { u with checks := q }

@[simp] theorem CompilationUnit.withChecks_checks (u : CompilationUnit) (q : CheckQueue) :
    (u.withChecks q).checks = q := rfl

namespace UnitEvent

def queued? : UnitEvent → Option (CheckPoint × DeferredCheck)
  | queued point check => some (point, check)
  | _ => none

def started? : UnitEvent → Option (CheckPoint × DeferredCheck)
  | started point check _ => some (point, check)
  | _ => none

def given : UnitEvent → List (CheckPoint × DeferredCheck)
  | cleared entries => entries
  | _ => []

end UnitEvent

-- What a history says of checks: those queued, those started, and those given
-- up with the queue of a cleared unit, each with its checkpoint and in order.
def queuedIn (events : List UnitEvent) : List (CheckPoint × DeferredCheck) :=
  events.filterMap UnitEvent.queued?

def startedIn (events : List UnitEvent) : List (CheckPoint × DeferredCheck) :=
  events.filterMap UnitEvent.started?

def givenIn (events : List UnitEvent) : List (CheckPoint × DeferredCheck) :=
  events.flatMap UnitEvent.given

def ofPoint (point : CheckPoint) (entries : List (CheckPoint × DeferredCheck)) :
    List DeferredCheck :=
  (entries.filter fun e => e.1 = point).map (·.2)

@[simp] theorem queuedIn_nil : queuedIn [] = [] := rfl

@[simp] theorem startedIn_nil : startedIn [] = [] := rfl

@[simp] theorem givenIn_nil : givenIn [] = [] := rfl

@[simp] theorem queuedIn_append (a b : List UnitEvent) :
    queuedIn (a ++ b) = queuedIn a ++ queuedIn b := by
  simp [queuedIn]

@[simp] theorem startedIn_append (a b : List UnitEvent) :
    startedIn (a ++ b) = startedIn a ++ startedIn b := by
  simp [startedIn]

@[simp] theorem givenIn_append (a b : List UnitEvent) :
    givenIn (a ++ b) = givenIn a ++ givenIn b := by
  simp [givenIn]

@[simp] theorem ofPoint_nil (point : CheckPoint) : ofPoint point [] = [] := rfl

@[simp] theorem ofPoint_append (point : CheckPoint) (a b : List (CheckPoint × DeferredCheck)) :
    ofPoint point (a ++ b) = ofPoint point a ++ ofPoint point b := by
  simp [ofPoint]

@[simp] theorem queuedIn_started (point : CheckPoint) (check : DeferredCheck) (during : Phase)
    (events : List UnitEvent) :
    queuedIn (.started point check during :: events) = queuedIn events := rfl

@[simp] theorem startedIn_started (point : CheckPoint) (check : DeferredCheck) (during : Phase)
    (events : List UnitEvent) :
    startedIn (.started point check during :: events) = (point, check) :: startedIn events := rfl

@[simp] theorem givenIn_started (point : CheckPoint) (check : DeferredCheck) (during : Phase)
    (events : List UnitEvent) :
    givenIn (.started point check during :: events) = givenIn events := rfl

@[simp] theorem queuedIn_drained (unit : String) (point : CheckPoint) (ran : Nat) :
    queuedIn [.drained unit point ran] = [] := rfl

@[simp] theorem startedIn_drained (unit : String) (point : CheckPoint) (ran : Nat) :
    startedIn [.drained unit point ran] = [] := rfl

@[simp] theorem givenIn_drained (unit : String) (point : CheckPoint) (ran : Nat) :
    givenIn [.drained unit point ran] = [] := rfl

theorem waiting_eq (q : CheckQueue) (point : CheckPoint) :
    q.waiting point = ofPoint point q.entries := rfl

namespace UnitOp

def queues : UnitOp → List (CheckPoint × DeferredCheck)
  | queueCheck point check => [(point, check)]
  | _ => []

def givesUp (u : CompilationUnit) : UnitOp → List (CheckPoint × DeferredCheck)
  | clear => u.checks.entries
  | _ => []

theorem events_account (s : Session) (u : CompilationUnit) (op : UnitOp) :
    queuedIn (op.events s u) = op.queues ∧ startedIn (op.events s u) = [] ∧
      givenIn (op.events s u) = op.givesUp u := by
  cases op with
  | freshTerm stem =>
    simp only [events]
    split <;> exact ⟨rfl, rfl, rfl⟩
  | freshType stem =>
    simp only [events]
    split <;> exact ⟨rfl, rfl, rfl⟩
  | registerDependency target =>
    simp only [events]
    split <;> exact ⟨rfl, rfl, rfl⟩
  | clear => exact ⟨rfl, rfl, List.append_nil _⟩
  | _ => exact ⟨rfl, rfl, rfl⟩

theorem apply_source (s : Session) (u : CompilationUnit) (op : UnitOp) :
    (op.apply s u).source = u.source := by
  cases op with
  | memoizeOnce node result =>
    simp only [apply]
    split <;> rfl
  | _ => rfl

-- Apart from clearing, a change does not read the queue, and at most appends
-- to it.
theorem apply_withChecks (s : Session) (u : CompilationUnit) (q : CheckQueue) (op : UnitOp)
    (keeps : op ≠ .clear) :
    op.apply s (u.withChecks q) = (op.apply s u).withChecks ⟨q.entries ++ op.queues⟩ := by
  cases op with
  | clear => exact absurd rfl keeps
  | queueCheck point check => rfl
  | memoizeOnce node result =>
    by_cases known : u.cache.contains node
    · simp [apply, queues, CompilationUnit.withChecks, known]
    · simp [apply, queues, CompilationUnit.withChecks, known]
  | _ => simp [apply, queues, CompilationUnit.withChecks]

theorem apply_checks (s : Session) (u : CompilationUnit) (op : UnitOp) (keeps : op ≠ .clear) :
    (op.apply s u).checks.entries = u.checks.entries ++ op.queues := by
  have whole := apply_withChecks s u u.checks op keeps
  exact congrArg (fun v : CompilationUnit => v.checks.entries) whole

theorem answer_withChecks (s : Session) (u : CompilationUnit) (q : CheckQueue) (op : UnitOp) :
    op.answer s (u.withChecks q) = op.answer s u := by
  cases op <;> rfl

theorem events_withChecks (s : Session) (u : CompilationUnit) (q : CheckQueue) (op : UnitOp)
    (keeps : op ≠ .clear) : op.events s (u.withChecks q) = op.events s u := by
  cases op with
  | clear => exact absurd rfl keeps
  | _ => rfl

end UnitOp

end UnitPipeline
