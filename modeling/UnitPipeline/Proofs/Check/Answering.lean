import UnitPipeline.Proofs.Check.ClosedForm
import UnitPipeline.Statement.Pipeline

namespace UnitPipeline

namespace StandardChecks

-- What a host decides for itself. Checks without an answer are left to the built-in
-- runner.
abbrev Answers := DeferredCheck → Option (Except CheckFailure Unit)

def answering (answers : Answers) : Runner (OrderedSet Feature) := fun enabled check =>
  match answers check with
  | some result => .done (result, enabled)
  | none => runner enabled check

def refusal? (answers : Answers) (u : CompilationUnit) (check : DeferredCheck) :
    Option CheckFailure :=
  match answers check with
  | some (.ok ()) => none
  | some (.error cause) => some cause
  | none => failure? u check

def unanswered (answers : Answers) (checks : List DeferredCheck) : List DeferredCheck :=
  checks.filter fun check => (answers check).isNone

variable {answers : Answers} {u : CompilationUnit} {check : DeferredCheck}

theorem unanswered_known (known : answers check = some result) (earlier : List DeferredCheck) :
    unanswered answers (earlier ++ [check]) = unanswered answers earlier := by
  simp [unanswered, known]

theorem unanswered_next (open_ : answers check = none) (earlier : List DeferredCheck) :
    unanswered answers (earlier ++ [check]) = unanswered answers earlier ++ [check] := by
  simp [unanswered, open_]

theorem check_answered (inner : Drain (OrderedSet Feature)) (enabled : OrderedSet Feature)
    (s : Session) (q : CheckQueue) (earlier : List DeferredCheck) :
    (answering answers enabled check).run inner
        ⟨s, (after enabled u (unanswered answers earlier)).withChecks q⟩ =
      some (match refusal? answers u check with
        | none => ⟨(.ok (), enabled),
          ⟨s, (after enabled u (unanswered answers (earlier ++ [check]))).withChecks q⟩, []⟩
        | some cause => ⟨(.error cause, enabled),
          ⟨s, (after enabled u (unanswered answers earlier)).withChecks q⟩, []⟩) := by
  cases known : answers check with
  | none =>
    rw [unanswered_next known]
    simp only [answering, refusal?, known]
    exact check_settles ..
  | some result =>
    rw [unanswered_known known]
    simp only [answering, refusal?, known]
    cases result <;> rfl

structure Settles (answers : Answers) (enabled : OrderedSet Feature) (s : Session)
    (u : CompilationUnit) (earlier batch : List DeferredCheck) (q : CheckQueue)
    (out : Outcome (Except UnitError Nat × OrderedSet Feature)) : Prop where
  value : out.value = (match batch.findSome? (refusal? answers u) with
    | none => .ok batch.length
    | some cause => .error (.checkFailed u.display cause), enabled)
  session : out.desk.session = s
  source : out.desk.unit.source = u.source
  unit : batch.findSome? (refusal? answers u) = none →
    out.desk.unit = (after enabled u (unanswered answers (earlier ++ batch))).withChecks q

theorem batch_answered (answers : Answers) (u : CompilationUnit)
    (inner : Drain (OrderedSet Feature)) (enabled : OrderedSet Feature) (point : CheckPoint)
    (s : Session) (q : CheckQueue) (earlier batch : List DeferredCheck) :
    ∃ out, runBatch (answering answers) inner point batch enabled
        ⟨s, (after enabled u (unanswered answers earlier)).withChecks q⟩ = some out ∧
      Settles answers enabled s u earlier batch q out := by
  induction batch generalizing earlier with
  | nil =>
    refine ⟨_, rfl, rfl, rfl, rfl, fun _ => ?_⟩
    rw [List.append_nil]
  | cons check rest ih =>
    unfold runBatch
    rw [check_answered]
    cases verdict : refusal? answers u check with
    | some cause =>
      refine ⟨_, rfl, ?_, rfl, rfl, ?_⟩
      · rw [List.findSome?_cons, verdict]
        rfl
      · intro none
        rw [List.findSome?_cons, verdict] at none
        cases none
    | none =>
      obtain ⟨out, ran, settles⟩ := ih (earlier ++ [check])
      simp only [Option.bind_some, ran, Option.map_some]
      refine ⟨_, rfl, ?_, settles.session, settles.source, ?_⟩
      · rw [settles.value, List.findSome?_cons, verdict]
        cases rest.findSome? (refusal? answers u) <;> rfl
      · intro none
        rw [List.findSome?_cons, verdict] at none
        have ends := settles.unit none
        rwa [List.append_assoc] at ends

-- A drain is one batch. All checks are judged by the unit as it is before.
theorem drain_answered (enough : 2 ≤ limit) (answers : Answers) (enabled : OrderedSet Feature)
    (point : CheckPoint) (desk : Desk) :
    ∃ out, drain (answering answers) limit point enabled desk = some out ∧
      Settles answers enabled desk.session desk.unit [] (desk.unit.checks.waiting point)
        (desk.unit.checks.without point) out := by
  suffices twice : ∃ out, drain (answering answers) 2 point enabled desk = some out ∧
      Settles answers enabled desk.session desk.unit [] (desk.unit.checks.waiting point)
        (desk.unit.checks.without point) out by
    obtain ⟨out, ran, settles⟩ := twice
    exact ⟨out, drain_extends enough _ _ _ _ ran, settles⟩
  cases found : desk.unit.checks.waiting point with
  | nil =>
    refine ⟨_, drainFrom_idle found, rfl, rfl, rfl, fun _ => ?_⟩
    rw [without_none found]
    exact (congrArg (·.withChecks desk.unit.checks) (after_nil enabled desk.unit)).symm
  | cons check rest =>
    obtain ⟨one, ran, settles⟩ := batch_answered answers desk.unit
      (drainFrom (answering answers) 1 0) enabled point desk.session
      (desk.unit.checks.without point) [] (check :: rest)
    have fresh : after enabled desk.unit (unanswered answers []) = desk.unit := after_nil ..
    rw [fresh] at ran
    unfold drain
    rw [drainFrom_batch found, resume]
    simp only [Desk.withChecks, ran, Option.bind_some]
    cases verdict : (check :: rest).findSome? (refusal? answers desk.unit) with
    | some cause =>
      have stopped := settles.value
      simp only [verdict] at stopped
      simp only [stopped]
      refine ⟨_, rfl, ?_, settles.session, settles.source, ?_⟩
      · rw [verdict]
      · intro none
        cases verdict.symm.trans none
    | none =>
      have passed := settles.value
      have ends := settles.unit verdict
      have empty : one.desk.unit.checks.waiting point = [] := by
        rw [ends]
        exact (desk.unit.checks.waiting_without point point).trans (if_pos rfl)
      simp only [verdict] at passed
      simp only [passed, drainFrom_idle empty, Option.map_some]
      refine ⟨_, rfl, ?_, settles.session, settles.source, fun _ => ends⟩
      rw [verdict, Nat.zero_add]

end StandardChecks

namespace Statement

def hostAnswers : StandardChecks.Answers
  | .validate code _ claim =>
    if code = assertCode then
      if claim = "true" then some (.ok ())
      else some (.error (.failed code ("`" ++ claim ++ "` does not hold")))
    else none
  | _ => none

theorem hostRunner_answers : hostRunner = StandardChecks.answering hostAnswers := by
  funext enabled check
  cases check with
  | validate code node claim =>
    simp only [hostRunner, StandardChecks.answering, hostAnswers]
    by_cases asserts : code = assertCode
    · by_cases holds : claim = "true"
      · simp only [if_pos asserts, if_pos holds]
      · simp only [if_pos asserts, if_neg holds]
    · simp only [if_neg asserts]
  | _ => rfl

def runnerOf (hosted : Bool) : Runner (OrderedSet Feature) :=
  if hosted then hostRunner else StandardChecks.runner

def answersOf (hosted : Bool) : StandardChecks.Answers :=
  if hosted then hostAnswers else fun _ => none

theorem runnerOf_answers (hosted : Bool) :
    runnerOf hosted = StandardChecks.answering (answersOf hosted) := by
  cases hosted with
  | false => rfl
  | true => exact hostRunner_answers

end Statement

end UnitPipeline
