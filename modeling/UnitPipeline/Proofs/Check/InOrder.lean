import UnitPipeline.Proofs.Unit.Conduct

namespace UnitPipeline
variable {σ α : Type}

def Bench.waiting (b : Bench) (point : CheckPoint) : List DeferredCheck :=
  ofPoint point b.held ++ b.desk.unit.checks.waiting point

-- The checks of a unit in order, from what waits at first to what waits at last.
-- At every moment those started for a checkpoint are the first of those that
-- waited for it or have come for it by then, so each start takes the oldest one.
structure InOrder (before : CheckPoint → List DeferredCheck) (events : List UnitEvent)
    (after : CheckPoint → List DeferredCheck) : Prop where
  started : ∀ told, told <+: events → ∀ point,
    ofPoint point (startedIn told) <+: before point ++ ofPoint point (queuedIn told)
  left : ∀ point, before point ++ ofPoint point (queuedIn events) =
    ofPoint point (startedIn events) ++ after point

theorem InOrder.quiet (none : startedIn events = [])
    (grown : ∀ point, after point = before point ++ ofPoint point (queuedIn events)) :
    InOrder before events after := by
  refine ⟨?_, ?_⟩
  · intro told early point
    have silent : startedIn told <+: startedIn events := early.filterMap _
    rw [none] at silent
    rw [List.prefix_nil.mp silent]
    exact List.nil_prefix
  · intro point
    rw [none, grown]
    rfl

theorem InOrder.refl (waiting : CheckPoint → List DeferredCheck) : InOrder waiting [] waiting :=
  .quiet rfl fun _ => (List.append_nil _).symm

theorem InOrder.trans (first : InOrder before now middle) (second : InOrder middle later after) :
    InOrder before (now ++ later) after := by
  refine ⟨?_, ?_⟩
  · intro told early point
    rcases List.prefix_or_prefix_of_prefix early (List.prefix_append now later) with soon | ⟨more, rfl⟩
    · exact first.started told soon point
    · have behind := second.started more ((List.prefix_append_right_inj now).mp early) point
      have whole := (List.prefix_append_right_inj (ofPoint point (startedIn now))).mpr behind
      rw [← List.append_assoc, ← first.left, List.append_assoc] at whole
      simpa only [startedIn_append, queuedIn_append, ofPoint_append] using whole
  · intro point
    rw [queuedIn_append, startedIn_append, ofPoint_append, ofPoint_append, ← List.append_assoc,
      first.left, List.append_assoc, second.left, List.append_assoc]

theorem InOrder.start (during : Phase) (here : before point = check :: after point)
    (others : ∀ other, other ≠ point → before other = after other) :
    InOrder before [.started point check during] after := by
  have left (other : CheckPoint) : before other = ofPoint other [(point, check)] ++ after other := by
    by_cases same : other = point
    · subst same
      simpa [ofPoint] using here
    · simpa [ofPoint, Ne.symm same] using others other same
  refine ⟨?_, ?_⟩
  · intro told early other
    rcases List.prefix_cons_iff.mp early with rfl | ⟨rest, rfl, nothing⟩
    · exact List.nil_prefix
    · rw [List.prefix_nil.mp nothing, left other]
      exact (List.prefix_append _ _).trans (List.prefix_append _ _)
  · intro other
    exact (List.append_nil _).trans (left other)

theorem ofPoint_tagged (point other : CheckPoint) (checks : List DeferredCheck) :
    ofPoint other (tagged point checks) = if point = other then checks else [] := by
  by_cases same : point = other
  · simp [ofPoint, tagged, same, List.filter_map, Function.comp_def]
  · simp [ofPoint, tagged, same, List.filter_map, Function.comp_def]

theorem action_in_order {inner : Drain σ} {action : Action σ α} (plain : action.Does Deed.Plain)
    (ran : action.run inner desk = some out) (held : List (CheckPoint × DeferredCheck)) :
    InOrder (Bench.waiting ⟨held, desk⟩) out.events (Bench.waiting ⟨held, out.desk⟩) := by
  obtain ⟨none, grown⟩ := plain_only_queues plain ran
  refine .quiet none fun point => ?_
  simp only [Bench.waiting, waiting_eq, grown, ofPoint_append, List.append_assoc]

theorem waiting_taken (desk : Desk) (point : CheckPoint) :
    Bench.waiting ⟨tagged point (desk.unit.checks.waiting point),
      desk.withChecks (desk.unit.checks.without point)⟩ = desk.unit.checks.waiting := by
  funext other
  by_cases same : point = other
  · subst same
    simp [Bench.waiting, ofPoint_tagged]
  · simp [Bench.waiting, ofPoint_tagged, same]

theorem waiting_back (desk : Desk) (point : CheckPoint) (rest : List DeferredCheck) :
    Bench.waiting ⟨tagged point rest, desk⟩ =
      (desk.withChecks (desk.unit.checks.requeue point rest)).unit.checks.waiting := by
  funext other
  by_cases same : point = other
  · subst same
    simp [Bench.waiting, ofPoint_tagged]
  · simp [Bench.waiting, ofPoint_tagged, same]

theorem batch_in_order {runner : Runner σ} {inner : Drain σ} (plain : runner.Does Deed.Plain)
    (ran : runBatch runner inner point batch state desk = some out) :
    InOrder (Bench.waiting ⟨tagged point batch, desk⟩) out.events out.desk.unit.checks.waiting ∧
      ∀ e ∈ startedIn out.events, e.1 = point := by
  induction batch generalizing state desk out with
  | nil =>
    cases Option.some.inj ran
    exact ⟨.refl _, nofun⟩
  | cons check rest ih =>
    obtain ⟨first, began, settled⟩ := batch_cases ran
    have begun : InOrder (Bench.waiting ⟨tagged point (check :: rest), desk⟩)
        [.started point check desk.session.phase] (Bench.waiting ⟨tagged point rest, desk⟩) := by
      refine .start _ ?_ ?_
      · simp [Bench.waiting, ofPoint_tagged]
      · intro other apart
        simp [Bench.waiting, ofPoint_tagged, apart.symm]
    have body := begun.trans (action_in_order (plain state check) began (tagged point rest))
    have none := (plain_only_queues (plain state check) began).1
    obtain ⟨failure, next, _, rfl⟩ | ⟨next, more, _, later, rfl⟩ := settled
    · rw [waiting_back first.desk] at body
      refine ⟨body, ?_⟩
      intro e inside
      rw [startedIn_started, none] at inside
      rw [List.mem_singleton.mp inside]
    · obtain ⟨order, starts⟩ := ih later
      refine ⟨body.trans order, ?_⟩
      intro e inside
      rw [List.cons_append, startedIn_started, startedIn_append, none] at inside
      rcases List.mem_cons.mp inside with rfl | others
      · rfl
      · exact starts e others

-- A drain whose checks drain nothing starts the checks of its checkpoint only,
-- and each unit's checks stay in order.
theorem drainFrom_in_order {runner : Runner σ} (plain : runner.Does Deed.Plain)
    (ran : drainFrom runner limit count point state desk = some out) :
    InOrder desk.unit.checks.waiting out.events out.desk.unit.checks.waiting ∧
      ∀ e ∈ startedIn out.events, e.1 = point := by
  induction limit generalizing count state desk out with
  | zero => cases ran
  | succ limit ih =>
    obtain ⟨below, same, idle | ⟨_, one, batch, settled⟩⟩ := drain_cases ran
    · obtain ⟨_, rfl⟩ := idle
      exact ⟨.quiet rfl fun _ => (List.append_nil _).symm, nofun⟩
    · cases same
      obtain ⟨order, starts⟩ := batch_in_order plain batch
      rw [waiting_taken] at order
      obtain ⟨failure, next, _, rfl⟩ | ⟨more, next, last, _, later, rfl⟩ := settled
      · exact ⟨order, starts⟩
      · obtain ⟨rest, others⟩ := ih later
        refine ⟨order.trans rest, ?_⟩
        intro e inside
        rw [startedIn_append] at inside
        exact (List.mem_append.mp inside).elim (starts e) (others e)

end UnitPipeline
