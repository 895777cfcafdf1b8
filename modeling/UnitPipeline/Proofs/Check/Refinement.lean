import UnitPipeline.Proofs.Check.Fifo

namespace UnitPipeline
variable {σ : Type} {runner : Runner σ}

def resume (runner : Runner σ) (limit count : Nat) (point : CheckPoint)
    (batch : List DeferredCheck) (state : σ) (desk : Desk) :
    Option (Outcome (Except UnitError Nat × σ)) :=
  (runBatch runner (drainFrom runner limit 0) point batch state desk).bind fun one =>
    match one.value with
    | (.error failure, next) => some ⟨(.error failure, next), one.desk, one.events⟩
    | (.ok more, next) =>
      (drainFrom runner limit (count + more) point next one.desk).map fun last =>
        { last with events := one.events ++ last.events }

theorem resume_nil :
    resume runner limit count point [] state desk = drainFrom runner limit count point state desk := by
  simp [resume, runBatch]

theorem resume_cons :
    resume runner limit count point (check :: rest) state desk =
      ((runner state check).run (drainFrom runner limit 0) desk).bind fun first =>
        match first.value with
        | (.error failure, next) =>
          some ⟨(.error (.checkFailed first.desk.unit.display failure), next),
            first.desk.withChecks (first.desk.unit.checks.requeue point rest),
            .started point check desk.session.phase :: first.events⟩
        | (.ok (), next) =>
          (resume runner limit (count + 1) point rest next first.desk).map fun last =>
            { last with
              events := .started point check desk.session.phase :: first.events ++ last.events } := by
  unfold resume
  rw [runBatch]
  cases (runner state check).run (drainFrom runner limit 0) desk with
  | none => rfl
  | some first =>
    rcases verdict : first.value with ⟨failure | ⟨⟩, next⟩
    · simp [verdict, Desk.withChecks, CompilationUnit.withChecks]
    · simp only [Option.bind_some, verdict]
      cases runBatch runner (drainFrom runner limit 0) point rest next first.desk with
      | none => rfl
      | some more =>
        rcases settled : more.value with ⟨failure | ran, after⟩
        · simp [settled, Except.map]
        · have total : count + (ran + 1) = count + 1 + ran := by omega
          simp only [Option.map_some, Option.bind_some, settled, Except.map, total, Option.map_map]
          simp [Function.comp_def]

theorem drainFrom_idle (empty : desk.unit.checks.waiting point = []) :
    drainFrom runner (limit + 1) count point state desk =
      some ⟨(.ok count, state), desk, [.drained desk.unit.display point count]⟩ := by
  simp [drainFrom, empty]

theorem drainFrom_batch (found : desk.unit.checks.waiting point = check :: rest) :
    drainFrom runner (limit + 1) count point state desk =
      resume runner limit count point (check :: rest) state
        (desk.withChecks (desk.unit.checks.without point)) := by
  rw [drainFrom, found]
  rfl

-- How the machine's desk `m` lies to the drain's desk `d` while the drain holds
-- a batch: only the queues differ, and the machine's still has the batch in
-- front of what waits in the drain's.
structure Behind (point : CheckPoint) (batch : List DeferredCheck) (d m : Desk) : Prop where
  outside : ∀ q, m.withChecks q = d.withChecks q
  ahead : m.unit.checks.waiting point = batch ++ d.unit.checks.waiting point
  others : ∀ other, other ≠ point → m.unit.checks.waiting other = d.unit.checks.waiting other

theorem Behind.refl (point : CheckPoint) (desk : Desk) : Behind point [] desk desk :=
  ⟨fun _ => rfl, rfl, fun _ _ => rfl⟩

theorem Behind.session (behind : Behind point batch d m) : m.session = d.session := by
  have same := congrArg Desk.session (behind.outside {})
  exact same

theorem Behind.display (behind : Behind point batch d m) : m.unit.display = d.unit.display := by
  have same := congrArg (fun desk : Desk => desk.unit.display) (behind.outside {})
  exact same

theorem Behind.take (behind : Behind point [] d m) :
    Behind point (d.unit.checks.waiting point) (d.withChecks (d.unit.checks.without point)) m := by
  refine ⟨?_, ?_, ?_⟩
  · intro q
    exact behind.outside q
  · simpa using behind.ahead
  · intro other apart
    simpa [apart.symm] using behind.others other apart

structure Agrees (a b : Outcome (Except UnitError Nat × σ)) : Prop where
  value : a.value = b.value
  events : a.events = b.events
  outside : ∀ q, a.desk.withChecks q = b.desk.withChecks q
  waiting : ∀ point, a.desk.unit.checks.waiting point = b.desk.unit.checks.waiting point

theorem Behind.run_head (blind : runner.Blind) {inner : Drain σ}
    (behind : Behind point (check :: rest) d m)
    (ran : (runner state check).run inner d = some first) :
    ∃ others mine, m.unit.checks.oldest? point = some (check, others) ∧
      (runner state check).run noDrain (m.withChecks others) = some mine ∧
      mine.value = first.value ∧ mine.events = first.events ∧
      Behind point rest first.desk mine.desk := by
  cases found : m.unit.checks.oldest? point with
  | none =>
    have empty := oldest_none.mp found
    rw [behind.ahead] at empty
    cases empty
  | some pair =>
    obtain ⟨oldest, others⟩ := pair
    obtain ⟨here, elsewhere⟩ := oldest_some found
    simp only [behind.ahead, List.cons_append, List.cons.injEq] at here
    obtain ⟨rfl, left⟩ := here
    obtain ⟨grown, _, same⟩ := blind_run (blind state check) ran
    refine ⟨others, ⟨first.value, first.desk.withChecks ⟨others.entries ++ queuedIn first.events⟩,
      first.events⟩, rfl, ?_, rfl, rfl, ?_⟩
    · rw [behind.outside]
      exact same noDrain others
    · refine ⟨fun q => rfl, ?_, ?_⟩
      · simp only [waiting_eq] at left ⊢
        simp [grown, ← left]
      · intro other apart
        have before := (elsewhere other apart).symm.trans (behind.others other apart)
        simp only [waiting_eq] at before ⊢
        simp [grown, before]

def Explained (runner : Runner σ) (point : CheckPoint) (count : Nat) (state : σ) (m : Desk)
    (out : Outcome (Except UnitError Nat × σ)) : Prop :=
  ∃ final, OneByOne runner point count state m final ∧ Agrees out final

-- From the middle of a batch: the induction is on the rest of the batch, and
-- `refill` is what is known of the drain once the batch is used up.
theorem resume_explained (blind : runner.Blind)
    (refill : ∀ {count state d m out}, Behind point [] d m →
      drainFrom runner limit count point state d = some out →
      Explained runner point count state m out)
    (behind : Behind point batch d m)
    (ran : resume runner limit count point batch state d = some out) :
    Explained runner point count state m out := by
  induction batch generalizing count state d m out with
  | nil =>
    rw [resume_nil] at ran
    exact refill behind ran
  | cons check rest ih =>
    rw [resume_cons] at ran
    obtain ⟨first, began, settled⟩ := Option.bind_eq_some_iff.mp ran
    obtain ⟨others, mine, oldest, same, value, events, after⟩ := behind.run_head blind began
    rcases verdict : first.value with ⟨failure | ⟨⟩, next⟩
    · simp only [verdict] at settled
      cases Option.some.inj settled
      refine ⟨_, .failed oldest same (value.trans verdict), ?_⟩
      refine ⟨?_, ?_, ?_, ?_⟩
      · rw [after.display]
      · rw [events, behind.session]
      · intro q
        exact (after.outside q).symm
      · intro other
        by_cases here : point = other
        · subst here
          simp [after.ahead]
        · simp [here, after.others other (Ne.symm here)]
    · simp only [verdict] at settled
      obtain ⟨last, later, rfl⟩ := Option.map_eq_some_iff.mp settled
      obtain ⟨final, machine, agrees⟩ := ih after later
      refine ⟨_, .passed oldest same (value.trans verdict) machine, ?_⟩
      refine ⟨agrees.value, ?_, agrees.outside, agrees.waiting⟩
      simp only [events, behind.session, agrees.events]

theorem drainFrom_explained (blind : runner.Blind) (behind : Behind point [] d m)
    (ran : drainFrom runner limit count point state d = some out) :
    Explained runner point count state m out := by
  induction limit generalizing count state d m out with
  | zero => cases ran
  | succ limit ih =>
    cases found : d.unit.checks.waiting point with
    | nil =>
      rw [drainFrom_idle found] at ran
      cases Option.some.inj ran
      have none : m.unit.checks.oldest? point = none := by
        rw [oldest_none, behind.ahead, found]
        rfl
      refine ⟨_, .idle none, ?_⟩
      refine ⟨rfl, ?_, ?_, ?_⟩
      · rw [behind.display]
      · intro q
        exact (behind.outside q).symm
      · intro other
        by_cases here : other = point
        · subst here
          exact behind.ahead.symm
        · exact (behind.others other here).symm
    | cons check rest =>
      rw [drainFrom_batch found] at ran
      have taken := behind.take
      rw [found] at taken
      exact resume_explained blind ih taken ran

theorem Behind.run_oldest (blind : runner.Blind) (behind : Behind point (check :: rest) d m)
    (oldest : m.unit.checks.oldest? point = some (mine, left))
    (ran : (runner state mine).run noDrain (m.withChecks left) = some ended) :
    ∃ first, (∀ inner, (runner state check).run inner d = some first) ∧
      first.value = ended.value ∧ Behind point rest first.desk ended.desk := by
  obtain ⟨first, began⟩ := blind_ends noDrain (blind state check) d
  obtain ⟨_, _, again, same, value, _, after⟩ := behind.run_head blind began
  cases oldest.symm.trans again
  cases ran.symm.trans same
  exact ⟨first, blind_any (blind state check) began, value.symm, after⟩

-- A drain with an empty batch goes one more round and has a full one then.
theorem drained_of_full (behind : Behind point batch d m)
    (waits : m.unit.checks.waiting point ≠ [])
    (full : ∀ {check rest d}, Behind point (check :: rest) d m →
      ∃ limit out, resume runner limit count point (check :: rest) state d = some out) :
    ∃ limit out, resume runner limit count point batch state d = some out := by
  cases batch with
  | cons check rest => exact full behind
  | nil =>
    rw [behind.ahead] at waits
    cases found : d.unit.checks.waiting point with
    | nil => exact absurd found waits
    | cons check rest =>
      have taken := behind.take
      rw [found] at taken
      obtain ⟨limit, out, ran⟩ := full taken
      refine ⟨limit + 1, out, ?_⟩
      rw [resume_nil, drainFrom_batch found]
      exact ran

theorem oldest_waits {q : CheckQueue} (oldest : q.oldest? point = some found) :
    q.waiting point ≠ [] := by
  intro empty
  rw [oldest_none.mpr empty] at oldest
  cases oldest

theorem one_by_one_drained (blind : runner.Blind)
    (machine : OneByOne runner point count state m final) (behind : Behind point batch d m) :
    ∃ limit out, resume runner limit count point batch state d = some out := by
  -- The induction is on the machine: a batch boundary is no step of its own, and
  -- `drained_of_full` crosses it before each check.
  induction machine generalizing batch d with
  | idle none =>
    have empty := oldest_none.mp none
    rw [behind.ahead] at empty
    obtain ⟨rfl, rest⟩ := List.append_eq_nil_iff.mp empty
    exact ⟨1, _, resume_nil.trans (drainFrom_idle rest)⟩
  | failed oldest ran verdict =>
    apply drained_of_full behind (oldest_waits oldest)
    intro check rest d behind
    obtain ⟨first, began, value, _⟩ := behind.run_oldest blind oldest ran
    refine ⟨0, ?_⟩
    rw [resume_cons, began, Option.bind_some, value, verdict]
    exact ⟨_, rfl⟩
  | passed oldest ran verdict later ih =>
    apply drained_of_full behind (oldest_waits oldest)
    intro check rest d behind
    obtain ⟨first, began, value, after⟩ := behind.run_oldest blind oldest ran
    obtain ⟨limit, out, drained⟩ := ih after
    refine ⟨limit, ?_⟩
    rw [resume_cons, began, Option.bind_some, value, verdict]
    simp only [drained]
    exact ⟨_, rfl⟩

-- What a drain makes of the queue, read off its history. The checks of its own
-- checkpoint, those waiting and then those queued meanwhile, are started in this
-- order up to some point and wait in it from there on; those of the other
-- checkpoint only gain what was queued.
structure FirstInFirstOut (point : CheckPoint) (desk : Desk)
    (out : Outcome (Except UnitError Nat × σ)) : Prop where
  order : tagged point (desk.unit.checks.waiting point ++ ofPoint point (queuedIn out.events)) =
    startedIn out.events ++ tagged point (out.desk.unit.checks.waiting point)
  others : ∀ other, other ≠ point → out.desk.unit.checks.waiting other =
    desk.unit.checks.waiting other ++ ofPoint other (queuedIn out.events)
  passed : ∀ total, out.value.1 = .ok total →
    total = (startedIn out.events).length ∧ out.desk.unit.checks.waiting point = []
  failed : ∀ error, out.value.1 = .error error →
    ∃ cause, error = .checkFailed desk.unit.display cause

theorem Agrees.in_order (blind : runner.Blind) (machine : OneByOne runner point 0 state desk final)
    (agrees : Agrees out final) : FirstInFirstOut point desk out := by
  obtain ⟨value, events, _, waiting⟩ := agrees
  refine ⟨?_, ?_, ?_, ?_⟩
  · rw [events, waiting]
    exact one_by_one_order blind machine
  · intro other apart
    rw [events, waiting]
    exact one_by_one_others blind machine apart
  · intro total verdict
    rw [value] at verdict
    obtain ⟨counted, empty⟩ := one_by_one_passed blind machine verdict
    rw [events, waiting]
    exact ⟨by omega, empty⟩
  · intro error verdict
    rw [value] at verdict
    exact one_by_one_failed machine verdict

-- A drain with a blind runner is the machine that runs one check at a time: it
-- ends where the machine ends, and then with the machine's result, history and
-- unit, the queues being equal checkpoint by checkpoint.
theorem drain_refines_one_by_one (blind : runner.Blind) (point : CheckPoint) (state : σ)
    (desk : Desk) :
    ((∃ limit out, drain runner limit point state desk = some out) ↔
        ∃ final, OneByOne runner point 0 state desk final) ∧
      ∀ limit out, drain runner limit point state desk = some out →
        (∀ final, OneByOne runner point 0 state desk final → Agrees out final) ∧
          FirstInFirstOut point desk out := by
  have alike := Behind.refl point desk
  refine ⟨⟨?_, ?_⟩, ?_⟩
  · rintro ⟨limit, out, ran⟩
    obtain ⟨final, machine, _⟩ := drainFrom_explained blind alike ran
    exact ⟨final, machine⟩
  · rintro ⟨final, machine⟩
    obtain ⟨limit, out, ran⟩ := one_by_one_drained blind machine alike
    rw [resume_nil] at ran
    exact ⟨limit, out, ran⟩
  · intro limit out ran
    obtain ⟨final, machine, agrees⟩ := drainFrom_explained blind alike ran
    refine ⟨?_, agrees.in_order blind machine⟩
    intro other again
    cases one_by_one_unique machine again
    exact agrees

def spreading : Runner Nat := fun seen check =>
  match check with
  | .validate .. =>
    .change (.queueCheck .postUnit .syntheticsDrained) fun _ =>
      .change (.queueCheck .postTyper .syntheticsDrained) fun _ => .done (.ok (), seen + 1)
  | _ => .done (.error (.failed "spread" "late"), seen)

theorem spreading_blind : spreading.Blind := by
  intro seen check
  cases check with
  | validate => exact ⟨nofun, fun _ => ⟨nofun, fun _ => True.intro⟩⟩
  | _ => trivial

def mixedDesk : Desk :=
  let source : SourceFile := .persistent "A.scala" ""
  let check (code : String) : DeferredCheck := .validate code none ""
  ⟨{}, (CompilationUnit.new source).withChecks
    ⟨[(.postTyper, check "a"), (.postUnit, check "b"), (.postTyper, check "c")]⟩⟩

theorem spreading_refines :
    ∃ out final, drain spreading 2 .postTyper 0 mixedDesk = some out ∧
      OneByOne spreading .postTyper 0 0 mixedDesk final ∧ Agrees out final ∧
      FirstInFirstOut .postTyper mixedDesk out ∧
      out.value = (.error (.checkFailed "A.scala" (.failed "spread" "late")), 2) ∧
      out.desk.unit.checks.waiting .postTyper = [.syntheticsDrained] := by
  obtain ⟨ends, refines⟩ := drain_refines_one_by_one spreading_blind .postTyper 0 mixedDesk
  obtain ⟨final, machine⟩ := ends.mp ⟨2, _, rfl⟩
  obtain ⟨agrees, order⟩ := refines 2 _ rfl
  exact ⟨_, final, rfl, machine, agrees final machine, order, rfl, rfl⟩

end UnitPipeline
