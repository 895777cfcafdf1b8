import UnitPipeline.Proofs.Check.Limit
import UnitPipeline.Proofs.Check.Refinement

namespace UnitPipeline
variable {σ : Type} {runner : Runner σ}

structure OpenDrain where
  point : CheckPoint
  rest : List DeferredCheck
  ran : Nat

inductive Stage (σ : Type)
  | acting (action : Action σ (Except CheckFailure Unit × σ))
  | between (state : σ)
  | ended (result : Except UnitError Nat) (state : σ)

structure Caller (σ : Type) where
  level : OpenDrain
  next : Except UnitError Nat → σ → Action σ (Except CheckFailure Unit × σ)

-- Drains inside drains, one level for each, the innermost apart from the others.
structure Nest (σ : Type) where
  stage : Stage σ
  level : OpenDrain
  callers : List (Caller σ)
  desk : Desk

def Nest.call (point : CheckPoint) (state : σ) (callers : List (Caller σ)) (desk : Desk) : Nest σ :=
  ⟨.between state, ⟨point, [], 0⟩, callers, desk⟩

inductive Move (runner : Runner σ) : Nest σ → List UnitEvent → Nest σ → Prop where
  | look : Move runner ⟨.acting (.look next), level, callers, desk⟩ []
      ⟨.acting (next desk.session desk.unit), level, callers, desk⟩
  | change : Move runner ⟨.acting (.change op next), level, callers, desk⟩
      (op.events desk.session desk.unit)
      ⟨.acting (next (op.answer desk.session desk.unit)), level, callers,
        { desk with unit := op.apply desk.session desk.unit }⟩
  | enterPhase : Move runner ⟨.acting (.enterPhase phase next), level, callers, desk⟩ []
      ⟨.acting next, level, callers, { desk with session := desk.session.enterPhase phase }⟩
  | setTracking : Move runner ⟨.acting (.setTracking on next), level, callers, desk⟩ []
      ⟨.acting next, level, callers, { desk with session := desk.session.setTracking on }⟩
  | call : Move runner ⟨.acting (.drain point state next), level, callers, desk⟩ []
      (.call point state (⟨level, next⟩ :: callers) desk)
  | passed : Move runner ⟨.acting (.done (.ok (), state)), ⟨point, rest, ran⟩, callers, desk⟩ []
      ⟨.between state, ⟨point, rest, ran + 1⟩, callers, desk⟩
  | failed : Move runner ⟨.acting (.done (.error cause, state)), ⟨point, rest, ran⟩, callers, desk⟩ []
      ⟨.ended (.error (.checkFailed desk.unit.display cause)) state, ⟨point, [], ran⟩, callers,
        desk.withChecks (desk.unit.checks.requeue point rest)⟩
  | start : Move runner ⟨.between state, ⟨point, check :: rest, ran⟩, callers, desk⟩
      [.started point check desk.session.phase]
      ⟨.acting (runner state check), ⟨point, rest, ran⟩, callers, desk⟩
  | take (found : desk.unit.checks.waiting point = check :: rest) :
      Move runner ⟨.between state, ⟨point, [], ran⟩, callers, desk⟩ []
        ⟨.between state, ⟨point, check :: rest, ran⟩, callers,
          desk.withChecks (desk.unit.checks.without point)⟩
  | finish (empty : desk.unit.checks.waiting point = []) :
      Move runner ⟨.between state, ⟨point, [], ran⟩, callers, desk⟩
        [.drained desk.unit.display point ran]
        ⟨.ended (.ok ran) state, ⟨point, [], ran⟩, callers, desk⟩
  | back :
      Move runner ⟨.ended result state, ⟨point, [], ran⟩, ⟨level, next⟩ :: callers, desk⟩ []
        ⟨.acting (next result state), level, callers, desk⟩

inductive Moves (runner : Runner σ) : Nest σ → List UnitEvent → Nest σ → Prop where
  | rest : Moves runner n [] n
  | step : Move runner n now middle → Moves runner middle later m → Moves runner n (now ++ later) m

theorem Moves.trans (left : Moves runner n now middle) (right : Moves runner middle later m) :
    Moves runner n (now ++ later) m := by
  induction left with
  | rest => exact right
  | step first _ ih =>
    rw [List.append_assoc]
    exact .step first (ih right)

theorem Move.moves (move : Move runner n now m) : Moves runner n now m := by
  have path := Moves.step move .rest
  rwa [List.append_nil] at path

theorem move_unique (left : Move runner n now m) (right : Move runner n later k) :
    now = later ∧ m = k := by
  cases left with
  | take found =>
    cases right with
    | take again =>
      cases found.symm.trans again
      exact ⟨rfl, rfl⟩
    | finish empty =>
      cases found.symm.trans empty
  | finish empty =>
    cases right with
    | take found => cases found.symm.trans empty
    | finish _ => exact ⟨rfl, rfl⟩
  | _ =>
    cases right
    exact ⟨rfl, rfl⟩

theorem moves_next (move : Move runner n now m) (moves : Moves runner n told k) :
    (told = [] ∧ k = n) ∨ ∃ later, told = now ++ later ∧ Moves runner m later k := by
  cases moves with
  | rest => exact Or.inl ⟨rfl, rfl⟩
  | step first more =>
    obtain ⟨rfl, rfl⟩ := move_unique move first
    exact Or.inr ⟨_, rfl, more⟩

def Drain.Nests (runner : Runner σ) (inner : Drain σ) : Prop :=
  ∀ point state desk out, inner point state desk = some out → ∀ callers, ∃ ran,
    Moves runner (.call point state callers desk) out.events
      ⟨.ended out.value.1 out.value.2, ⟨point, [], ran⟩, callers, out.desk⟩

theorem action_moves {inner : Drain σ} (nests : inner.Nests runner)
    {action : Action σ (Except CheckFailure Unit × σ)} (ran : action.run inner desk = some out)
    (level : OpenDrain) (callers : List (Caller σ)) :
    Moves runner ⟨.acting action, level, callers, desk⟩ out.events
      ⟨.acting (.done out.value), level, callers, out.desk⟩ := by
  induction action generalizing desk out with
  | done value =>
    cases Option.some.inj ran
    exact .rest
  | look next ih => exact .step .look (ih _ _ ran)
  | change op next ih =>
    obtain ⟨later, inside, rfl⟩ := Option.map_eq_some_iff.mp ran
    exact .step .change (ih _ inside)
  | enterPhase phase next ih => exact .step .enterPhase (ih ran)
  | setTracking on next ih => exact .step .setTracking (ih ran)
  | drain point state next ih =>
    obtain ⟨first, drained, rest⟩ := Option.bind_eq_some_iff.mp ran
    obtain ⟨later, inside, rfl⟩ := Option.map_eq_some_iff.mp rest
    obtain ⟨_, body⟩ := nests _ _ _ _ drained (⟨level, next⟩ :: callers)
    have path := Moves.step .call (body.trans (.step .back (ih _ _ inside)))
    exact path

def settle (runner : Runner σ) (limit : Nat) (level : OpenDrain)
    (first : Outcome (Except CheckFailure Unit × σ)) : Option (Outcome (Except UnitError Nat × σ)) :=
  match first.value with
  | (.error failure, next) =>
    some ⟨(.error (.checkFailed first.desk.unit.display failure), next),
      first.desk.withChecks (first.desk.unit.checks.requeue level.point level.rest), first.events⟩
  | (.ok (), next) =>
    (resume runner limit (level.ran + 1) level.point level.rest next first.desk).map fun last =>
      { last with events := first.events ++ last.events }

theorem resume_settle : resume runner limit count point (check :: rest) state desk =
    ((runner state check).run (drainFrom runner limit 0) desk).bind fun first =>
      settle runner limit ⟨point, rest, count⟩
        { first with events := .started point check desk.session.phase :: first.events } :=
  resume_cons

theorem resume_moves (nests : (drainFrom runner limit 0).Nests runner)
    (refill : ∀ {count state desk out}, drainFrom runner limit count point state desk = some out →
      ∀ callers, ∃ total, Moves runner ⟨.between state, ⟨point, [], count⟩, callers, desk⟩ out.events
        ⟨.ended out.value.1 out.value.2, ⟨point, [], total⟩, callers, out.desk⟩)
    (ran : resume runner limit count point batch state desk = some out)
    (callers : List (Caller σ)) : ∃ total,
      Moves runner ⟨.between state, ⟨point, batch, count⟩, callers, desk⟩ out.events
        ⟨.ended out.value.1 out.value.2, ⟨point, [], total⟩, callers, out.desk⟩ := by
  induction batch generalizing count state desk out with
  | nil =>
    rw [resume_nil] at ran
    exact refill ran callers
  | cons check rest ih =>
    rw [resume_cons] at ran
    obtain ⟨first, began, settled⟩ := Option.bind_eq_some_iff.mp ran
    have body := action_moves nests began ⟨point, rest, count⟩ callers
    rcases verdict : first.value with ⟨failure | ⟨⟩, next⟩
    · simp only [verdict] at settled body
      cases Option.some.inj settled
      have path := Moves.step .start (body.trans (.step .failed .rest))
      rw [List.append_nil, List.append_nil] at path
      exact ⟨count, path⟩
    · simp only [verdict] at settled body
      obtain ⟨last, later, rfl⟩ := Option.map_eq_some_iff.mp settled
      obtain ⟨total, others⟩ := ih later
      have path := Moves.step .start (body.trans (.step .passed others))
      exact ⟨total, path⟩

theorem drainFrom_moves (ran : drainFrom runner limit count point state desk = some out)
    (callers : List (Caller σ)) : ∃ total,
      Moves runner ⟨.between state, ⟨point, [], count⟩, callers, desk⟩ out.events
        ⟨.ended out.value.1 out.value.2, ⟨point, [], total⟩, callers, out.desk⟩ := by
  induction limit generalizing count point state desk out callers with
  | zero => cases ran
  | succ limit ih =>
    cases found : desk.unit.checks.waiting point with
    | nil =>
      rw [drainFrom_idle found] at ran
      cases Option.some.inj ran
      exact ⟨_, (Move.finish found).moves⟩
    | cons check rest =>
      rw [drainFrom_batch found] at ran
      have nests : (drainFrom runner limit 0).Nests runner := fun _ _ _ _ inside => ih inside
      obtain ⟨total, path⟩ := resume_moves nests ih ran callers
      exact ⟨total, .step (.take found) path⟩

theorem resume_extends (within : limit ≤ larger)
    (ran : resume runner limit count point batch state desk = some out) :
    resume runner larger count point batch state desk = some out := by
  obtain ⟨one, inside, settled⟩ := Option.bind_eq_some_iff.mp ran
  refine Option.bind_eq_some_iff.mpr ⟨one, batch_extends (drainFrom_extends within 0) inside, ?_⟩
  rcases verdict : one.value with ⟨failure | more, next⟩
  · simpa [verdict] using settled
  · simp only [verdict] at settled ⊢
    obtain ⟨last, later, rfl⟩ := Option.map_eq_some_iff.mp settled
    exact Option.map_eq_some_iff.mpr ⟨last, drainFrom_extends within _ _ _ _ _ later, rfl⟩

def Nest.comes (runner : Runner σ) (limit : Nat) (n : Nest σ) :
    Option (Outcome (Except UnitError Nat × σ)) :=
  match n.stage with
  | .acting action =>
    (action.run (drainFrom runner limit 0) n.desk).bind (settle runner limit n.level)
  | .between state =>
    resume runner limit n.level.ran n.level.point n.level.rest state n.desk
  | .ended result state => some ⟨(result, state), n.desk, []⟩

def Unwinds (runner : Runner σ) : List (Caller σ) → Outcome (Except UnitError Nat × σ) →
    Outcome (Except UnitError Nat × σ) → Prop
  | [], first, out => out = first
  | caller :: outer, first, out => ∃ limit more,
      Nest.comes runner limit ⟨.acting (caller.next first.value.1 first.value.2), caller.level,
        outer, first.desk⟩ = some more ∧
      Unwinds runner outer { more with events := first.events ++ more.events } out

def Nest.Yields (runner : Runner σ) (n : Nest σ) (out : Outcome (Except UnitError Nat × σ)) : Prop :=
  ∃ limit first, n.comes runner limit = some first ∧ Unwinds runner n.callers first out

theorem settle_extends (within : limit ≤ larger)
    (ended : settle runner limit level first = some out) :
    settle runner larger level first = some out := by
  unfold settle at ended ⊢
  rcases verdict : first.value with ⟨failure | ⟨⟩, next⟩
  · simpa [verdict] using ended
  · simp only [verdict] at ended ⊢
    obtain ⟨last, later, rfl⟩ := Option.map_eq_some_iff.mp ended
    exact Option.map_eq_some_iff.mpr ⟨last, resume_extends within later, rfl⟩

theorem settle_told (told : List UnitEvent) (ended : settle runner limit level first = some out) :
    settle runner limit level { first with events := told ++ first.events } =
      some { out with events := told ++ out.events } := by
  unfold settle at ended ⊢
  rcases verdict : first.value with ⟨failure | ⟨⟩, next⟩
  · simp only [verdict] at ended ⊢
    cases Option.some.inj ended
    rfl
  · simp only [verdict] at ended ⊢
    obtain ⟨last, later, rfl⟩ := Option.map_eq_some_iff.mp ended
    simp [later]

theorem Unwinds.told (told : List UnitEvent) (unwinds : Unwinds runner callers first out) :
    Unwinds runner callers { first with events := told ++ first.events }
      { out with events := told ++ out.events } := by
  induction callers generalizing first with
  | nil =>
    cases unwinds
    rfl
  | cons caller outer ih =>
    obtain ⟨limit, more, comes, rest⟩ := unwinds
    refine ⟨limit, more, comes, ?_⟩
    simpa only [List.append_assoc] using ih rest

-- Whatever the rest of the way comes to, the way from one move before comes to
-- the same, with what the move tells in front.
theorem Move.yields (move : Move runner n now m) (yields : m.Yields runner out) :
    n.Yields runner { out with events := now ++ out.events } := by
  obtain ⟨limit, first, comes, unwinds⟩ := yields
  have whole := unwinds.told now
  cases move with
  | look => exact ⟨limit, first, comes, unwinds⟩
  | change =>
    obtain ⟨acted, ran, ended⟩ := Option.bind_eq_some_iff.mp comes
    refine ⟨limit, _, ?_, whole⟩
    exact Option.bind_eq_some_iff.mpr
      ⟨_, Option.map_eq_some_iff.mpr ⟨acted, ran, rfl⟩, settle_told _ ended⟩
  | enterPhase => exact ⟨limit, first, comes, unwinds⟩
  | setTracking => exact ⟨limit, first, comes, unwinds⟩
  | @call point state next level callers desk =>
    -- The drain inside and the rest of its caller were given different bounds.
    obtain ⟨other, more, acts, rest⟩ := unwinds
    obtain ⟨acted, ran, ended⟩ := Option.bind_eq_some_iff.mp acts
    have drained : drainFrom runner limit 0 point state desk = some first :=
      resume_nil.symm.trans comes
    have here := drainFrom_extends (Nat.le_max_left limit other) 0 _ _ _ _ drained
    have there := action_extends (drainFrom_extends (Nat.le_max_right limit other) 0) ran
    refine ⟨max limit other, _, ?_, rest⟩
    refine Option.bind_eq_some_iff.mpr ⟨_, Option.bind_eq_some_iff.mpr
      ⟨first, here, Option.map_eq_some_iff.mpr ⟨acted, there, rfl⟩⟩, ?_⟩
    exact settle_told _ (settle_extends (Nat.le_max_right limit other) ended)
  | passed =>
    refine ⟨limit, first, ?_, unwinds⟩
    refine Option.bind_eq_some_iff.mpr ⟨_, rfl, ?_⟩
    exact Option.map_eq_some_iff.mpr ⟨first, comes, rfl⟩
  | failed =>
    cases Option.some.inj comes
    exact ⟨limit, _, rfl, unwinds⟩
  | start =>
    obtain ⟨acted, ran, ended⟩ := Option.bind_eq_some_iff.mp comes
    refine ⟨limit, _, ?_, whole⟩
    refine resume_settle.trans (Option.bind_eq_some_iff.mpr ⟨acted, ran, ?_⟩)
    exact settle_told [_] ended
  | take found =>
    refine ⟨limit + 1, first, ?_, unwinds⟩
    refine resume_nil.trans ?_
    rw [drainFrom_batch found]
    exact comes
  | finish empty =>
    cases Option.some.inj comes
    refine ⟨1, _, ?_, whole⟩
    refine resume_nil.trans ?_
    rw [drainFrom_idle empty]
    rfl
  | back =>
    exact ⟨0, _, rfl, limit, first, comes, unwinds⟩

theorem Moves.yields (moves : Moves runner n told m) (yields : m.Yields runner out) :
    n.Yields runner { out with events := told ++ out.events } := by
  induction moves with
  | rest => exact yields
  | step first _ ih =>
    rw [List.append_assoc]
    exact first.yields (ih yields)

-- The nest is the drain: a call comes to its end in the one where it does in the
-- other, and with the same result, unit and history.
theorem drain_nest : (∃ limit, drain runner limit point state desk = some out) ↔
    ∃ total, Moves runner (.call point state [] desk) out.events
      ⟨.ended out.value.1 out.value.2, ⟨point, [], total⟩, [], out.desk⟩ := by
  constructor
  · rintro ⟨limit, ran⟩
    exact drainFrom_moves ran []
  · rintro ⟨total, path⟩
    have ended : Nest.Yields runner
      ⟨.ended out.value.1 out.value.2, ⟨point, [], total⟩, [], out.desk⟩ ⟨out.value, out.desk, []⟩ := ⟨0, _, rfl, rfl⟩
    obtain ⟨limit, first, comes, unwinds⟩ := path.yields ended
    cases unwinds
    rw [List.append_nil] at comes
    exact ⟨limit, resume_nil.symm.trans comes⟩

end UnitPipeline
