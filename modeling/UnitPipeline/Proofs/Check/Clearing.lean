import UnitPipeline.Proofs.Check.Overtaking

namespace UnitPipeline
variable {σ α : Type} {runner : Runner σ}

def Nest.inHand (n : Nest σ) (point : CheckPoint) : List DeferredCheck :=
  heldBy point n.callers ++ n.level.held point

-- A check clears its unit. It reaches the queue, and nothing that is in hand.
inductive Clears : Nest σ → Nest σ → Prop where
  | clear : Clears ⟨.acting (.change .clear next), level, callers, desk⟩
      ⟨.acting (next ()), level, callers, { desk with unit := desk.unit.cleared }⟩

theorem Clears.move {n m : Nest σ} (clears : Clears n m) :
    Move runner n [.cleared n.desk.unit.checks.entries] m := by
  cases clears
  exact .change

theorem Clears.acting {n m : Nest σ} (clears : Clears n m) :
    ∃ action, n.stage = .acting action := by
  cases clears
  exact ⟨_, rfl⟩

theorem Clears.pending {n m : Nest σ} (clears : Clears n m) (point : CheckPoint) :
    m.pending point = n.inHand point := by
  cases clears
  simp [Nest.pending, Nest.inHand, CompilationUnit.cleared, CheckQueue.waiting]

theorem pending_inHand (n : Nest σ) (point : CheckPoint) :
    n.pending point = n.inHand point ++ n.desk.unit.checks.waiting point :=
  (List.append_assoc _ _ _).symm

theorem inHand_came {n : Nest σ} (moves : Moves runner (.call own state [] desk) told n)
    (point : CheckPoint) : (n.inHand point).Sublist (came desk told point) := by
  have grown := moves_grow moves point
  rw [call_pending, pending_inHand] at grown
  exact (List.sublist_append_left _ _).trans grown

theorem clear_account {n m k : Nest σ} (clears : Clears n m) (moves : Moves runner m later k)
    (point : CheckPoint) : (n.inHand point ++ ofPoint point (queuedIn later)).Perm
      (ofPoint point (startedIn later) ++ ofPoint point (givenIn later) ++ k.pending point) := by
  have account := moves_account moves point
  rwa [clears.pending] at account

theorem came_append (desk : Desk) (told later : List UnitEvent) (point : CheckPoint) :
    came desk (told ++ later) point = came desk told point ++ ofPoint point (queuedIn later) := by
  simp [came, List.append_assoc]

theorem old_not_queued (distinct : (came desk (told ++ later) point).Nodup)
    (old : check ∈ came desk told point) : check ∉ ofPoint point (queuedIn later) := by
  rw [came_append] at distinct
  intro queued
  exact (List.nodup_append.mp distinct).2.2 _ old _ queued rfl

-- Of the checks that came before a clear, those that come up after it are those in hand
-- that no later clear gives up.
theorem clear_survivors {n m k : Nest σ} (before : Moves runner (.call own state [] desk) told n)
    (clears : Clears n m) (moves : Moves runner m later k)
    (distinct : (came desk (told ++ later) point).Nodup) (old : check ∈ came desk told point) :
    (check ∈ ofPoint point (startedIn later) ∨ check ∈ k.pending point) ↔
      check ∈ n.inHand point ∧ check ∉ ofPoint point (givenIn later) := by
  have account := clear_account clears moves point
  have new := old_not_queued distinct old
  rw [came_append] at distinct
  have apart : (ofPoint point (startedIn later) ++ ofPoint point (givenIn later) ++
      k.pending point).Nodup :=
    account.nodup_iff.mp (distinct.sublist ((inHand_came before point).append_right _))
  obtain ⟨firsts, _, behind⟩ := List.nodup_append.mp apart
  have once : check ∈ ofPoint point (givenIn later) →
      ¬ (check ∈ ofPoint point (startedIn later) ∨ check ∈ k.pending point) := by
    rintro given (started | pending)
    · exact (List.nodup_append.mp firsts).2.2 _ started _ given rfl
    · exact behind _ (List.mem_append_right _ given) _ pending rfl
  have members := account.mem_iff (a := check)
  simp only [List.mem_append, or_iff_left new] at members
  constructor
  · intro up
    refine ⟨members.mpr (up.imp_left Or.inl), fun given => once given up⟩
  · rintro ⟨held, kept⟩
    exact (members.mp held).imp_left fun first => first.resolve_right kept

def ClearsAway (runner : Runner σ) (own : CheckPoint) (state : σ) (desk : Desk)
    (point : CheckPoint) : Prop :=
  ∀ told n m later k, Moves runner (.call own state [] desk) told n → Clears n m →
    Moves runner m later k →
    (∀ check ∈ came desk told point, check ∉ ofPoint point (startedIn later)) ∧
      ∀ result after, k.stage = .ended result after → k.callers = [] →
        ∀ check ∈ k.desk.unit.checks.waiting point, check ∈ ofPoint point (queuedIn later)

def ClearsLast (runner : Runner σ) (own : CheckPoint) (state : σ) (desk : Desk)
    (point : CheckPoint) : Prop :=
  ∀ told n m, Moves runner (.call own state [] desk) told n → Clears n m → n.inHand point = []

def ToldApart (runner : Runner σ) (own : CheckPoint) (state : σ) (desk : Desk)
    (point : CheckPoint) : Prop :=
  ∀ told n, Moves runner (.call own state [] desk) told n → (came desk told point).Nodup

theorem Clears.between {n m k : Nest σ} (before : Moves runner first told n) (clears : Clears n m)
    (moves : Moves runner m later k) :
    Moves runner first (told ++ (.cleared n.desk.unit.checks.entries :: later)) k :=
  before.trans (.step clears.move moves)

theorem came_cleared (desk : Desk) (told later : List UnitEvent) (point : CheckPoint)
    (given : List (CheckPoint × DeferredCheck)) :
    came desk (told ++ .cleared given :: later) point = came desk (told ++ later) point := by
  rw [came_append, came_append]
  rfl

theorem clears_last_away (apart : ToldApart runner own state desk point)
    (last : ClearsLast runner own state desk point) : ClearsAway runner own state desk point := by
  intro told n m later k before clears moves
  have empty := last told n m before clears
  have distinct := apart _ k (clears.between before moves)
  rw [came_cleared] at distinct
  refine ⟨?_, ?_⟩
  · intro check old started
    have held := ((clear_survivors before clears moves distinct old).mp (Or.inl started)).1
    rw [empty] at held
    cases held
  · intro result after _ _ check waits
    have account := clear_account clears moves point
    rw [empty, List.nil_append, pending_inHand] at account
    exact account.mem_iff.mpr (by simp [waits])

def Deed.Flat (deed : Deed) : Prop := ∀ point, deed ≠ .drain point

structure Nest.Single (n : Nest σ) (own : CheckPoint) : Prop where
  point : n.level.point = own
  callers : n.callers = []
  stage : n.stage.Does Deed.Flat

theorem move_single (single : Nest.Single n own) (does : runner.Does Deed.Flat)
    (move : Move runner n now m) : m.Single own := by
  obtain ⟨point, callers, stage⟩ := single
  cases move with
  | look => exact ⟨point, callers, stage _ _⟩
  | change => exact ⟨point, callers, stage.2 _⟩
  | enterPhase => exact ⟨point, callers, stage.2⟩
  | setTracking => exact ⟨point, callers, stage.2⟩
  | call => exact absurd rfl (stage.1 _)
  | start => exact ⟨point, callers, does _ _⟩
  | back => cases callers
  | _ => exact ⟨point, callers, True.intro⟩

theorem moves_single (does : runner.Does Deed.Flat) (single : Nest.Single n own)
    (moves : Moves runner n told m) : m.Single own := by
  induction moves with
  | rest => exact single
  | step first _ ih => exact ih (move_single single does first)

theorem flat_ends (runner : Runner σ) {action : Action σ (Except CheckFailure Unit × σ)}
    (flat : action.Does Deed.Flat) (level : OpenDrain) (callers : List (Caller σ)) (desk : Desk) :
    ∃ told value after, Moves runner ⟨.acting action, level, callers, desk⟩ told
      ⟨.acting (.done value), level, callers, after⟩ := by
  induction action generalizing desk with
  | done value => exact ⟨[], value, desk, .rest⟩
  | look next ih =>
    obtain ⟨told, value, after, moves⟩ := ih _ _ (flat _ _) desk
    exact ⟨told, value, after, .step .look moves⟩
  | change op next ih =>
    obtain ⟨told, value, after, moves⟩ := ih _ (flat.2 _) _
    exact ⟨_, value, after, .step .change moves⟩
  | enterPhase phase next ih =>
    obtain ⟨told, value, after, moves⟩ := ih flat.2 _
    exact ⟨told, value, after, .step .enterPhase moves⟩
  | setTracking on next ih =>
    obtain ⟨told, value, after, moves⟩ := ih flat.2 _
    exact ⟨told, value, after, .step .setTracking moves⟩
  | drain point state next ih => exact absurd rfl (flat.1 point)

-- What a drain holds comes up next: the first of it is started, or the drain fails and
-- all of it is left.
theorem held_up (runner : Runner σ) {action : Action σ (Except CheckFailure Unit × σ)}
    (flat : action.Does Deed.Flat) (own : CheckPoint) (check : DeferredCheck)
    (rest : List DeferredCheck) (ran : Nat) (desk : Desk) : ∃ later k,
      Moves runner ⟨.acting action, ⟨own, check :: rest, ran⟩, [], desk⟩ later k ∧
        (check ∈ ofPoint own (startedIn later) ∨ ∃ result after, k.stage = .ended result after ∧
          k.callers = [] ∧ check ∈ k.desk.unit.checks.waiting own) := by
  obtain ⟨told, ⟨cause | ⟨⟩, state⟩, after, moves⟩ :=
    flat_ends runner flat ⟨own, check :: rest, ran⟩ [] desk
  · exact ⟨_, _, moves.trans Move.failed.moves, Or.inr ⟨_, _, rfl, rfl, by simp⟩⟩
  · exact ⟨_, _, moves.trans (.step .passed Move.start.moves), Or.inl (by simp [ofPoint])⟩

theorem clears_away_last (does : runner.Does Deed.Flat)
    (apart : ToldApart runner own state desk point)
    (away : ClearsAway runner own state desk point) : ClearsLast runner own state desk point := by
  intro told n m before clears
  have begun : (Nest.call own state [] desk).Single own := ⟨rfl, rfl, True.intro⟩
  obtain ⟨here, alone, flat⟩ := moves_single does begun (before.trans clears.move.moves)
  cases clears with
  | @clear next level callers middle =>
    obtain ⟨batchPoint, rest, ran⟩ := level
    obtain rfl : batchPoint = own := here
    obtain rfl : callers = [] := alone
    by_cases same : batchPoint = point
    · subst same
      cases rest with
      | nil => simp [Nest.inHand, heldBy]
      | cons check rest =>
        exfalso
        have old : check ∈ came desk told batchPoint :=
          (inHand_came before batchPoint).subset (by simp [Nest.inHand, heldBy])
        obtain ⟨later, k, moves, started | ⟨result, after, ended, outermost, waits⟩⟩ :=
          held_up runner flat batchPoint check rest ran { middle with unit := middle.unit.cleared }
        · exact (away told _ _ _ _ before .clear moves).1 check old started
        · have queued := (away told _ _ _ _ before .clear moves).2 result after ended outermost check
            waits
          have distinct := apart _ _ (Clears.clear.between before moves)
          rw [came_cleared] at distinct
          exact old_not_queued distinct old queued
    · simp [Nest.inHand, heldBy, OpenDrain.held_other same]

-- Clearing a unit from inside a drain. Of what came before, that comes up again which the
-- drains under way hold and which no later clear gives up, and nothing else: a clear that
-- comes when nothing is held empties the queue for good. Where the checks drain nothing
-- themselves, no other clear does.
structure Clearing (runner : Runner σ) (own : CheckPoint) (state : σ) (desk : Desk)
    (point : CheckPoint) : Prop where
  nest : ∀ out, (∃ limit, drain runner limit own state desk = some out) ↔
    ∃ total, Moves runner (.call own state [] desk) out.events
      ⟨.ended out.value.1 out.value.2, ⟨own, [], total⟩, [], out.desk⟩
  account : ∀ told n m later k, Moves runner (.call own state [] desk) told n → Clears n m →
    Moves runner m later k → (n.inHand point ++ ofPoint point (queuedIn later)).Perm
      (ofPoint point (startedIn later) ++ ofPoint point (givenIn later) ++ k.pending point)
  survivors : ∀ told n m later k, Moves runner (.call own state [] desk) told n → Clears n m →
    Moves runner m later k → (came desk (told ++ later) point).Nodup →
    ∀ check ∈ came desk told point,
      (check ∈ ofPoint point (startedIn later) ∨ check ∈ k.pending point) ↔
        check ∈ n.inHand point ∧ check ∉ ofPoint point (givenIn later)
  kept : ToldApart runner own state desk point → ClearsLast runner own state desk point →
    ClearsAway runner own state desk point
  exact : runner.Does Deed.Flat → ToldApart runner own state desk point →
    (ClearsAway runner own state desk point ↔ ClearsLast runner own state desk point)

theorem clearing_exact (runner : Runner σ) (own : CheckPoint) (state : σ) (desk : Desk)
    (point : CheckPoint) : Clearing runner own state desk point where
  nest _ := drain_nest
  account _ _ _ _ _ _ clears moves := clear_account clears moves point
  survivors _ _ _ _ _ before clears moves distinct _ old :=
    clear_survivors before clears moves distinct old
  kept := clears_last_away
  exact does apart := ⟨clears_away_last does apart, clears_last_away apart⟩

def clearing : Runner Bool := fun fails check =>
  match check with
  | .validate code .. =>
    .change .clear fun _ =>
      .done (if fails then .error (.failed code "cleared") else .ok (), fails)
  | _ => .done (.ok (), fails)

theorem clearing_survived :
    (∃ out, drain clearing 3 .postUnit false twoWaiting = some out ∧ out.value.1 = .ok 2 ∧
      out.events = [.started .postUnit (.validate "a" none "") .init, .cleared [],
        .started .postUnit .syntheticsDrained .init, .drained "A.scala" .postUnit 2]) ∧
    (∃ out, drain clearing 3 .postUnit true twoWaiting = some out ∧
      out.events = [.started .postUnit (.validate "a" none "") .init, .cleared []] ∧
      out.desk.unit.checks.entries = [(.postUnit, .syntheticsDrained)]) ∧
    ¬ ClearsAway clearing .postUnit false twoWaiting .postUnit ∧
    ¬ ClearsAway clearing .postUnit true twoWaiting .postUnit := by
  have begun (fails : Bool) : Moves clearing (.call .postUnit fails [] twoWaiting) _ _ :=
    .step (.take rfl) (.step .start .rest)
  refine ⟨⟨_, rfl, rfl, rfl⟩, ⟨_, rfl, rfl, rfl⟩, ?_, ?_⟩
  · intro away
    obtain ⟨unstarted, _⟩ := away _ _ _ _ _ (begun false) .clear
      (.step .passed (.step .start .rest))
    exact unstarted .syntheticsDrained (by decide) (by decide)
  · intro away
    obtain ⟨_, left⟩ := away _ _ _ _ _ (begun true) .clear (.step .failed .rest)
    have queued := left _ _ rfl rfl .syntheticsDrained (by decide)
    exact absurd queued (by decide)

def oneWaiting : Desk :=
  ⟨{}, (CompilationUnit.new (.persistent "A.scala" "")).withChecks
    ⟨[(.postUnit, .validate "a" none "")]⟩⟩

theorem oneWaiting_moments (moves : Moves clearing (.call .postUnit false [] oneWaiting) told n) :
    queuedIn told = [] ∧ ((∃ action, n.stage = .acting action) → n.inHand .postUnit = []) := by
  obtain ⟨rfl, rfl⟩ | ⟨_, rfl, taken⟩ := moves_next (.take rfl) moves
  · exact ⟨rfl, nofun⟩
  obtain ⟨rfl, rfl⟩ | ⟨_, rfl, begun⟩ := moves_next .start taken
  · exact ⟨rfl, nofun⟩
  obtain ⟨rfl, rfl⟩ | ⟨_, rfl, cleared⟩ := moves_next .change begun
  · exact ⟨rfl, fun _ => rfl⟩
  obtain ⟨rfl, rfl⟩ | ⟨_, rfl, passed⟩ := moves_next .passed cleared
  · exact ⟨rfl, fun _ => rfl⟩
  obtain ⟨rfl, rfl⟩ | ⟨_, rfl, ended⟩ := moves_next (.finish rfl) passed
  · exact ⟨rfl, nofun⟩
  cases ended with
  | rest => exact ⟨rfl, nofun⟩
  | step last _ => cases last

theorem clearing_flat : clearing.Does Deed.Flat := by
  intro fails check
  cases check with
  | validate => exact ⟨nofun, fun _ => True.intro⟩
  | _ => trivial

theorem clearing_cleared :
    (∃ told n m later k, Moves clearing (.call .postUnit false [] twoWaiting) told n ∧
      Clears n m ∧ Moves clearing m later k ∧
      (∀ check ∈ came twoWaiting told .postUnit,
        (check ∈ ofPoint .postUnit (startedIn later) ∨ check ∈ k.pending .postUnit) ↔
          check = .syntheticsDrained)) ∧
    ClearsAway clearing .postUnit false oneWaiting .postUnit := by
  have law := clearing_exact clearing .postUnit false twoWaiting .postUnit
  have begun : Moves clearing (.call .postUnit false [] twoWaiting) _ _ :=
    .step (.take rfl) (.step .start .rest)
  refine ⟨⟨_, _, _, _, _, begun, .clear, .step .passed (.step .start .rest), ?_⟩, ?_⟩
  · intro check old
    refine (law.survivors _ _ _ _ _ begun .clear (.step .passed (.step .start .rest)) (by decide)
      check old).trans ?_
    exact ⟨fun up => List.mem_singleton.mp up.1, fun same => ⟨List.mem_singleton.mpr same, nofun⟩⟩
  · have other := clearing_exact clearing .postUnit false oneWaiting .postUnit
    have apart : ToldApart clearing .postUnit false oneWaiting .postUnit := by
      intro told n moves
      rw [came, (oneWaiting_moments moves).1]
      decide
    refine (other.exact clearing_flat apart).mpr ?_
    intro told n m moves clears
    exact (oneWaiting_moments moves).2 clears.acting

end UnitPipeline
