import UnitPipeline.Proofs.Check.Conservation
import UnitPipeline.Proofs.Check.Nest

namespace UnitPipeline
variable {σ : Type} {runner : Runner σ}

def OpenDrain.held (level : OpenDrain) (point : CheckPoint) : List DeferredCheck :=
  if level.point = point then level.rest else []

@[simp] theorem OpenDrain.held_nil (point other : CheckPoint) (ran : Nat) :
    (OpenDrain.mk point [] ran).held other = [] := ite_self _

@[simp] theorem OpenDrain.held_own (point : CheckPoint) (rest : List DeferredCheck) (ran : Nat) :
    (OpenDrain.mk point rest ran).held point = rest := if_pos rfl

theorem OpenDrain.held_other {own point : CheckPoint} (apart : own ≠ point)
    (rest : List DeferredCheck) (ran : Nat) :
    (OpenDrain.mk own rest ran).held point = [] := if_neg apart

def heldBy (point : CheckPoint) : List (Caller σ) → List DeferredCheck
  | [] => []
  | caller :: outer => heldBy point outer ++ caller.level.held point

def Nest.pending (n : Nest σ) (point : CheckPoint) : List DeferredCheck :=
  heldBy point n.callers ++ (n.level.held point ++ n.desk.unit.checks.waiting point)

def Nest.starts? (n : Nest σ) : Option (CheckPoint × DeferredCheck) :=
  match n.stage, n.level.rest with
  | .between _, check :: _ => some (n.level.point, check)
  | _, _ => none

theorem starts_here {n : Nest σ} (starts : n.starts? = some (point, check)) :
    n.level.point = point := by
  unfold Nest.starts? at starts
  split at starts
  · cases Option.some.inj starts
    rfl
  · cases starts

def Nest.Overtakes (n : Nest σ) (point : CheckPoint) : Prop :=
  (∃ check, n.starts? = some (point, check)) ∧ heldBy point n.callers ≠ []

theorem change_waiting (s : Session) (u : CompilationUnit) (op : UnitOp) (point : CheckPoint) :
    u.checks.waiting point ++ ofPoint point op.queues =
      (op.apply s u).checks.waiting point ++ ofPoint point (op.givesUp u) := by
  by_cases clears : op = .clear
  · subst clears
    simp [UnitOp.queues, UnitOp.givesUp, UnitOp.apply, CompilationUnit.cleared, waiting_eq, ofPoint]
  · have none : op.givesUp u = [] := by cases op <;> first | rfl | exact absurd rfl clears
    simp [waiting_eq, op.apply_checks s u clears, none, ofPoint]

-- What one move does to the checks that are still to be started: it appends what
-- it queues, or gives up the last of them, or starts one. The one that it starts
-- has in front of it what the callers hold.
theorem move_pending (move : Move runner n now m) (point : CheckPoint) :
    (ofPoint point (startedIn now) = [] ∧
        n.pending point ++ ofPoint point (queuedIn now) =
          m.pending point ++ ofPoint point (givenIn now)) ∨
      ∃ check younger, n.starts? = some (point, check) ∧
        ofPoint point (startedIn now) = [check] ∧ queuedIn now = [] ∧ givenIn now = [] ∧
        n.pending point = heldBy point n.callers ++ check :: younger ∧
        m.pending point = heldBy point n.callers ++ younger := by
  cases move with
  | @change op next level callers desk =>
    obtain ⟨queued, started, given⟩ := op.events_account desk.session desk.unit
    have here := change_waiting desk.session desk.unit op point
    refine Or.inl ⟨by simp [started, ofPoint], ?_⟩
    simp only [Nest.pending, queued, given, List.append_assoc, here]
  | call =>
    refine Or.inl ⟨rfl, ?_⟩
    simp [Nest.pending, Nest.call, heldBy, ofPoint]
  | @failed cause state own rest ran callers desk =>
    refine Or.inl ⟨rfl, ?_⟩
    by_cases same : own = point
    · -- What goes back to the head of the queue is what the drain held.
      subst same
      simp [Nest.pending, ofPoint]
    · simp [Nest.pending, ofPoint, OpenDrain.held_other same, same]
  | @start state own check rest ran callers desk =>
    by_cases same : own = point
    · subst same
      refine Or.inr ⟨check, rest ++ desk.unit.checks.waiting own, rfl, ?_, rfl, rfl, ?_, ?_⟩
      · simp [ofPoint]
      · simp [Nest.pending]
      · simp [Nest.pending]
    · refine Or.inl ⟨by simp [ofPoint, same], ?_⟩
      simp [Nest.pending, OpenDrain.held_other same, ofPoint]
  | @take check rest state own ran callers desk found =>
    refine Or.inl ⟨rfl, ?_⟩
    by_cases same : own = point
    · subst same
      simp [Nest.pending, ofPoint, found]
    · simp [Nest.pending, ofPoint, OpenDrain.held_other same, same]
  | finish empty =>
    refine Or.inl ⟨rfl, ?_⟩
    simp [Nest.pending, ofPoint]
  | _ =>
    refine Or.inl ⟨rfl, ?_⟩
    simp [Nest.pending, heldBy, OpenDrain.held, ofPoint]

theorem move_grows (move : Move runner n now m) (point : CheckPoint) :
    (m.pending point).Sublist (n.pending point ++ ofPoint point (queuedIn now)) := by
  obtain ⟨_, same⟩ | ⟨check, younger, _, _, queued, _, before, after⟩ := move_pending move point
  · rw [same]
    exact List.sublist_append_left _ _
  · rw [before, after, queued]
    simp [ofPoint]

theorem moves_grow (moves : Moves runner n told m) (point : CheckPoint) :
    (m.pending point).Sublist (n.pending point ++ ofPoint point (queuedIn told)) := by
  induction moves with
  | rest => simp [ofPoint]
  | step first _ ih =>
    have whole := ih.trans ((move_grows first point).append_right _)
    simpa [List.append_assoc] using whole

theorem moves_account (moves : Moves runner n told m) (point : CheckPoint) :
    (n.pending point ++ ofPoint point (queuedIn told)).Perm
      (ofPoint point (startedIn told) ++ ofPoint point (givenIn told) ++ m.pending point) := by
  induction moves with
  | rest => simp [ofPoint]
  | step first _ ih =>
    rw [List.perm_iff_count] at ih ⊢
    intro e
    have later := ih e
    simp only [queuedIn_append, startedIn_append, givenIn_append, ofPoint_append,
      List.count_append] at later ⊢
    obtain ⟨none, same⟩ | ⟨check, younger, _, begun, queued, given, before, after⟩ :=
      move_pending first point
    · have here := congrArg (List.count e) same
      simp only [List.count_append] at here
      simp only [none, List.count_nil]
      omega
    · simp only [begun, queued, given, before, after, ofPoint_nil, List.count_append,
        List.count_cons, List.count_nil] at later ⊢
      omega

-- Oldest first: the checks that are neither started nor given up are younger than
-- those that are started, which are in the order in which they came.
def InTurn (came started given : List DeferredCheck) : Prop :=
  ∃ left, (started ++ left).Sublist came ∧ came.Perm (started ++ given ++ left)

theorem inTurn_front : InTurn came started [] ↔ started <+: came := by
  constructor
  · rintro ⟨left, inside, all⟩
    have length := all.length_eq
    rw [List.append_nil] at length
    exact ⟨left, inside.eq_of_length length.symm⟩
  · rintro ⟨left, rfl⟩
    exact ⟨left, .refl _, by simp⟩

def Orderly (runner : Runner σ) (n : Nest σ) (point : CheckPoint) : Prop :=
  ∀ told m, Moves runner n told m → ¬ m.Overtakes point

theorem orderly_grow (orderly : Orderly runner n point) (moves : Moves runner n told m) :
    (ofPoint point (startedIn told) ++ m.pending point).Sublist
      (n.pending point ++ ofPoint point (queuedIn told)) := by
  induction moves with
  | rest => simp
  | @step n now middle later m first rest ih =>
    have onward := ih fun told k path => orderly _ k (.step first path)
    simp only [startedIn_append, queuedIn_append, ofPoint_append, List.append_assoc]
    obtain ⟨none, _⟩ | ⟨check, younger, next, begun, queued, _, before, after⟩ :=
      move_pending first point
    · have grown := onward.trans ((move_grows first point).append_right _)
      rw [List.append_assoc] at grown
      rwa [none]
    · have alone : heldBy point n.callers = [] :=
        Decidable.byContradiction fun held => orderly [] n .rest ⟨⟨check, next⟩, held⟩
      rw [alone] at before after
      rw [after] at onward
      rw [begun, queued, before]
      exact onward.cons_cons check

theorem nodup_ordered {l : List DeferredCheck} (distinct : l.Nodup) (one : [x, y].Sublist l) :
    ¬ [y, x].Sublist l := by
  induction l with
  | nil => cases one
  | cons first rest ih =>
    obtain ⟨new, others⟩ := List.nodup_cons.mp distinct
    intro two
    cases one with
    | cons _ one =>
      cases two with
      | cons _ two => exact ih others one two
      | cons_cons _ two => exact new (one.subset (by simp))
    | cons_cons _ one =>
      cases two with
      | cons _ two => exact new (two.subset (by simp))
      | cons_cons _ two => exact new (one.subset (by simp))

theorem starts_told (move : Move runner n now m) (starts : n.starts? = some (point, check)) :
    now = [.started point check n.desk.session.phase] := by
  cases move with
  | start =>
    cases Option.some.inj starts
    rfl
  | _ => cases starts

theorem overtaking_out_of_turn (moves : Moves runner n told m) (overtakes : m.Overtakes point)
    (move : Move runner m now next)
    (distinct : (n.pending point ++ ofPoint point (queuedIn told)).Nodup) :
    ¬ InTurn (n.pending point ++ ofPoint point (queuedIn (told ++ now)))
      (ofPoint point (startedIn (told ++ now))) (ofPoint point (givenIn (told ++ now))) := by
  obtain ⟨⟨check, starts⟩, held⟩ := overtakes
  cases starts_told move starts
  obtain ⟨none, _⟩ | ⟨_, younger, again, begun, queued, _, before, after⟩ :=
    move_pending move point
  · simp [ofPoint] at none
  · cases starts.symm.trans again
    obtain ⟨older, others, same⟩ := List.exists_cons_of_ne_nil held
    rw [same] at before after
    -- The oldest check that is held is among those left, so in turn it would have to
    -- be younger than the one that is started.
    rintro ⟨left, inside, all⟩
    have account := moves_account (moves.trans move.moves) point
    have later : older ∈ left := by
      have rests := (List.perm_append_left_iff _).mp (account.symm.trans all)
      rw [after] at rests
      exact rests.subset (by simp)
    have first : [older, check].Sublist (m.pending point) := by
      rw [before]
      simp
    have second := ((List.singleton_sublist.mpr later).cons_cons check).trans
      (List.sublist_append_right (ofPoint point (startedIn told)) (check :: left))
    rw [startedIn_append, queuedIn_append, ofPoint_append, ofPoint_append, begun, queued, ofPoint_nil,
      List.append_nil, List.append_assoc] at inside
    exact nodup_ordered distinct (first.trans (moves_grow moves point)) (second.trans inside)

-- A drain that has ended well holds nothing and has left nothing waiting.
def Nest.Settled (n : Nest σ) : Prop :=
  ∀ total state, n.stage = .ended (.ok total) state →
    n.level.rest = [] ∧ n.desk.unit.checks.waiting n.level.point = []

theorem moves_settled (settled : n.Settled) (moves : Moves runner n told m) : m.Settled := by
  induction moves with
  | rest => exact settled
  | step first _ ih =>
    apply ih
    cases first with
    | finish empty => exact fun _ _ _ => ⟨rfl, empty⟩
    | _ => exact nofun

theorem settled_pending {n : Nest σ} (settled : n.Settled)
    (ended : n.stage = .ended (.ok total) state) :
    n.pending n.level.point = heldBy n.level.point n.callers := by
  obtain ⟨used, empty⟩ := settled total state ended
  simp [Nest.pending, OpenDrain.held, used, empty]

def Stage.Does (allowed : Deed → Prop) : Stage σ → Prop
  | .acting action => action.Does allowed
  | .between _ | .ended .. => True

def Below (point : CheckPoint) : CheckPoint → List (Caller σ) → Prop
  | _, [] => True
  | own, caller :: outer => own ≠ point ∧ Below point caller.level.point outer

structure Nest.Apart (n : Nest σ) (point : CheckPoint) : Prop where
  stage : n.stage.Does (· ≠ .drain point)
  callers : ∀ caller ∈ n.callers, ∀ result state,
    (caller.next result state).Does (· ≠ .drain point)
  below : Below point n.level.point n.callers

theorem move_apart (apart : n.Apart point) (does : runner.Does (· ≠ .drain point))
    (move : Move runner n now m) : m.Apart point := by
  obtain ⟨stage, callers, below⟩ := apart
  cases move with
  | look => exact ⟨stage _ _, callers, below⟩
  | change => exact ⟨stage.2 _, callers, below⟩
  | enterPhase => exact ⟨stage.2, callers, below⟩
  | setTracking => exact ⟨stage.2, callers, below⟩
  | call =>
    obtain ⟨other, later⟩ := stage
    refine ⟨True.intro, List.forall_mem_cons.mpr ⟨later, callers⟩, ?_, below⟩
    intro same
    exact other (congrArg Deed.drain same)
  | start => exact ⟨does _ _, callers, below⟩
  | back =>
    obtain ⟨next, outer⟩ := List.forall_mem_cons.mp callers
    exact ⟨next _ _, outer, below.2⟩
  | _ => exact ⟨True.intro, callers, below⟩

theorem moves_apart (does : runner.Does (· ≠ .drain point)) (apart : n.Apart point)
    (moves : Moves runner n told m) : m.Apart point := by
  induction moves with
  | rest => exact apart
  | step first _ ih => exact ih (move_apart apart does first)

theorem Nest.Apart.alone {n : Nest σ} (apart : n.Apart point) (here : n.level.point = point) :
    n.callers = [] := by
  have below := apart.below
  cases around : n.callers with
  | nil => rfl
  | cons caller outer =>
    rw [around] at below
    exact absurd here below.1

def came (desk : Desk) (told : List UnitEvent) (point : CheckPoint) : List DeferredCheck :=
  desk.unit.checks.waiting point ++ ofPoint point (queuedIn told)

theorem call_pending (own point : CheckPoint) (state : σ) (desk : Desk) :
    (Nest.call own state [] desk).pending point = desk.unit.checks.waiting point := by
  simp [Nest.pending, Nest.call, heldBy]

-- What holds of the checks of one checkpoint while a drain goes on that may drain
-- again from inside its checks. They are started oldest first as long as no check
-- is started inside a drain that holds some back; the first that is comes out of
-- turn. When a drain of theirs ends well, no matter how deep inside, the ones not
-- started are those that the drains around it hold.
structure Overtaking (runner : Runner σ) (own : CheckPoint) (state : σ) (desk : Desk)
    (point : CheckPoint) : Prop where
  nest : ∀ out, (∃ limit, drain runner limit own state desk = some out) ↔
    ∃ total, Moves runner (.call own state [] desk) out.events
      ⟨.ended out.value.1 out.value.2, ⟨own, [], total⟩, [], out.desk⟩
  kept : Orderly runner (.call own state [] desk) point →
    ∀ told n, Moves runner (.call own state [] desk) told n →
      InTurn (came desk told point) (ofPoint point (startedIn told)) (ofPoint point (givenIn told))
  broken : ∀ told n now m, Moves runner (.call own state [] desk) told n → n.Overtakes point →
    Move runner n now m → (came desk told point).Nodup →
      ¬ InTurn (came desk (told ++ now) point) (ofPoint point (startedIn (told ++ now)))
        (ofPoint point (givenIn (told ++ now)))
  returned : ∀ told n total after, Moves runner (.call own state [] desk) told n →
    n.stage = .ended (.ok total) after → n.level.point = point →
      (came desk told point).Perm (ofPoint point (startedIn told) ++ ofPoint point (givenIn told) ++
        heldBy point n.callers)
  apart : runner.Does (· ≠ .drain point) → Orderly runner (.call own state [] desk) point ∧
    ∀ told n, Moves runner (.call own state [] desk) told n → n.level.point = point →
      n.callers = []

theorem overtaking_exact (runner : Runner σ) (own : CheckPoint) (state : σ) (desk : Desk)
    (point : CheckPoint) : Overtaking runner own state desk point := by
  have first := call_pending own point state desk
  refine ⟨fun out => drain_nest, ?_, ?_, ?_, ?_⟩
  · intro orderly told n moves
    have grown := orderly_grow orderly moves
    have account := moves_account moves point
    rw [first] at grown account
    exact ⟨n.pending point, grown, account⟩
  · intro told n now m moves overtakes move distinct
    have out := overtaking_out_of_turn moves overtakes move
    rw [first] at out
    exact out distinct
  · intro told n total after moves ended here
    have settled : (Nest.call own state [] desk).Settled := nofun
    have account := moves_account moves point
    subst here
    rwa [first, settled_pending (moves_settled settled moves) ended] at account
  · intro does
    have begun : (Nest.call own state [] desk).Apart point :=
      ⟨True.intro, nofun, True.intro⟩
    refine ⟨?_, fun told n moves => (moves_apart does begun moves).alone⟩
    rintro told n moves ⟨⟨check, starts⟩, held⟩
    rw [(moves_apart does begun moves).alone (starts_here starts)] at held
    exact held rfl

def redraining : Runner Unit := fun _ check =>
  match check with
  | .validate .. =>
    .change (.queueCheck .postUnit (.computed ⟨0⟩)) fun _ =>
      .drain .postUnit () fun _ _ => .done (.ok (), ())
  | _ => .done (.ok (), ())

def twoWaiting : Desk :=
  ⟨{}, (CompilationUnit.new (.persistent "A.scala" "")).withChecks
    ⟨[(.postUnit, .validate "a" none ""), (.postUnit, .syntheticsDrained)]⟩⟩

theorem redraining_overtakes : ∃ out, drain redraining 3 .postUnit () twoWaiting = some out ∧
    out.value.1 = .ok 2 ∧
    out.events = [.started .postUnit (.validate "a" none "") .init,
      .queued .postUnit (.computed ⟨0⟩), .started .postUnit (.computed ⟨0⟩) .init,
      .drained "A.scala" .postUnit 1, .started .postUnit .syntheticsDrained .init,
      .drained "A.scala" .postUnit 2] ∧
    ¬ InTurn (came twoWaiting out.events .postUnit) (ofPoint .postUnit (startedIn out.events))
      (ofPoint .postUnit (givenIn out.events)) := by
  refine ⟨_, rfl, rfl, rfl, ?_⟩
  change ¬ InTurn _ _ []
  rw [inTurn_front]
  decide

theorem nesting_apart : nesting.Does (· ≠ .drain .postTyper) := by
  intro seen check
  cases check with
  | validate => exact ⟨nofun, fun _ => ⟨nofun, fun _ _ => True.intro⟩⟩
  | _ => trivial

theorem redraining_overtaking :
    (∃ told n now m, Moves redraining (.call .postUnit () [] twoWaiting) told n ∧
      n.Overtakes .postUnit ∧ Move redraining n now m ∧ (came twoWaiting told .postUnit).Nodup ∧
      ¬ InTurn (came twoWaiting (told ++ now) .postUnit) (ofPoint .postUnit (startedIn (told ++ now)))
        (ofPoint .postUnit (givenIn (told ++ now)))) ∧
    (∃ told n after, Moves redraining (.call .postUnit () [] twoWaiting) told n ∧
      n.stage = .ended (.ok 1) after ∧ heldBy .postUnit n.callers = [.syntheticsDrained] ∧
      (came twoWaiting told .postUnit).Perm (ofPoint .postUnit (startedIn told) ++
        ofPoint .postUnit (givenIn told) ++ heldBy .postUnit n.callers)) ∧
    ∃ out, drain nesting 4 .postTyper 0 nestedDesk = some out ∧
      InTurn (came nestedDesk out.events .postTyper) (ofPoint .postTyper (startedIn out.events))
        (ofPoint .postTyper (givenIn out.events)) := by
  have law := overtaking_exact redraining .postUnit () twoWaiting .postUnit
  -- Up to the start that overtakes, and up to the end of the drain inside.
  have early : Moves redraining (.call .postUnit () [] twoWaiting) _ _ :=
    .step (.take rfl) (.step .start (.step .change (.step .call (.step (.take rfl) .rest))))
  have ended := early.trans (.step .start (.step .passed (.step (.finish rfl) .rest)))
  refine ⟨⟨_, _, _, _, early, ⟨⟨_, rfl⟩, by decide⟩, .start, by decide, ?_⟩,
    ⟨_, _, _, ended, rfl, rfl, ?_⟩, ?_⟩
  · exact law.broken _ _ _ _ early ⟨⟨_, rfl⟩, by decide⟩ .start (by decide)
  · exact law.returned _ _ _ _ ended rfl rfl
  · obtain ⟨out, ran⟩ : ∃ out, drain nesting 4 .postTyper 0 nestedDesk = some out := ⟨_, rfl⟩
    have other := overtaking_exact nesting .postTyper 0 nestedDesk .postTyper
    obtain ⟨_, path⟩ := (other.nest out).mp ⟨4, ran⟩
    exact ⟨out, ran, other.kept (other.apart nesting_apart).1 _ _ path⟩

end UnitPipeline
