import Mathlib.Data.Finset.Lattice.Fold
import UnitPipeline.Proofs.Check.ClosedForm
import UnitPipeline.Proofs.Unit.Conduct

namespace UnitPipeline
variable {σ α : Type} {runner : Runner σ} {point : CheckPoint}
  {spawns : DeferredCheck → DeferredCheck → Prop} {desk : Desk} {state : σ}

-- On no desk does a check drain, and what it queues for a checkpoint is what it may spawn.
-- All else is open to it, clearing its unit included.
def Runner.Spawns (runner : Runner σ) (point : CheckPoint)
    (spawns : DeferredCheck → DeferredCheck → Prop) : Prop :=
  ∀ state check desk, ∃ out, (runner state check).run noDrain desk = some out ∧
    ∀ child ∈ ofPoint point (queuedIn out.events), spawns check child

structure Undrained (before : Desk) (events : List UnitEvent) (after : Desk) : Prop where
  started : startedIn events = []
  waits : ∀ point, ∀ check ∈ after.unit.checks.waiting point,
    check ∈ before.unit.checks.waiting point ∨ check ∈ ofPoint point (queuedIn events)

theorem Undrained.refl (desk : Desk) : Undrained desk [] desk := ⟨rfl, fun _ _ => Or.inl⟩

theorem Undrained.trans (left : Undrained a now b) (right : Undrained b later c) :
    Undrained a (now ++ later) c := by
  refine ⟨?_, ?_⟩
  · rw [startedIn_append, left.started, right.started]
    rfl
  · intro point check waits
    rw [queuedIn_append, ofPoint_append, List.mem_append]
    rcases right.waits point check waits with before | queued
    · exact (left.waits point check before).imp_right Or.inl
    · exact Or.inr (Or.inr queued)

theorem undrained_lasts : Lasting (fun _ => True) Undrained where
  refl := Undrained.refl
  trans := Undrained.trans
  change op desk _ := by
    obtain ⟨queued, started, _⟩ := op.events_account desk.session desk.unit
    refine ⟨started, ?_⟩
    intro point check waits
    by_cases clears : op = .clear
    · subst clears
      cases waits
    · rw [waiting_eq, op.apply_checks _ _ clears, ofPoint_append, List.mem_append] at waits
      rwa [queued]
  enterPhase _ _ _ := ⟨rfl, fun _ _ => Or.inl⟩
  setTracking _ _ _ := ⟨rfl, fun _ _ => Or.inl⟩

theorem does_anything (action : Action σ α) : action.Does fun _ => True := by
  induction action with
  | done value => exact True.intro
  | look next ih => exact ih
  | change op next ih => exact ⟨True.intro, ih⟩
  | enterPhase phase next ih => exact ⟨True.intro, ih⟩
  | setTracking on next ih => exact ⟨True.intro, ih⟩
  | drain point runner next ih => exact ⟨True.intro, ih⟩

theorem undrained_run {action : Action σ α} (ran : action.run noDrain desk = some out) :
    Undrained desk out.events out.desk ∧ ∀ inner, action.run inner desk = some out := by
  have obeys : (noDrain : Drain σ).Obeys Undrained := by
    intro point state desk out drained
    cases drained
  refine ⟨action_obeys undrained_lasts (fun _ => obeys) (does_anything action) ran, ?_⟩
  intro inner
  have more : inner.Extends noDrain := by
    intro point state desk out drained
    cases drained
  exact action_extends more ran

theorem batch_ends (may : runner.Spawns point spawns) (inner : Drain σ)
    (batch : List DeferredCheck) (state : σ) (desk : Desk) :
    ∃ out, runBatch runner inner point batch state desk = some out := by
  induction batch generalizing state desk with
  | nil => exact ⟨_, rfl⟩
  | cons check rest ih =>
    obtain ⟨first, alone, _⟩ := may state check desk
    have began := (undrained_run alone).2 inner
    rcases verdict : first.value with ⟨failure | ⟨⟩, next⟩
    · simp [runBatch, began, verdict]
    · obtain ⟨more, later⟩ := ih next first.desk
      simp [runBatch, began, verdict, later]

structure BatchSpawns (point : CheckPoint) (spawns : DeferredCheck → DeferredCheck → Prop)
    (batch : List DeferredCheck) (desk : Desk) (out : Outcome (Except UnitError Nat × σ)) : Prop where
  started : (startedIn out.events).length ≤ batch.length
  waits : ∀ ran, out.value.1 = .ok ran → ∀ child ∈ out.desk.unit.checks.waiting point,
    child ∈ desk.unit.checks.waiting point ∨ ∃ check ∈ batch, spawns check child

theorem batch_spawns (may : runner.Spawns point spawns) {inner : Drain σ}
    (ran : runBatch runner inner point batch state desk = some out) :
    BatchSpawns point spawns batch desk out := by
  induction batch generalizing state desk out with
  | nil =>
    cases Option.some.inj ran
    exact ⟨Nat.le_refl 0, fun _ _ _ => Or.inl⟩
  | cons check rest ih =>
    obtain ⟨first, began, settled⟩ := batch_cases ran
    obtain ⟨alone, ended, children⟩ := may state check desk
    obtain ⟨undrained, same⟩ := undrained_run ended
    cases (same inner).symm.trans began
    obtain ⟨failure, next, _, rfl⟩ | ⟨next, more, _, later, rfl⟩ := settled
    · refine ⟨?_, nofun⟩
      simp [undrained.started]
    · obtain ⟨few, waits⟩ := ih later
      refine ⟨?_, ?_⟩
      · simp only [List.cons_append, startedIn_started, startedIn_append, undrained.started,
          List.nil_append, List.length_cons]
        omega
      · intro total passed child inside
        cases value : more.value.1 with
        | error cause =>
          rw [value] at passed
          cases passed
        | ok fewer =>
          rcases waits fewer value child inside with here | ⟨parent, among, spawned⟩
          · refine (undrained.waits point child here).imp_right fun queued => ?_
            exact ⟨check, List.mem_cons_self, children child queued⟩
          · exact Or.inr ⟨parent, List.mem_cons_of_mem _ among, spawned⟩

-- One round of a drain that finds checks: it ends with the batch, or the rest of the drain
-- begins where only spawned checks wait.
theorem round_spawns (may : runner.Spawns point spawns)
    (found : desk.unit.checks.waiting point = check :: rest) (limit count : Nat) (state : σ) :
    ∃ one, (startedIn one.events).length ≤ desk.unit.checks.pending point ∧
      (drainFrom runner (limit + 1) count point state desk = some one ∨
        ∃ ran next, (∀ child ∈ one.desk.unit.checks.waiting point,
            ∃ check ∈ desk.unit.checks.waiting point, spawns check child) ∧
          drainFrom runner (limit + 1) count point state desk =
            (drainFrom runner limit (count + ran) point next one.desk).map fun last =>
              { last with events := one.events ++ last.events }) := by
  obtain ⟨one, batch⟩ := batch_ends may (drainFrom runner limit 0) (check :: rest) state
    (desk.withChecks (desk.unit.checks.without point))
  have done := batch_spawns may batch
  have pending : desk.unit.checks.pending point = (check :: rest).length :=
    congrArg List.length found
  refine ⟨one, pending ▸ done.started, ?_⟩
  rw [drainFrom_batch found, resume, batch, Option.bind_some]
  rcases verdict : one.value with ⟨failure | ran, next⟩
  · obtain ⟨value, last, events⟩ := one
    subst verdict
    exact Or.inl rfl
  · refine Or.inr ⟨ran, next, ?_, rfl⟩
    intro child waits
    have spawned := done.waits ran (congrArg Prod.fst verdict) child waits
    rw [found]
    simpa using spawned

-- The height bounds the ranks of the checks that wait. Every round lowers it, so the drain
-- needs a round for each level and one to find nothing left.
theorem drainFrom_descends {rank : DeferredCheck → Nat}
    (falls : runner.Spawns point fun check child => rank child < rank check)
    (low : ∀ check ∈ desk.unit.checks.waiting point, rank check < height) (within : height < limit) :
    ∃ out, drainFrom runner limit count point state desk = some out := by
  obtain ⟨limit, rfl⟩ := Nat.exists_eq_succ_of_ne_zero (Nat.ne_zero_of_lt within)
  induction height generalizing limit count state desk with
  | zero =>
    have empty := List.eq_nil_iff_forall_not_mem.mpr fun check waits => Nat.not_lt_zero _ (low check waits)
    exact ⟨_, drainFrom_idle empty⟩
  | succ height ih =>
    cases found : desk.unit.checks.waiting point with
    | nil => exact ⟨_, drainFrom_idle found⟩
    | cons check rest =>
      obtain ⟨one, _, ended | ⟨ran, next, children, onwards⟩⟩ :=
        round_spawns falls found limit count state
      · exact ⟨one, ended⟩
      · have lower : ∀ child ∈ one.desk.unit.checks.waiting point, rank child < height := by
          intro child waits
          obtain ⟨parent, inside, fell⟩ := children child waits
          exact Nat.lt_of_lt_of_le fell (Nat.le_of_lt_succ (low parent inside))
        obtain ⟨below, rfl⟩ := Nat.exists_eq_succ_of_ne_zero
          (Nat.ne_zero_of_lt (Nat.lt_of_succ_lt_succ within))
        obtain ⟨last, later⟩ : ∃ last,
            drainFrom runner (below + 1) (count + ran) point next one.desk = some last :=
          ih lower below (Nat.lt_of_succ_lt_succ within)
        exact ⟨_, by rw [onwards, later]; rfl⟩

theorem childless_ends (childless : runner.Spawns point fun _ _ => False) (enough : 2 ≤ limit)
    (state : σ) (desk : Desk) : ∃ out, drain runner limit point state desk = some out ∧
      (startedIn out.events).length ≤ desk.unit.checks.pending point := by
  obtain ⟨limit, rfl⟩ := Nat.exists_eq_add_of_le' enough
  cases found : desk.unit.checks.waiting point with
  | nil => exact ⟨_, drainFrom_idle found, Nat.zero_le _⟩
  | cons check rest =>
    obtain ⟨one, few, ended | ⟨ran, next, children, onwards⟩⟩ :=
      round_spawns childless found (limit + 1) 0 state
    · exact ⟨one, ended, few⟩
    · have empty : one.desk.unit.checks.waiting point = [] := by
        refine List.eq_nil_iff_forall_not_mem.mpr fun child waits => ?_
        obtain ⟨_, _, spawned⟩ := children child waits
        exact spawned
      rw [drainFrom_idle empty] at onwards
      refine ⟨_, onwards, ?_⟩
      rw [startedIn_append, startedIn_drained, List.append_nil]
      exact few

def Runner.Returns (runner : Runner σ) (point : CheckPoint) : Prop :=
  ∀ state check desk, desk.unit.checks.waiting point = [] →
    ∃ limit out, (runner state check).run (drainFrom runner limit 0) desk = some out ∧
      out.desk.unit.checks.waiting point = []

def CalledFor (point : CheckPoint) (batch : List DeferredCheck)
    (out : Outcome (Except UnitError Nat × σ)) : Prop :=
  ∃ called, batch = called ++ out.desk.unit.checks.waiting point ∧
    ∀ ran, out.value.1 = .ok ran → ran = called.length ∧ out.desk.unit.checks.waiting point = []

theorem batch_returns (returns : runner.Returns point) (batch : List DeferredCheck) (state : σ)
    (desk : Desk) (empty : desk.unit.checks.waiting point = []) :
    ∃ limit out, runBatch runner (drainFrom runner limit 0) point batch state desk = some out ∧
      CalledFor point batch out := by
  induction batch generalizing state desk with
  | nil => exact ⟨0, _, rfl, [], empty.symm, fun _ passed => ⟨(Except.ok.inj passed).symm, empty⟩⟩
  | cons check rest ih =>
    obtain ⟨limit, first, began, left⟩ := returns state check desk empty
    rcases verdict : first.value with ⟨failure | ⟨⟩, next⟩
    · let back := first.desk.withChecks (first.desk.unit.checks.requeue point rest)
      have stopped : runBatch runner (drainFrom runner limit 0) point (check :: rest) state desk =
          some ⟨(.error (.checkFailed first.desk.unit.display failure), next), back,
            .started point check desk.session.phase :: first.events⟩ := by
        simp only [runBatch, began, verdict, Option.bind_some]
        rfl
      have again : back.unit.checks.waiting point = rest := by simp [back, left]
      refine ⟨limit, _, stopped, [check], congrArg (check :: ·) again.symm, ?_⟩
      intro ran passed
      cases passed
    · obtain ⟨more, last, later, called, split, passed⟩ := ih next first.desk left
      have wide : (drainFrom runner (limit + more) 0).Extends (drainFrom runner limit 0) :=
        drainFrom_extends (Nat.le_add_right limit more) 0
      have high : (drainFrom runner (limit + more) 0).Extends (drainFrom runner more 0) :=
        drainFrom_extends (Nat.le_add_left more limit) 0
      have went : runBatch runner (drainFrom runner (limit + more) 0) point (check :: rest) state
          desk = some ⟨(last.value.1.map (· + 1), last.value.2), last.desk,
            .started point check desk.session.phase :: first.events ++ last.events⟩ := by
        simp only [runBatch, action_extends wide began, verdict, batch_extends high later,
          Option.bind_some, Option.map_some]
      refine ⟨limit + more, _, went, check :: called, congrArg (check :: ·) split, ?_⟩
      intro ran total
      cases value : last.value.1 with
      | error cause =>
        rw [value] at total
        cases total
      | ok fewer =>
        rw [value] at total
        obtain ⟨same, none⟩ := passed fewer value
        exact ⟨by rw [← Except.ok.inj total, same]; rfl, none⟩

theorem drain_returns (returns : runner.Returns point) (state : σ) (desk : Desk) :
    ∃ limit out, drain runner limit point state desk = some out ∧
      CalledFor point (desk.unit.checks.waiting point) out := by
  cases found : desk.unit.checks.waiting point with
  | nil =>
    refine ⟨1, _, drainFrom_idle found, [], found.symm, ?_⟩
    exact fun _ passed => ⟨(Except.ok.inj passed).symm, found⟩
  | cons check rest =>
    have empty : (desk.withChecks (desk.unit.checks.without point)).unit.checks.waiting point = [] := by
      simp
    obtain ⟨limit, one, batch, done⟩ := batch_returns returns (check :: rest) state _ empty
    have begun := batch_extends (drainFrom_extends (Nat.le_succ limit) 0) batch
    refine ⟨limit + 2, ?_⟩
    rw [drain, drainFrom_batch found, resume, begun, Option.bind_some]
    rcases verdict : one.value with ⟨failure | ran, next⟩
    · obtain ⟨value, last, events⟩ := one
      subst verdict
      exact ⟨_, rfl, done⟩
    · obtain ⟨called, split, passed⟩ := done
      obtain ⟨same, none⟩ := passed ran (congrArg Prod.fst verdict)
      simp only [drainFrom_idle none, Option.map_some]
      refine ⟨_, rfl, called, split, ?_⟩
      intro total all
      exact ⟨by rw [← Except.ok.inj all, Nat.zero_add, same], none⟩

theorem standard_childless (point : CheckPoint) :
    StandardChecks.runner.Spawns point fun _ _ => False := by
  intro enabled check desk
  have settles := StandardChecks.check_settles noDrain enabled desk.session desk.unit
    desk.unit.checks [] check
  rw [StandardChecks.after_nil] at settles
  refine ⟨_, settles, ?_⟩
  cases StandardChecks.failure? desk.unit check <;> exact nofun

-- A drain ends if what its checks queue gets smaller, in a round for every level of the
-- ranks and one more. If they queue nothing, it starts at most the checks that wait; and with
-- a runner that drains as well it ends if all its calls do.
theorem descending_drain_ends (runner : Runner σ) (point : CheckPoint) :
    (∀ rank : DeferredCheck → Nat,
      runner.Spawns point (fun check child => rank child < rank check) → ∀ state desk,
        (∃ limit out, drain runner limit point state desk = some out) ∧
        ∀ height, (∀ check ∈ desk.unit.checks.waiting point, rank check < height) →
          ∀ limit, height < limit → ∃ out, drain runner limit point state desk = some out) ∧
      (runner.Spawns point (fun _ _ => False) → ∀ state desk limit, 2 ≤ limit →
        ∃ out, drain runner limit point state desk = some out ∧
          (startedIn out.events).length ≤ desk.unit.checks.pending point) ∧
      (runner.Returns point → ∀ state desk, ∃ limit out,
        drain runner limit point state desk = some out ∧
          CalledFor point (desk.unit.checks.waiting point) out) ∧
      ∀ enabled desk limit, 2 ≤ limit →
        ∃ out, drain StandardChecks.runner limit point enabled desk = some out ∧
          (startedIn out.events).length ≤ desk.unit.checks.pending point := by
  refine ⟨?_, ?_, drain_returns, ?_⟩
  · intro rank falls state desk
    have descends (height : Nat) (low : ∀ check ∈ desk.unit.checks.waiting point, rank check < height)
        (limit : Nat) (within : height < limit) :
        ∃ out, drain runner limit point state desk = some out := drainFrom_descends falls low within
    refine ⟨?_, descends⟩
    have low : ∀ check ∈ desk.unit.checks.waiting point,
        rank check < (desk.unit.checks.waiting point).toFinset.sup rank + 1 := fun check waits =>
      Nat.lt_succ_of_le (Finset.le_sup (List.mem_toFinset.mpr waits))
    exact ⟨_, descends _ low _ (Nat.lt_succ_self _)⟩
  · intro childless state desk limit enough
    exact childless_ends childless enough state desk
  · intro enabled desk limit enough
    exact childless_ends (standard_childless point) enough enabled desk

def countingDown : Runner Nat := fun ran check =>
  match check with
  | .computed node =>
    if node.index = 0 then .done (.ok (), ran + 1)
    else
      let before := DeferredCheck.computed (.ofIndex (node.index - 1))
      .change (.queueCheck .postUnit before) fun _ =>
        .change (.queueCheck .postUnit before) fun _ => .done (.ok (), ran + 1)
  | .syntheticsDrained => .change .clear fun _ => .done (.ok (), ran + 1)
  | _ => .done (.error (.failed "count" "late"), ran)

def nodeLevel : DeferredCheck → Nat
  | .computed node => node.index
  | _ => 0

theorem countingDown_spawns (point : CheckPoint) : countingDown.Spawns point fun check child =>
    point = .postUnit ∧ nodeLevel child < nodeLevel check := by
  intro ran check desk
  cases check with
  | computed node =>
    by_cases last : node.index = 0
    · refine ⟨⟨(.ok (), ran + 1), desk, []⟩, ?_, fun child queued => ?_⟩
      · simp only [countingDown, if_pos last]
        rfl
      · cases queued
    · have word : node.index - 1 < UInt32.size :=
        Nat.lt_of_le_of_lt (Nat.sub_le ..) node.number.toNat_lt
      have lower : nodeLevel (.computed (.ofIndex (node.index - 1))) < nodeLevel (.computed node) := by
        simp only [nodeLevel, NodeId.index_ofIndex word]
        omega
      simp only [countingDown, if_neg last]
      refine ⟨_, rfl, ?_⟩
      intro child queued
      cases point with
      | postTyper => cases queued
      | postUnit =>
        have same : child = .computed (.ofIndex (node.index - 1)) := by
          simpa [ofPoint, queuedIn, UnitOp.events, UnitEvent.queued?] using queued
        exact ⟨rfl, same ▸ lower⟩
  | syntheticsDrained | featureEnabled _ _ | validate _ _ _ =>
    refine ⟨_, rfl, fun child queued => ?_⟩
    cases queued

def twoNodes : Desk :=
  ⟨{}, (CompilationUnit.new (.persistent "A.scala" "")).withChecks
    ⟨[(.postUnit, .computed ⟨2⟩), (.postTyper, .computed ⟨3⟩), (.postUnit, .computed ⟨1⟩)]⟩⟩

theorem twoNodes_end :
    (∃ out, drain countingDown 4 .postUnit 0 twoNodes = some out ∧ out.value = (.ok 10, 10)) ∧
      ∃ out, drain countingDown 2 .postTyper 0 twoNodes = some out ∧ out.value = (.ok 1, 1) ∧
        (startedIn out.events).length ≤ 1 ∧ out.desk.unit.checks.pending .postUnit = 4 := by
  have falls : countingDown.Spawns .postUnit fun check child => nodeLevel child < nodeLevel check :=
    fun ran check desk =>
      (countingDown_spawns .postUnit ran check desk).imp fun _ => And.imp_right fun spawned child queued =>
        (spawned child queued).2
  have childless : countingDown.Spawns .postTyper fun _ _ => False := fun ran check desk =>
    (countingDown_spawns .postTyper ran check desk).imp fun _ => And.imp_right fun spawned child queued =>
      nomatch (spawned child queued).1
  obtain ⟨_, ends⟩ := (descending_drain_ends countingDown .postUnit).1 nodeLevel falls 0 twoNodes
  obtain ⟨out, ran⟩ := ends 3 (by decide) 4 (by decide)
  obtain ⟨other, went, few⟩ :=
    (descending_drain_ends countingDown .postTyper).2.1 childless 0 twoNodes 2 (by decide)
  refine ⟨⟨out, ran, ?_⟩, other, went, ?_, few, ?_⟩
  · cases ran
    rfl
  · cases went
    rfl
  · cases went
    rfl

end UnitPipeline
