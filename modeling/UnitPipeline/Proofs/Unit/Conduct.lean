import UnitPipeline.Check.Standard
import UnitPipeline.Proofs.Unit.Work

namespace UnitPipeline
variable {σ α β : Type}

inductive Deed
  | change (op : UnitOp)
  | enterPhase (phase : Phase)
  | setTracking (on : Bool)
  | drain (point : CheckPoint)

def Action.Does (allowed : Deed → Prop) : Action σ α → Prop
  | .done _ => True
  | .look next => ∀ s u, (next s u).Does allowed
  | .change op next => allowed (.change op) ∧ ∀ answer, (next answer).Does allowed
  | .enterPhase phase next => allowed (.enterPhase phase) ∧ next.Does allowed
  | .setTracking on next => allowed (.setTracking on) ∧ next.Does allowed
  | .drain point _ next => allowed (.drain point) ∧ ∀ result after, (next result after).Does allowed

def Runner.Does (allowed : Deed → Prop) (runner : Runner σ) : Prop :=
  ∀ state check, (runner state check).Does allowed

-- The kinds of conduct that laws ask for: never to clear a unit, never to enter
-- a phase, to leave the session alone, and neither to drain nor to clear.
def Deed.Keeping (deed : Deed) : Prop := deed ≠ .change .clear

def Deed.Staying (deed : Deed) : Prop := ∀ phase, deed ≠ .enterPhase phase

def Deed.Aside (deed : Deed) : Prop := deed.Staying ∧ ∀ on, deed ≠ .setTracking on

def Deed.Plain (deed : Deed) : Prop := deed.Keeping ∧ ∀ point, deed ≠ .drain point

section
variable {allowed : Deed → Prop}

theorem bind_does {f : α → Action σ β} {action : Action σ α} (does : action.Does allowed)
    (later : ∀ value, (f value).Does allowed) : (action.bind f).Does allowed := by
  induction action with
  | done value => exact later value
  | look next ih => exact fun s u => ih s u (does s u)
  | change op next ih => exact ⟨does.1, fun answer => ih answer (does.2 answer)⟩
  | enterPhase phase next ih => exact ⟨does.1, ih does.2⟩
  | setTracking on next ih => exact ⟨does.1, ih does.2⟩
  | drain point runner next ih =>
    exact ⟨does.1, fun result after => ih result after (does.2 result after)⟩

theorem handle_does {allowed : Deed → Prop}
    (remembers : ∀ feature, allowed (.change (.rememberFeature feature)))
    (reports : ∀ severity position message, allowed (.change (.report severity position message)))
    (enabled : OrderedSet Feature) (check : DeferredCheck) :
    (StandardChecks.handle (σ := σ) enabled check).Does allowed := by
  cases check with
  | featureEnabled feature position =>
    intro s u
    dsimp only
    split
    · exact True.intro
    · exact ⟨remembers _, fun _ => ⟨reports _ _ _, fun _ => True.intro⟩⟩
  | syntheticsDrained =>
    intro s u
    dsimp only
    split <;> exact True.intro
  | computed node =>
    intro s u
    dsimp only
    split <;> exact True.intro
  | validate code node message => exact fun _ _ => ⟨reports _ _ _, fun _ => True.intro⟩

-- A law of desks: how a desk, what happens from then on, and the desk afterwards
-- lie to each other. It holds of every action if it holds of each allowed step.
structure Lasting (allowed : Deed → Prop) (law : Desk → List UnitEvent → Desk → Prop) : Prop where
  refl : ∀ desk, law desk [] desk
  trans : ∀ {a b c now later}, law a now b → law b later c → law a (now ++ later) c
  change : ∀ op desk, allowed (.change op) → law desk (op.events desk.session desk.unit)
    { desk with unit := op.apply desk.session desk.unit }
  enterPhase : ∀ phase desk, allowed (.enterPhase phase) → law desk []
    { desk with session := desk.session.enterPhase phase }
  setTracking : ∀ on desk, allowed (.setTracking on) → law desk []
    { desk with session := desk.session.setTracking on }

-- A law that also holds of what a drain does itself: it changes the queue, and
-- tells of the checks that it starts and of its end.
structure LastingDrains (allowed : Deed → Prop) (law : Desk → List UnitEvent → Desk → Prop) : Prop
    extends Lasting allowed law where
  requeue : ∀ desk q, law desk [] (desk.withChecks q)
  start : ∀ desk point check, law desk [.started point check desk.session.phase] desk
  drained : ∀ desk point ran, law desk [.drained desk.unit.display point ran] desk

variable {law : Desk → List UnitEvent → Desk → Prop}

def Drain.Obeys (inner : Drain σ) (law : Desk → List UnitEvent → Desk → Prop) : Prop :=
  ∀ point state desk out, inner point state desk = some out → law desk out.events out.desk

theorem action_obeys {inner : Drain σ} (lasting : Lasting allowed law)
    (inside : (∃ point, allowed (.drain point)) → inner.Obeys law) {action : Action σ α}
    (does : action.Does allowed) (ran : action.run inner desk = some out) :
    law desk out.events out.desk := by
  induction action generalizing desk out with
  | done value =>
    cases Option.some.inj ran
    exact lasting.refl desk
  | look next ih => exact ih _ _ (does _ _) ran
  | change op next ih =>
    obtain ⟨later, rest, rfl⟩ := Option.map_eq_some_iff.mp ran
    exact lasting.trans (lasting.change op desk does.1) (ih _ (does.2 _) rest)
  | enterPhase phase next ih =>
    exact lasting.trans (lasting.enterPhase phase desk does.1) (ih does.2 ran)
  | setTracking on next ih =>
    exact lasting.trans (lasting.setTracking on desk does.1) (ih does.2 ran)
  | drain point runner next ih =>
    obtain ⟨first, drained, more⟩ := Option.bind_eq_some_iff.mp ran
    obtain ⟨later, rest, rfl⟩ := Option.map_eq_some_iff.mp more
    exact lasting.trans (inside ⟨point, does.1⟩ point runner desk first drained)
      (ih _ _ (does.2 _ _) rest)

theorem batch_obeys {runner : Runner σ} {inner : Drain σ} (lasting : LastingDrains allowed law)
    (does : runner.Does allowed) (inside : inner.Obeys law)
    (ran : runBatch runner inner point batch state desk = some out) :
    law desk out.events out.desk := by
  induction batch generalizing state desk out with
  | nil =>
    cases Option.some.inj ran
    exact lasting.refl desk
  | cons check rest ih =>
    obtain ⟨first, began, settled⟩ := batch_cases ran
    have body := action_obeys lasting.toLasting (fun _ => inside) (does state check) began
    have begun := lasting.trans (lasting.start desk point check) body
    obtain ⟨failure, next, _, rfl⟩ | ⟨next, more, _, later, rfl⟩ := settled
    · have stopped := lasting.trans begun
        (lasting.requeue first.desk (first.desk.unit.checks.requeue point rest))
      rwa [List.append_nil] at stopped
    · exact lasting.trans begun (ih later)

theorem drainFrom_obeys {runner : Runner σ} (lasting : LastingDrains allowed law)
    (does : runner.Does allowed) (limit count : Nat) : (drainFrom runner limit count).Obeys law := by
  induction limit generalizing count with
  | zero =>
    intro point state desk out ran
    cases ran
  | succ limit ih =>
    intro point state desk out ran
    obtain ⟨below, same, idle | ⟨_, one, batch, settled⟩⟩ := drain_cases ran
    · obtain ⟨_, rfl⟩ := idle
      exact lasting.drained desk point count
    · cases same
      have body := lasting.trans (lasting.requeue desk _)
        (batch_obeys lasting does (ih 0) batch)
      obtain ⟨failure, next, _, rfl⟩ | ⟨more, next, last, _, later, rfl⟩ := settled
      · exact body
      · exact lasting.trans body (ih _ point next one.desk last later)

end

theorem keeping_lasts : LastingDrains Deed.Keeping fun _ events _ => givenIn events = [] where
  refl _ := rfl
  trans left right := by
    rw [givenIn_append, left, right]
    rfl
  change op desk keeps := by
    rw [(op.events_account desk.session desk.unit).2.2]
    cases op with
    | clear => exact absurd rfl keeps
    | _ => rfl
  enterPhase _ _ _ := rfl
  setTracking _ _ _ := rfl
  requeue _ _ := rfl
  start _ _ _ := rfl
  drained _ _ _ := rfl

def SamePhase (before : Desk) (_ : List UnitEvent) (after : Desk) : Prop :=
  after.session.phase = before.session.phase

theorem staying_lasts : LastingDrains Deed.Staying SamePhase where
  refl _ := rfl
  trans left right := right.trans left
  change _ _ _ := rfl
  enterPhase _ _ stays := absurd rfl (stays _)
  setTracking _ _ _ := rfl
  requeue _ _ := rfl
  start _ _ _ := rfl
  drained _ _ _ := rfl

def SameSession (before : Desk) (_ : List UnitEvent) (after : Desk) : Prop :=
  after.session = before.session

theorem aside_lasts : LastingDrains Deed.Aside SameSession where
  refl _ := rfl
  trans left right := right.trans left
  change _ _ _ := rfl
  enterPhase _ _ aside := absurd rfl (aside.1 _)
  setTracking _ _ aside := absurd rfl (aside.2 _)
  requeue _ _ := rfl
  start _ _ _ := rfl
  drained _ _ _ := rfl

def OnlyQueues (before : Desk) (events : List UnitEvent) (after : Desk) : Prop :=
  startedIn events = [] ∧
    after.unit.checks.entries = before.unit.checks.entries ++ queuedIn events

theorem plain_lasts : Lasting Deed.Plain OnlyQueues where
  refl _ := ⟨rfl, (List.append_nil _).symm⟩
  trans left right := by
    refine ⟨?_, ?_⟩
    · rw [startedIn_append, left.1, right.1]
      rfl
    · rw [queuedIn_append, right.2, left.2, List.append_assoc]
  change op desk plain := by
    obtain ⟨queued, started, _⟩ := op.events_account desk.session desk.unit
    have keeps : op ≠ .clear := fun clears => plain.1 (congrArg Deed.change clears)
    refine ⟨started, ?_⟩
    rw [queued]
    exact op.apply_checks desk.session desk.unit keeps
  enterPhase _ _ _ := ⟨rfl, (List.append_nil _).symm⟩
  setTracking _ _ _ := ⟨rfl, (List.append_nil _).symm⟩

theorem plain_only_queues {inner : Drain σ} {action : Action σ α} (plain : action.Does Deed.Plain)
    (ran : action.run inner desk = some out) : OnlyQueues desk out.events out.desk :=
  action_obeys plain_lasts (fun ⟨point, drains⟩ => absurd rfl (drains.2 point)) plain ran

end UnitPipeline
