import UnitPipeline.Proofs.Unit.Conduct

namespace UnitPipeline
variable {σ α : Type}

-- Something is true of the desk at every moment of an action: before each of its
-- steps, at its end, and in the drains inside it, of which `inside` says so.
def Action.Throughout (good : Desk → Prop) (inner : Drain σ)
    (inside : CheckPoint → σ → Desk → Prop) : Action σ α → Desk → Prop
  | .done _, desk => good desk
  | .look next, desk => good desk ∧
      (next desk.session desk.unit).Throughout good inner inside desk
  | .change op next, desk => good desk ∧
      (next (op.answer desk.session desk.unit)).Throughout good inner inside
        { desk with unit := op.apply desk.session desk.unit }
  | .enterPhase phase next, desk => good desk ∧
      next.Throughout good inner inside { desk with session := desk.session.enterPhase phase }
  | .setTracking on next, desk => good desk ∧
      next.Throughout good inner inside { desk with session := desk.session.setTracking on }
  | .drain point runner next, desk => good desk ∧ inside point runner desk ∧
      ∀ first, inner point runner desk = some first →
        (next first.value.1 first.value.2).Throughout good inner inside first.desk

def BatchThroughout (good : Desk → Prop) (runner : Runner σ) (inner : Drain σ)
    (inside : CheckPoint → σ → Desk → Prop) : List DeferredCheck → σ → Desk → Prop
  | [], _, desk => good desk
  | check :: rest, state, desk => (runner state check).Throughout good inner inside desk ∧
      ∀ first next, (runner state check).run inner desk = some first → first.value = (.ok (), next) →
        BatchThroughout good runner inner inside rest next first.desk

def DrainThroughout (good : Desk → Prop) (runner : Runner σ) : Nat → CheckPoint → σ → Desk → Prop
  | 0, _, _, desk => good desk
  | limit + 1, point, state, desk => good desk ∧
      let batch := desk.unit.checks.waiting point
      let taken := desk.withChecks (desk.unit.checks.without point)
      BatchThroughout good runner (drain runner limit) (DrainThroughout good runner limit) batch
          state taken ∧
        ∀ one more next, runBatch runner (drain runner limit) point batch state taken = some one →
          one.value = (.ok more, next) → batch ≠ [] →
          DrainThroughout good runner limit point next one.desk

def Keeps (good : Desk → Prop) (before : Desk) (_ : List UnitEvent) (after : Desk) : Prop :=
  good before → good after

section
variable {allowed : Deed → Prop} {good : Desk → Prop}

theorem action_throughout {inner : Drain σ} {inside : CheckPoint → σ → Desk → Prop}
    (lasting : Lasting allowed (Keeps good)) (keeps : inner.Obeys (Keeps good))
    (within : ∀ point state desk, good desk → inside point state desk) {action : Action σ α}
    (does : action.Does allowed) (here : good desk) :
    action.Throughout good inner inside desk := by
  induction action generalizing desk with
  | done value => exact here
  | look next ih => exact ⟨here, ih _ _ (does _ _) here⟩
  | change op next ih => exact ⟨here, ih _ (does.2 _) (lasting.change op desk does.1 here)⟩
  | enterPhase phase next ih =>
    exact ⟨here, ih does.2 (lasting.enterPhase phase desk does.1 here)⟩
  | setTracking on next ih => exact ⟨here, ih does.2 (lasting.setTracking on desk does.1 here)⟩
  | drain point runner next ih =>
    refine ⟨here, within point runner desk here, ?_⟩
    intro first ran
    exact ih _ _ (does.2 _ _) (keeps point runner desk first ran here)

theorem batch_throughout {runner : Runner σ} {inner : Drain σ}
    {inside : CheckPoint → σ → Desk → Prop} (lasting : Lasting allowed (Keeps good))
    (keeps : inner.Obeys (Keeps good))
    (within : ∀ point state desk, good desk → inside point state desk)
    (does : runner.Does allowed) (here : good desk) :
    BatchThroughout good runner inner inside batch state desk := by
  induction batch generalizing state desk with
  | nil => exact here
  | cons check rest ih =>
    refine ⟨action_throughout lasting keeps within (does state check) here, ?_⟩
    intro first next ran _
    exact ih (action_obeys lasting (fun _ => keeps) (does state check) ran here)

-- What is true when a drain begins, and what no step that the checks may take
-- undoes, is true all along.
theorem drain_throughout {runner : Runner σ} (lasting : LastingDrains allowed (Keeps good))
    (does : runner.Does allowed) (here : good desk) :
    DrainThroughout good runner limit point state desk := by
  induction limit generalizing point state desk with
  | zero => exact here
  | succ limit ih =>
    have keeps : (drain runner limit).Obeys (Keeps good) := drainFrom_obeys lasting does limit 0
    have taken := lasting.requeue desk (desk.unit.checks.without point) here
    refine ⟨here, batch_throughout lasting.toLasting keeps (fun _ _ _ now => ih now) does taken, ?_⟩
    intro one more next ran _ _
    exact ih (batch_obeys lasting does keeps ran taken)

end

def Desk.Embodied (desk : Desk) : Prop := desk.unit.body.isSome = true

theorem UnitOp.apply_body (s : Session) (u : CompilationUnit) (op : UnitOp) (keeps : op ≠ .clear)
    (has : u.body.isSome = true) : (op.apply s u).body.isSome = true := by
  cases op with
  | clear => exact absurd rfl keeps
  | memoizeOnce node result =>
    simp only [apply]
    split <;> exact has
  | setBody root => rfl
  | _ => exact has

theorem embodied_lasts : LastingDrains Deed.Keeping (Keeps Desk.Embodied) where
  refl _ := id
  trans left right := right ∘ left
  change op desk keeps := op.apply_body desk.session desk.unit fun clears =>
    keeps (congrArg Deed.change clears)
  enterPhase _ _ _ := id
  setTracking _ _ _ := id
  requeue _ _ := id
  start _ _ _ := id
  drained _ _ _ := id

end UnitPipeline
