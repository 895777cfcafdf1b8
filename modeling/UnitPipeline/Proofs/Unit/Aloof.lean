import UnitPipeline.Proofs.Unit.Conduct

namespace UnitPipeline
variable {σ α β γ δ : Type} {usual : σ → Prop}

theorem rel_bind {first : α → β → Prop} {second : γ → δ → Prop} {f : α → Option γ}
    {g : β → Option δ} (both : Option.Rel first x y)
    (later : ∀ a b, first a b → Option.Rel second (f a) (g b)) :
    Option.Rel second (x.bind f) (y.bind g) := by
  cases both with
  | none => exact .none
  | some here => exact later _ _ here

theorem rel_map {first : α → β → Prop} {second : γ → δ → Prop} {f : α → γ} {g : β → δ}
    (both : Option.Rel first x y) (later : ∀ a b, first a b → second (f a) (g b)) :
    Option.Rel second (x.map f) (y.map g) := by
  cases both with
  | none => exact .none
  | some here => exact .some (later _ _ here)

structure Outcome.Alike (usual : σ → Prop) (session : Session) (x y : Outcome (α × σ)) : Prop where
  value : x.value.1 = y.value.1
  desk : x.desk = y.desk
  session : x.desk.session = session
  usual : usual x.value.2 ∧ usual y.value.2

-- What a call does to a unit depends on the unit and the session alone: whichever
-- of the usual memories it is given, it ends in the same way or not at all.
def Aloof (usual : σ → Prop) (runner : Runner σ) (call : σ → Action σ (β × σ)) : Prop :=
  ∀ limit a b desk, usual a → usual b → Option.Rel (Outcome.Alike usual desk.session)
    ((call a).run (drain runner limit) desk) ((call b).run (drain runner limit) desk)

def Runner.Aloof (usual : σ → Prop) (runner : Runner σ) : Prop :=
  ∀ check, UnitPipeline.Aloof usual runner fun state => runner state check

theorem batch_aloof {runner : Runner σ} (aloof : runner.Aloof usual) (left : usual a)
    (right : usual b) : Option.Rel (Outcome.Alike usual desk.session)
      (runBatch runner (drain runner limit) point batch a desk)
      (runBatch runner (drain runner limit) point batch b desk) := by
  induction batch generalizing a b desk with
  | nil => exact .some ⟨rfl, rfl, rfl, left, right⟩
  | cons check rest ih =>
    unfold runBatch
    refine rel_bind (aloof check limit a b desk left right) ?_
    rintro ⟨⟨verdict, m⟩, after, _⟩ ⟨⟨_, n⟩, _, _⟩ ⟨rfl, rfl, same, first, second⟩
    rcases verdict with failure | ⟨⟩
    · exact .some ⟨rfl, rfl, same, first, second⟩
    · refine rel_map (ih first second) ?_
      rintro x y ⟨value, desk, session, others⟩
      exact ⟨congrArg (Except.map (· + 1)) value, desk, session.trans same, others⟩

theorem drainFrom_aloof {runner : Runner σ} (aloof : runner.Aloof usual) (left : usual a)
    (right : usual b) : Option.Rel (Outcome.Alike usual desk.session)
      (drainFrom runner limit count point a desk) (drainFrom runner limit count point b desk) := by
  induction limit generalizing count a b desk with
  | zero => exact .none
  | succ limit ih =>
    unfold drainFrom
    cases desk.unit.checks.waiting point with
    | nil => exact .some ⟨rfl, rfl, rfl, left, right⟩
    | cons check rest =>
      refine rel_bind (batch_aloof aloof left right) ?_
      rintro ⟨⟨verdict, m⟩, after, _⟩ ⟨⟨_, n⟩, _, _⟩ ⟨rfl, rfl, same, first, second⟩
      rcases verdict with failure | more
      · exact .some ⟨rfl, rfl, same, first, second⟩
      · refine rel_map (ih first second) ?_
        rintro x y ⟨value, desk, session, others⟩
        exact ⟨value, desk, session.trans same, others⟩

theorem remembers {inner : Drain σ} {action : Action σ β}
    (ran : (action.bind fun value => .done (value, memory)).run inner desk = some out) :
    out.value.2 = memory := by
  induction action generalizing desk out with
  | done value =>
    cases Option.some.inj ran
    rfl
  | look next ih => exact ih _ _ ran
  | change op next ih =>
    obtain ⟨later, rest, rfl⟩ := Option.map_eq_some_iff.mp ran
    have kept := ih _ rest
    exact kept
  | enterPhase phase next ih => exact ih ran
  | setTracking on next ih => exact ih ran
  | drain point runner next ih =>
    obtain ⟨first, _, more⟩ := Option.bind_eq_some_iff.mp ran
    obtain ⟨later, rest, rfl⟩ := Option.map_eq_some_iff.mp more
    have kept := ih _ _ rest
    exact kept

theorem aside_aloof {runner : Runner σ} {call : σ → Action σ β} (checks : runner.Does Deed.Aside)
    (aside : (call memory).Does Deed.Aside) : Aloof (· = memory) runner fun memory =>
      (call memory).bind fun value => .done (value, memory) := by
  intro limit a b desk left right
  dsimp only
  rw [left, right]
  rcases ends : ((call memory).bind fun value => .done (value, memory)).run (drain runner limit)
    desk with _ | out
  · exact .none
  · have kept := remembers ends
    have does : ((call memory).bind fun value => .done (value, memory)).Does Deed.Aside :=
      bind_does aside fun _ => True.intro
    have same := action_obeys aside_lasts.toLasting
      (fun _ => drainFrom_obeys aside_lasts checks limit 0) does ends
    exact .some ⟨rfl, rfl, same, kept, kept⟩

end UnitPipeline
