import UnitPipeline.Proofs.Unit.Renewal

namespace UnitPipeline
variable {σ α β : Type} {inner : Drain σ} {s : Session} {u v w : CompilationUnit}

-- An action that leaves the session as it is takes a unit to another one and answers.
-- What it tells of the way is open.
def Action.Ends (inner : Drain σ) (s : Session) (action : Action σ α) (u : CompilationUnit)
    (value : α) (v : CompilationUnit) : Prop :=
  ∃ events, action.run inner ⟨s, u⟩ = some ⟨value, ⟨s, v⟩, events⟩

namespace Action

theorem Ends.done (value : α) : (Action.done value).Ends inner s u value u := ⟨[], rfl⟩

theorem Ends.look {next : Session → CompilationUnit → Action σ α}
    (ends : (next s u).Ends inner s u value v) : (Action.look next).Ends inner s u value v := ends

theorem Ends.change {op : UnitOp} {next : op.Answer → Action σ α}
    (ends : (next (op.answer s u)).Ends inner s (op.apply s u) value v) :
    (Action.change op next).Ends inner s u value v := by
  obtain ⟨events, ran⟩ := ends
  refine ⟨op.events s u ++ events, ?_⟩
  simp only [run, ran, Option.map_some]

theorem Ends.bind {action : Action σ α} {next : α → Action σ β}
    (first : action.Ends inner s u value v) (later : (next value).Ends inner s v other w) :
    (action.bind next).Ends inner s u other w := by
  obtain ⟨before, ran⟩ := first
  obtain ⟨after, went⟩ := later
  refine ⟨before ++ after, ?_⟩
  simp only [run_bind, ran, Option.bind_some, went, Option.map_some]

theorem Ends.forAll {f : α → Action σ Unit} (state : List α → CompilationUnit) {items : List α}
    (each : ∀ earlier item later, items = earlier ++ item :: later →
      (f item).Ends inner s (state earlier) () (state (earlier ++ [item]))) :
    (Action.forAll f items).Ends inner s (state []) () (state items) := by
  have onwards : ∀ rest earlier, items = earlier ++ rest →
      (Action.forAll f rest).Ends inner s (state earlier) () (state items) := by
    intro rest
    induction rest with
    | nil =>
      rintro earlier rfl
      rw [List.append_nil]
      exact .done ()
    | cons item rest ih =>
      intro earlier split
      refine (each earlier item rest split).bind (ih (earlier ++ [item]) ?_)
      rw [split, List.append_assoc]
      rfl
  exact onwards items [] rfl

theorem forAll_map (f : β → Action σ Unit) (g : α → β) (items : List α) :
    forAll f (items.map g) = forAll (fun item => f (g item)) items := by
  induction items with
  | nil => rfl
  | cons item rest ih => rw [List.map_cons, forAll, forAll, ih]

end Action

end UnitPipeline
