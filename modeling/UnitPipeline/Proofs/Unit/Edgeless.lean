import UnitPipeline.Proofs.Unit.Conduct
import UnitPipeline.Proofs.Unit.Steps

namespace UnitPipeline

-- Two more kinds of conduct: neither to register anything nor to clear, and to do
-- nothing but change the unit.
def Deed.Edgeless (deed : Deed) : Prop :=
  deed.Keeping ∧ (∀ target, deed ≠ .change (.registerDependency target)) ∧
    ∀ decl, deed ≠ .change (.registerDefinition decl)

def Deed.Changing (deed : Deed) : Prop := ∃ op, deed = .change op

def SameEdges (before : Desk) (_ : List UnitEvent) (after : Desk) : Prop :=
  after.unit.source = before.unit.source ∧ after.unit.deps = before.unit.deps

theorem edgeless_lasts : LastingDrains Deed.Edgeless SameEdges where
  refl _ := ⟨rfl, rfl⟩
  trans left right := ⟨right.1.trans left.1, right.2.trans left.2⟩
  change op desk edgeless := by
    obtain ⟨keeps, target, definition⟩ := edgeless
    refine ⟨op.apply_source desk.session desk.unit, ?_⟩
    refine (op.apply_deps desk.session desk.unit).trans ?_
    cases op with
    | clear => exact absurd rfl keeps
    | registerDependency declared => exact absurd rfl (target declared)
    | registerDefinition decl => exact absurd rfl (definition decl)
    | _ => rfl
  enterPhase _ _ _ := ⟨rfl, rfl⟩
  setTracking _ _ _ := ⟨rfl, rfl⟩
  requeue _ _ := ⟨rfl, rfl⟩
  start _ _ _ := ⟨rfl, rfl⟩
  drained _ _ _ := ⟨rfl, rfl⟩

theorem changing_lasts : Lasting Deed.Changing SameSession where
  refl _ := rfl
  trans left right := right.trans left
  change _ _ _ := rfl
  enterPhase _ _ := nofun
  setTracking _ _ := nofun

end UnitPipeline
