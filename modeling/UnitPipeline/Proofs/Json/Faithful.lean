import UnitPipeline.Json.Forms
import UnitPipeline.Proofs.Json.RoundTrip

namespace UnitPipeline.Json

class Faithful (α : Type) [Form α] : Prop where
  legible : (Form.shape α).legible = true
  back : ∀ a : α, Form.ofValue (Form.toValue a) = a

-- Texts of a type stand for their values: each is read as the value it was written for,
-- and what was read from any text is written as a text that stays as it is.
structure RoundTrips (α : Type) [Form α] : Prop where
  reads : ∀ a : α, decode α (encode a) = .ok a
  distinct : ∀ a b : α, encode a = encode b → a = b
  settled : ∀ text again, reencode α text = .ok again → reencode α again = .ok again

theorem decode_encode [Form α] [Faithful α] (a : α) : decode α (encode a) = .ok a := by
  have read := (Form.shape α).read_write Faithful.legible (Form.toValue a) [] trivial
  rw [List.append_nil] at read
  rw [decode, encode, String.toList_ofList, Shape.readWhole, read]
  exact congrArg Except.ok (Faithful.back a)

theorem roundTrips (α : Type) [Form α] [Faithful α] : RoundTrips α := by
  refine ⟨decode_encode, fun a b same => ?_, fun text again accepted => ?_⟩
  · have read := decode_encode a
    rw [same, decode_encode] at read
    exact (Except.ok.inj read).symm
  · cases read : decode α text with
    | error cause =>
      rw [reencode, read] at accepted
      cases accepted
    | ok a =>
      rw [reencode, read] at accepted
      cases accepted
      rw [reencode, decode_encode]
      rfl

theorem back_list [Form α] [Faithful α] (xs : List α) :
    (xs.map Form.toValue).map Form.ofValue = xs := by
  rw [List.map_map]
  exact (List.map_congr_left fun x _ => Faithful.back x).trans (List.map_id xs)

instance : Faithful Span := ⟨rfl, fun _ => rfl⟩
instance : Faithful Position := ⟨rfl, fun _ => rfl⟩
instance : Faithful NodeId := ⟨rfl, fun _ => rfl⟩
instance : Faithful DeclId := ⟨rfl, fun _ => rfl⟩
instance : Faithful Feature := ⟨rfl, fun _ => rfl⟩
instance : Faithful TermName := ⟨rfl, fun _ => rfl⟩
instance : Faithful TypeName := ⟨rfl, fun _ => rfl⟩
instance : Faithful DependencyReport := ⟨rfl, fun _ => rfl⟩
instance : Faithful Settings := ⟨rfl, fun _ => rfl⟩
instance : Faithful DeclKind := ⟨rfl, fun kind => by cases kind <;> rfl⟩
instance : Faithful CheckPoint := ⟨rfl, fun point => by cases point <;> rfl⟩
instance : Faithful Severity := ⟨rfl, fun severity => by cases severity <;> rfl⟩
instance : Faithful Phase := ⟨rfl, fun phase => by cases phase <;> rfl⟩
instance : Faithful NodeKind := ⟨rfl, fun kind => by cases kind <;> rfl⟩

instance : Faithful Node where
  legible := rfl
  back := fun ⟨kind, span, children⟩ =>
    congr (congrArg (Node.mk · span) (Faithful.back kind)) (back_list children)

instance : Faithful TreeArena where
  legible := rfl
  back := fun ⟨nodes⟩ => congrArg (fun list => TreeArena.mk list.toArray) (back_list nodes.toList)

instance : Faithful DeferredCheck where
  legible := rfl
  back
    | .featureEnabled _ _ | .syntheticsDrained | .computed _ => rfl
    | .validate _ node _ => by cases node <;> rfl

instance : Faithful Diagnostic where
  legible := rfl
  back := fun ⟨severity, position, message⟩ =>
    congrArg (Diagnostic.mk · position message) (Faithful.back severity)

instance : Faithful IrClass where
  legible := rfl
  back := fun ⟨_, decl, _⟩ => by cases decl <;> rfl

theorem texts_round_trip :
    RoundTrips Span ∧ RoundTrips Position ∧ RoundTrips NodeId ∧ RoundTrips DeclId ∧
      RoundTrips DeclKind ∧ RoundTrips NodeKind ∧ RoundTrips Node ∧ RoundTrips TreeArena ∧
      RoundTrips Feature ∧ RoundTrips CheckPoint ∧ RoundTrips DeferredCheck ∧
      RoundTrips Severity ∧ RoundTrips Diagnostic ∧ RoundTrips DependencyReport ∧
      RoundTrips TermName ∧ RoundTrips TypeName ∧ RoundTrips Settings ∧ RoundTrips Phase ∧
      RoundTrips IrClass :=
  ⟨roundTrips _, roundTrips _, roundTrips _, roundTrips _, roundTrips _, roundTrips _,
    roundTrips _, roundTrips _, roundTrips _, roundTrips _, roundTrips _, roundTrips _,
    roundTrips _, roundTrips _, roundTrips _, roundTrips _, roundTrips _, roundTrips _,
    roundTrips _⟩

end UnitPipeline.Json
