import Mathlib.Order.Lattice
import UnitPipeline.Unit.Record

namespace UnitPipeline

namespace Span
variable {a b : Span}

-- One span is below another when the other contains it. The order is that of the ends
-- alone, so inverted spans have places in it, and each empty span has one of its own.
instance : PartialOrder Span where
  le a b := b.contains a = true
  le_refl a := contains_exact.mpr ⟨Nat.le_refl _, Nat.le_refl _⟩
  le_trans a b c inner outer := by
    obtain ⟨starts, stops⟩ := contains_exact.mp inner
    obtain ⟨later, earlier⟩ := contains_exact.mp outer
    exact contains_exact.mpr ⟨later.trans starts, stops.trans earlier⟩
  le_antisymm a b inner outer := by
    obtain ⟨starts, stops⟩ := contains_exact.mp inner
    obtain ⟨later, earlier⟩ := contains_exact.mp outer
    have start := UInt64.toNat_inj.mp (Nat.le_antisymm later starts)
    have stop := UInt64.toNat_inj.mp (Nat.le_antisymm stops earlier)
    cases a
    cases b
    simp only at start stop
    rw [start, stop]

theorem le_iff : a ≤ b ↔ b.start.toNat ≤ a.start.toNat ∧ a.stop.toNat ≤ b.stop.toNat :=
  contains_exact

instance : SemilatticeSup Span where
  sup := merge
  le_sup_left a b := le_iff.mpr (by rw [merge_start, merge_stop]; omega)
  le_sup_right a b := le_iff.mpr (by rw [merge_start, merge_stop]; omega)
  sup_le a b c first second := by
    rw [le_iff] at first second ⊢
    rw [merge_start, merge_stop]
    omega

def Selects (s : Span) (offset : UInt64) : Prop := s.start ≤ offset ∧ offset < s.stop

theorem selects_iff {offset : UInt64} : a.Selects offset ↔
    a.start.toNat ≤ offset.toNat ∧ offset.toNat < a.stop.toNat := by
  rw [Selects, UInt64.le_iff_toNat_le, UInt64.lt_iff_toNat_lt]

theorem contains_iff_selects (filled : b.isEmpty = false) :
    a.contains b = true ↔ ∀ offset, b.Selects offset → a.Selects offset := by
  have apart : b.start.toNat < b.stop.toNat := by
    rw [isEmpty, decide_eq_false_iff_not, UInt64.not_le, UInt64.lt_iff_toNat_lt] at filled
    exact filled
  have last : (b.stop - 1).toNat = b.stop.toNat - 1 :=
    UInt64.toNat_sub_of_le _ _ (UInt64.le_iff_toNat_le.mpr (Nat.one_le_of_lt apart))
  rw [contains_exact]
  constructor
  · intro ends offset inside
    rw [selects_iff] at inside ⊢
    omega
  · intro all
    have lower := selects_iff.mp (all b.start (selects_iff.mpr ⟨Nat.le_refl _, apart⟩))
    have upper := selects_iff.mp (all (b.stop - 1) (selects_iff.mpr (by omega)))
    omega

end Span

inductive Merging
  | one (span : Span)
  | both (left right : Merging)
  deriving Repr

namespace Merging

def spans : Merging → List Span
  | one span => [span]
  | both left right => left.spans ++ right.spans

def result : Merging → Span
  | one span => span
  | both left right => left.result.merge right.result

theorem result_le_iff (m : Merging) (c : Span) : m.result ≤ c ↔ ∀ s ∈ m.spans, s ≤ c := by
  induction m with
  | one span => simp only [spans, result, List.mem_singleton, forall_eq]
  | both left right first second =>
    rw [spans, List.forall_mem_append, ← first, ← second]
    exact sup_le_iff

end Merging

namespace Span

theorem foldl_le_iff (first : Span) (rest : List Span) (c : Span) :
    rest.foldl merge first ≤ c ↔ ∀ s ∈ first :: rest, s ≤ c := by
  induction rest generalizing first with
  | nil => simp only [List.foldl_nil, List.mem_singleton, forall_eq]
  | cons next rest ih =>
    have both : first.merge next ≤ c ↔ first ≤ c ∧ next ≤ c := sup_le_iff
    rw [List.foldl_cons, ih, List.forall_mem_cons, List.forall_mem_cons, List.forall_mem_cons, both,
      and_assoc]

theorem result_of_perm {m : Merging} {first : Span} {rest : List Span}
    (same : m.spans.Perm (first :: rest)) : m.result = rest.foldl merge first := by
  refine eq_of_forall_ge_iff fun c => ?_
  rw [m.result_le_iff, foldl_le_iff]
  exact forall_congr' fun s => imp_congr_left same.mem_iff

end Span

-- For all spans, whichever way round their ends stand.
theorem spans_join :
    (∀ a : Span, a.contains a) ∧
      (∀ a b : Span, a.contains b → b.contains a → a = b) ∧
      (∀ a b c : Span, a.contains b → b.contains c → a.contains c) ∧
      (∀ a b : Span, (a.merge b).contains a ∧ (a.merge b).contains b ∧
        ∀ c : Span, c.contains a → c.contains b → c.contains (a.merge b)) ∧
      (∀ a b : Span, a.merge b = b.merge a) ∧
      (∀ a b c : Span, (a.merge b).merge c = a.merge (b.merge c)) ∧
      (∀ a : Span, a.merge a = a) ∧
      (∀ (m : Merging) (first : Span) (rest : List Span), m.spans.Perm (first :: rest) →
        m.result = rest.foldl Span.merge first) ∧
      (∀ a b : Span, b.isEmpty = false →
        (a.contains b ↔ ∀ offset, b.Selects offset → a.Selects offset)) ∧
      ∀ (u : CompilationUnit) (a b : Span), u.targets (a.merge b) ↔ u.targets a ∧ u.targets b := by
  refine ⟨?_, ?_, ?_, ?_, sup_comm, sup_assoc, sup_idem, ?_, ?_, ?_⟩
  · exact fun a => le_refl a
  · exact fun a b outer inner => le_antisymm (a := a) inner outer
  · exact fun a b c outer inner => le_trans (a := c) inner outer
  · intro a b
    have first : a ≤ a.merge b := le_sup_left
    have second : b ≤ a.merge b := le_sup_right
    exact ⟨first, second, fun c => sup_le (c := c)⟩
  · exact fun m first rest => Span.result_of_perm
  · exact fun a b => Span.contains_iff_selects
  · intro u a b
    unfold CompilationUnit.targets
    cases u.target with
    | none => exact iff_of_true rfl ⟨rfl, rfl⟩
    | some range =>
      have both : a.merge b ≤ range ↔ a ≤ range ∧ b ≤ range := sup_le_iff
      exact both

def unevenSpans : Merging := .both (.one ⟨5, 5⟩) (.both (.one ⟨9, 2⟩) (.one ⟨4, 6⟩))

theorem unevenSpans_join :
    unevenSpans.spans.Perm [⟨4, 6⟩, ⟨5, 5⟩, ⟨9, 2⟩] ∧ unevenSpans.result = ⟨4, 6⟩ ∧
      (∀ offset, (⟨4, 6⟩ : Span).Selects offset → unevenSpans.result.Selects offset) ∧
      (⟨4, 6⟩ : Span).contains ⟨9, 2⟩ ∧
      ∀ u : CompilationUnit, u.targets unevenSpans.result → u.targets ⟨9, 2⟩ := by
  obtain ⟨_, _, _, least, _, _, _, merging, offsets, targets⟩ := spans_join
  have order : unevenSpans.spans.Perm [⟨4, 6⟩, ⟨5, 5⟩, ⟨9, 2⟩] := by decide
  have result : unevenSpans.result = ⟨4, 6⟩ := merging unevenSpans _ _ order
  refine ⟨order, result, ?_, ?_, ?_⟩
  · rw [result]
    exact (offsets ⟨4, 6⟩ ⟨4, 6⟩ rfl).mp rfl
  · exact (least ⟨9, 2⟩ ⟨4, 6⟩).1
  · intro u inside
    exact ((targets u _ _).mp ((targets u _ _).mp inside).2).1

end UnitPipeline
