import Mathlib.Data.List.Nodup
import UnitPipeline.FreshName

namespace UnitPipeline

def numbered (stem : String) (number : Nat) : String := stem ++ toString number

theorem numbered_toList (stem : String) (number : Nat) :
    (numbered stem number).toList = stem.toList ++ Nat.toDigits 10 number := by
  rw [numbered, String.toList_append, Nat.toString_eq_repr, Nat.toList_repr]

theorem toDigits_inj (same : Nat.toDigits 10 k = Nat.toDigits 10 m) : k = m := by
  have values := congrArg (Nat.ofDigitChars 10 · 0) same
  simpa only [Nat.ofDigitChars_ten_toDigits] using values

-- A name of a stem that is a name of a longer stem as well. The longer stem goes on with
-- digits, and the number of the shorter one begins with these.
def Overlaps (short : String) (k : Nat) (long : String) (m : Nat) : Prop :=
  ∃ digits, digits ≠ [] ∧ (∀ c ∈ digits, c.isDigit = true) ∧
    long.toList = short.toList ++ digits ∧ Nat.toDigits 10 k = digits ++ Nat.toDigits 10 m

theorem Overlaps.longer (overlaps : Overlaps p k q m) : p ≠ q := by
  obtain ⟨digits, filled, _, longer, _⟩ := overlaps
  intro same
  rw [same] at longer
  exact filled (List.self_eq_append_right.mp longer)

theorem Overlaps.same (overlaps : Overlaps p k q m) : numbered p k = numbered q m := by
  obtain ⟨digits, _, _, longer, joined⟩ := overlaps
  apply String.toList_injective
  rw [numbered_toList, numbered_toList, longer, joined, List.append_assoc]

theorem same_of_lead (longer : q.toList = p.toList ++ lead)
    (joined : Nat.toDigits 10 k = lead ++ Nat.toDigits 10 m) :
    (p = q ∧ k = m) ∨ Overlaps p k q m := by
  cases lead with
  | nil =>
    rw [List.append_nil] at longer
    exact Or.inl ⟨String.toList_injective longer.symm, toDigits_inj joined⟩
  | cons c rest =>
    refine Or.inr ⟨c :: rest, List.cons_ne_nil c rest, ?_, longer, joined⟩
    intro d inside
    have written : d ∈ Nat.toDigits 10 k := joined ▸ List.mem_append_left _ inside
    exact Nat.isDigit_of_mem_toDigits (by decide) (by decide) written

theorem numbered_eq_iff (p : String) (k : Nat) (q : String) (m : Nat) :
    numbered p k = numbered q m ↔ (p = q ∧ k = m) ∨ Overlaps p k q m ∨ Overlaps q m p k := by
  constructor
  · intro same
    have texts := congrArg String.toList same
    rw [numbered_toList, numbered_toList] at texts
    rcases List.append_eq_append_iff.mp texts with ⟨lead, longer, joined⟩ | ⟨lead, longer, joined⟩
    · rcases same_of_lead longer joined with one | overlaps
      · exact Or.inl one
      · exact Or.inr (Or.inl overlaps)
    · rcases same_of_lead longer joined with one | overlaps
      · exact Or.inl ⟨one.1.symm, one.2.symm⟩
      · exact Or.inr (Or.inr overlaps)
  · intro cases
    rcases cases with ⟨rfl, rfl⟩ | overlaps | overlaps
    · rfl
    · exact overlaps.same
    · exact overlaps.same.symm

theorem numbered_numbered (stem : String) (positive : 0 < n) (digit : d < 10) :
    numbered (numbered stem n) d = numbered stem (10 * n + d) := by
  apply String.toList_injective
  rw [numbered_toList, numbered_toList, numbered_toList, List.append_assoc,
    Nat.toDigits_append_toDigits (by decide) positive digit]

theorem digits_last (joined : Nat.toDigits 10 k = lead ++ Nat.toDigits 10 d) (digit : d < 10)
    (longer : lead ≠ []) : lead = Nat.toDigits 10 (k / 10) ∧ k % 10 = d ∧ 10 ≤ k := by
  have small (n : Nat) (below : n < 10) : (Nat.toDigits 10 n).length = 1 := by
    rw [Nat.toDigits_of_lt_base below]
    rfl
  by_cases large : 10 ≤ k
  · have last : k % 10 < 10 := Nat.mod_lt k (by decide)
    have whole := Nat.toDigits_append_toDigits (by decide) (Nat.div_pos large (by decide)) last
    rw [Nat.div_add_mod] at whole
    have parts := whole.trans joined
    obtain ⟨front, back⟩ := List.append_inj' parts ((small _ last).trans (small _ digit).symm)
    exact ⟨front.symm, toDigits_inj back, large⟩
  · have lengths := congrArg List.length joined
    have some := List.length_pos_iff.mpr longer
    rw [List.length_append, small k (by omega), small d digit] at lengths
    omega

-- What stands in front of the digits of a number, where all of them together are
-- the digits of another, are the digits of a third, at most a tenth of the whole.
-- The induction takes off one last digit after the other.
theorem digits_lead (joined : Nat.toDigits 10 k = lead ++ Nat.toDigits 10 m) (longer : lead ≠ [])
    (positive : 0 < m) : ∃ n, 0 < n ∧ lead = Nat.toDigits 10 n ∧ 10 * n < k := by
  induction m using Nat.base_induction 10 (by decide) generalizing k with
  | single d below =>
    obtain ⟨front, last, large⟩ := digits_last joined below longer
    exact ⟨k / 10, Nat.div_pos large (by decide), front, by omega⟩
  | digit m d below some ih =>
    rw [← Nat.toDigits_append_toDigits (by decide) some below, ← List.append_assoc] at joined
    obtain ⟨front, _, _⟩ := digits_last joined below (by simp [longer])
    obtain ⟨n, counted, digits, bound⟩ := ih front.symm some
    exact ⟨n, counted, digits, by omega⟩

theorem Overlaps.past (overlaps : Overlaps p k q m) (positive : 0 < m) :
    ∃ n, 0 < n ∧ q = numbered p n ∧ 10 * n < k := by
  obtain ⟨digits, filled, _, longer, joined⟩ := overlaps
  obtain ⟨n, counted, lead, bound⟩ := digits_lead joined filled positive
  refine ⟨n, counted, ?_, bound⟩
  apply String.toList_injective
  rw [longer, lead, numbered_toList]

theorem numbered_eq_cases (same : numbered p k = numbered q m) (left : 0 < k) (right : 0 < m) :
    (p = q ∧ k = m) ∨ (∃ n, 0 < n ∧ q = numbered p n ∧ 10 * n < k) ∨
      ∃ n, 0 < n ∧ p = numbered q n ∧ 10 * n < m := by
  rcases (numbered_eq_iff p k q m).mp same with one | overlaps | overlaps
  · exact Or.inl one
  · exact Or.inr (Or.inl (overlaps.past right))
  · exact Or.inr (Or.inr (overlaps.past left))

end UnitPipeline
