import UnitPipeline.Run.Driver

namespace UnitPipeline
variable {σ : Type}

theorem filters_perm (kinds : List Phase) (unique : kinds.Nodup) (phases : List (CompilerPhase σ)) :
    (kinds.flatMap fun kind => phases.filter fun p => p.phase = kind).Perm
      (phases.filter fun p => p.phase ∈ kinds) := by
  induction kinds with
  | nil => simp
  | cons kind rest ih =>
    obtain ⟨apart, others⟩ := List.nodup_cons.mp unique
    let mine := phases.filter fun p => p.phase ∈ kind :: rest
    have here : (mine.filter fun p => p.phase = kind) = phases.filter fun p => p.phase = kind := by
      rw [List.filter_filter]
      apply List.filter_congr
      intro p _
      by_cases same : p.phase = kind <;> simp [same]
    have there : (mine.filter fun p => !decide (p.phase = kind)) =
        phases.filter fun p => p.phase ∈ rest := by
      rw [List.filter_filter]
      apply List.filter_congr
      intro p _
      by_cases same : p.phase = kind
      · simp [same, apart]
      · simp [same]
    have parts := List.filter_append_perm (fun p => decide (p.phase = kind)) mine
    rw [here, there] at parts
    rw [List.flatMap_cons]
    exact ((ih others).append_left _).trans parts

-- Sorting the phases by kind is stable: no phase is lost or taken twice, the
-- kinds never go back, and the phases of one kind stay in their order.
theorem ordered_perm (d : Driver σ) : d.ordered.Perm d.phases := by
  have parts := filters_perm Phase.all (by decide) d.phases
  have all : (d.phases.filter fun p => p.phase ∈ Phase.all) = d.phases := by
    apply List.filter_eq_self.mpr
    intro p _
    exact decide_eq_true (Phase.mem_all p.phase)
  rwa [all] at parts

theorem ordered_sorted (d : Driver σ) :
    d.ordered.Pairwise fun p q => p.phase.rank ≤ q.phase.rank := by
  have ranks : Phase.all.Pairwise fun a b => a.rank < b.rank := by decide
  refine List.pairwise_flatMap.mpr ⟨?_, ranks.imp ?_⟩
  · intro kind _
    apply List.pairwise_of_forall_mem_list
    intro p first q second
    have left : p.phase = kind := of_decide_eq_true (List.mem_filter.mp first).2
    have right : q.phase = kind := of_decide_eq_true (List.mem_filter.mp second).2
    exact Nat.le_of_eq (congrArg Phase.rank (left.trans right.symm))
  · intro a b below p first q second
    rw [of_decide_eq_true (List.mem_filter.mp first).2]
    rw [of_decide_eq_true (List.mem_filter.mp second).2]
    exact Nat.le_of_lt below

theorem ordered_stable (d : Driver σ) (kind : Phase) :
    (d.ordered.filter fun p => p.phase = kind) = d.phases.filter fun p => p.phase = kind := by
  have each (other : Phase) : ((d.phases.filter fun p => p.phase = other).filter fun p =>
      p.phase = kind) = if other = kind then d.phases.filter fun p => p.phase = kind else [] := by
    by_cases same : other = kind
    · simp [same]
    · rw [if_neg same, List.filter_filter]
      apply List.filter_eq_nil_iff.mpr
      intro p _ both
      obtain ⟨mine, theirs⟩ := Bool.and_eq_true_iff.mp both
      exact same ((of_decide_eq_true theirs).symm.trans (of_decide_eq_true mine))
  unfold Driver.ordered
  rw [List.filter_flatMap]
  simp only [each]
  cases kind <;> simp [Phase.all]

end UnitPipeline
