import UnitPipeline.Proofs.Run.Course
import UnitPipeline.Proofs.Run.Order

namespace UnitPipeline
variable {σ : Type} {d : Driver σ}

theorem seats_slots (sources : List SourceFile) :
    (Driver.seats sources).map (·.slot) = List.range sources.length := by
  rw [Driver.seats, List.map_map, List.range_eq_range']
  exact List.zipIdx_map_snd 0 sources

theorem seats_unique (sources : List SourceFile) :
    ((Driver.seats sources).map (·.slot)).Nodup := by
  rw [seats_slots]
  exact List.nodup_range

theorem seats_source (inside : seat ∈ Driver.seats sources) :
    ∃ source, sources[seat.slot]? = some source ∧ seat.unit = .new source := by
  obtain ⟨⟨source, slot⟩, found, rfl⟩ := List.mem_map.mp inside
  exact ⟨source, List.mem_zipIdx_iff_getElem?.mp found, rfl⟩

def lastStage (phases slot : Nat) (events : List RunEvent) : Option Nat :=
  (stagesOf phases slot events).getLast?

-- Whether the history has one unit dropped before another: at an earlier stage,
-- or at the same stage and nearer to the first source.
def DroppedBefore (phases : Nat) (events : List RunEvent) (f g : UnitFailure) : Prop :=
  ∃ i j, lastStage phases f.slot events = some i ∧ lastStage phases g.slot events = some j ∧
    (i < j ∨ i = j ∧ f.slot < g.slot)

theorem failure_here {r : Round σ} (failed : f ∈ r.failures) (unique : r.slots.Nodup)
    (fits : r.phase = none → r.stage = total) (later : stagesOf total f.slot events = []) :
    lastStage total f.slot (r.events ++ events) = some r.stage := by
  obtain ⟨t, inside, _, _, rfl⟩ := failure_turn failed
  rw [lastStage, stagesOf_append, later, round_stages _ _ fits, turnsOf_alone _ inside unique]
  rfl

theorem failures_here {r : Round σ}
    (later : Rounds d limit stage phases r.survivors shared rounds survivors after)
    (fits : stage + phases.length = total) (kind : r.phase = none → r.stage = total)
    (unique : r.slots.Nodup) : ∀ f ∈ r.failures,
      lastStage total f.slot (r.events ++ rounds.flatMap Round.events) = some r.stage := by
  intro f failed
  have silent := stages_apart later (Round.failed_apart unique failed)
  rw [fits] at silent
  exact failure_here failed unique kind silent

theorem lastStage_later (later : lastStage phases slot events = some stage)
    (earlier : List RunEvent) : lastStage phases slot (earlier ++ events) = some stage := by
  unfold lastStage at later ⊢
  rw [stagesOf_append, List.getLast?_append, later]
  rfl

theorem failure_stage (going : Rounds d limit stage phases live shared rounds survivors after)
    (fits : stage + phases.length = total) (unique : (live.map (·.slot)).Nodup)
    (failed : f ∈ rounds.flatMap Round.failures) :
    ∃ i, lastStage total f.slot (rounds.flatMap Round.events) = some (stage + i) ∧
      (phases.map (·.phase) ++ [.terminal])[i]? = some f.phase := by
  induction going with
  | last stage made turns =>
    rw [← turns.slots stage none] at unique
    rw [List.flatMap_singleton] at failed ⊢
    refine ⟨0, ?_, ?_⟩
    · have last : lastStage total f.slot (_ ++ []) = some stage :=
        failure_here failed unique (fun _ => fits) rfl
      rwa [List.append_nil] at last
    · obtain ⟨t, _, _, _, rfl⟩ := failure_turn failed
      rfl
  | next stage p made turns later ih =>
    rw [← turns.slots stage (some p.phase)] at unique
    have shifted := (Nat.succ_add_eq_add_succ ..).trans fits
    rw [List.flatMap_cons] at failed ⊢
    rcases List.mem_append.mp failed with here | afterwards
    · refine ⟨0, ?_, ?_⟩
      · exact failures_here later shifted nofun unique f here
      · obtain ⟨t, _, _, _, rfl⟩ := failure_turn here
        rfl
    · obtain ⟨i, last, kind⟩ := ih shifted ((Round.survivors_sublist _).nodup unique) afterwards
      refine ⟨i + 1, ?_, kind⟩
      rw [Nat.succ_add] at last
      exact lastStage_later last _

theorem round_ordered {r : Round σ} (sorted : r.slots.Pairwise (· < ·))
    (staged : ∀ f ∈ r.failures, lastStage phases f.slot events = some r.stage) :
    r.failures.Pairwise (DroppedBefore phases events) := by
  have slots := List.pairwise_map.mp (sorted.sublist r.failures_sublist)
  refine slots.imp_of_mem ?_
  intro f g first second below
  exact ⟨_, _, staged f first, staged g second, Or.inr ⟨rfl, below⟩⟩

theorem sorted_unique {slots : List Nat} (sorted : slots.Pairwise (· < ·)) : slots.Nodup :=
  sorted.imp Nat.ne_of_lt

theorem failures_ordered (going : Rounds d limit stage phases live shared rounds survivors after)
    (fits : stage + phases.length = total) (sorted : (live.map (·.slot)).Pairwise (· < ·)) :
    (rounds.flatMap Round.failures).Pairwise
      (DroppedBefore total (rounds.flatMap Round.events)) := by
  induction going with
  | last stage made turns =>
    rw [← turns.slots stage none] at sorted
    rw [List.flatMap_singleton, List.flatMap_singleton]
    apply round_ordered sorted
    intro f failed
    have last : lastStage total f.slot (_ ++ []) = some stage :=
      failure_here failed (sorted_unique sorted) (fun _ => fits) rfl
    rwa [List.append_nil] at last
  | next stage p made turns later ih =>
    rw [← turns.slots stage (some p.phase)] at sorted
    have shifted := (Nat.succ_add_eq_add_succ ..).trans fits
    have onwards := sorted.sublist (Round.survivors_sublist _)
    have staged := failures_here later shifted nofun (sorted_unique sorted)
    rw [List.flatMap_cons, List.flatMap_cons]
    -- Within the round by slot, and all of it before what later rounds drop.
    refine List.pairwise_append.mpr ⟨round_ordered sorted staged, ?_, ?_⟩
    · refine (ih shifted onwards).imp ?_
      rintro f g ⟨i, j, first, second, before⟩
      exact ⟨i, j, lastStage_later first _, lastStage_later second _, before⟩
    · intro f here g afterwards
      obtain ⟨i, last, _⟩ := failure_stage later shifted (sorted_unique onwards) afterwards
      have below : stage < stage + 1 + i := by omega
      exact ⟨_, _, staged f here, lastStage_later last _, Or.inl below⟩

-- What becomes of the sources of a run. Each ends once, as a unit or as a
-- failure; both lists are in order, the failures stage by stage along the sorted
-- phases, with the final drains as the last stage.
structure Partitioned (d : Driver σ) (sources : List SourceFile) (r : RunResult σ) : Prop where
  once : (r.report.survivors.map (·.slot) ++ r.report.failures.map (·.slot)).Perm
    (List.range sources.length)
  count : r.report.units.length + r.report.failures.length = sources.length
  inOrder : (r.report.survivors.map (·.slot)).Pairwise (· < ·)
  kept : ∀ seat ∈ r.report.survivors, sources[seat.slot]? = some seat.unit.source
  named : ∀ f ∈ r.report.failures, sources[f.slot]?.map SourceFile.display = some f.unit
  allPhases : d.ordered.Perm d.phases
  sorted : d.ordered.Pairwise fun p q => p.phase.rank ≤ q.phase.rank
  stable : ∀ kind, (d.ordered.filter fun p => p.phase = kind) =
    d.phases.filter fun p => p.phase = kind
  stages : r.report.failures.Pairwise (DroppedBefore d.ordered.length r.events)
  filed : ∀ f ∈ r.report.failures, ∃ stage, lastStage d.ordered.length f.slot r.events = some stage ∧
    (d.ordered.map (·.phase) ++ [.terminal])[stage]? = some f.phase
  succeeded : r.report.succeeded = true ↔
    ∀ slot < sources.length, slot ∈ r.report.survivors.map (·.slot)

theorem succeeded_iff (r : RunReport) (n : Nat)
    (once : (r.survivors.map (·.slot) ++ r.failures.map (·.slot)).Perm (List.range n)) :
    r.succeeded = true ↔ ∀ slot < n, slot ∈ r.survivors.map (·.slot) := by
  constructor
  · intro clean slot below
    have inside := once.mem_iff.mpr (List.mem_range.mpr below)
    rw [List.isEmpty_iff.mp clean, List.map_nil, List.append_nil] at inside
    exact inside
  · intro all
    apply List.isEmpty_iff.mpr
    apply List.eq_nil_iff_forall_not_mem.mpr
    intro f failed
    have mine : f.slot ∈ r.failures.map (·.slot) := List.mem_map.mpr ⟨f, failed, rfl⟩
    have below := List.mem_range.mp (once.mem_iff.mp (List.mem_append_right _ mine))
    have parts := List.nodup_append.mp (once.nodup_iff.mpr List.nodup_range)
    exact parts.2.2 _ (all f.slot below) _ mine rfl

theorem run_partitions (ran : d.run limit shared sources = some r) : Partitioned d sources r := by
  obtain ⟨rounds, going, failures, events⟩ := run_rounds ran
  have slots := seats_slots sources
  have sorted : ((Driver.seats sources).map (·.slot)).Pairwise (· < ·) := by
    rw [slots]
    exact List.pairwise_lt_range
  have told : ∀ slot, stagesOf d.ordered.length slot r.events =
      stagesOf d.ordered.length slot (rounds.flatMap Round.events) := by
    intro slot
    rw [events, stagesOf_append]
    exact List.append_nil _
  have once : (r.report.survivors.map (·.slot) ++ r.report.failures.map (·.slot)).Perm
      (List.range sources.length) := by
    rw [failures, ← slots]
    exact rounds_perm going
  refine ⟨once, ?_, ?_, ?_, ?_, ordered_perm d, ordered_sorted d, ordered_stable d, ?_, ?_,
    succeeded_iff r.report _ once⟩
  · simpa [RunReport.units] using once.length_eq
  · exact sorted.sublist (rounds_sublist going)
  · intro seat survived
    obtain ⟨start, inside, same, earlier, found, unit, one, _, course, ended, _, last⟩ :=
      survivor_course going (seats_unique sources) survived
    obtain ⟨source, known, fresh⟩ := seats_source inside
    have kept := (work_source (finish_works d limit found unit one ended)).trans
      (course_source course)
    rw [← same, known, ← last, kept, fresh]
    rfl
  · intro f failed
    rw [failures] at failed
    obtain ⟨start, inside, same, unit, named, course⟩ :=
      failure_course going (seats_unique sources) failed
    obtain ⟨source, known, fresh⟩ := seats_source inside
    rw [← same, known, named, CompilationUnit.display, course_source course, fresh]
    rfl
  · rw [failures]
    refine (failures_ordered going (Nat.zero_add _) sorted).imp ?_
    rintro f g ⟨i, j, first, second, before⟩
    rw [lastStage, ← told] at first second
    exact ⟨i, j, first, second, before⟩
  · intro f failed
    rw [failures] at failed
    obtain ⟨i, last, kind⟩ := failure_stage going (Nat.zero_add _) (seats_unique sources) failed
    rw [lastStage, ← told, Nat.zero_add] at last
    exact ⟨i, last, kind⟩

def refusing (kind : Phase) (visits : Nat) : CompilerPhase Nat :=
  ⟨kind, fun seen => .done (if seen = visits then .error ⟨"refused"⟩ else .ok (), seen + 1)⟩

def refusals : Driver Nat :=
  ⟨[refusing .typer 5, refusing .namer 1], fun seen _ => .done (.ok (), seen)⟩

def twins : List SourceFile :=
  [.absent, .persistent "A.scala" "a", .persistent "A.scala" "a", .inMemory "A.scala" "b"]

theorem refusals_partition :
    ∃ r, refusals.run 1 ⟨{}, 0⟩ twins = some r ∧ Partitioned refusals twins r ∧
      r.report.survivors.map (·.slot) = [0, 3] ∧
      r.report.failures.map (fun f => (f.slot, f.phase)) = [(1, .namer), (2, .typer)] := by
  have told : (refusals.run 1 ⟨{}, 0⟩ twins).map (fun r => (r.report.survivors.map (·.slot),
      r.report.failures.map fun f => (f.slot, f.phase))) =
      some ([0, 3], [(1, .namer), (2, .typer)]) := rfl
  obtain ⟨r, ran, ends⟩ := Option.map_eq_some_iff.mp told
  obtain ⟨units, failures⟩ := Prod.mk.inj ends
  exact ⟨r, ran, run_partitions ran, units, failures⟩

end UnitPipeline
