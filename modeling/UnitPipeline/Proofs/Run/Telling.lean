import Mathlib.Data.List.Basic
import UnitPipeline.Proofs.Run.Partition
import UnitPipeline.Proofs.Run.Passage

namespace UnitPipeline
variable {σ : Type}

def RunEvent.slot? : RunEvent → Option Nat
  | entering .. | finished .. => none
  | visit slot .. | closing slot _ | within slot _ | phaseDone slot .. | dropped slot .. => some slot

def RunEvent.dropped? : RunEvent → Option Nat
  | dropped slot .. => some slot
  | _ => none

def droppedIn (events : List RunEvent) : List Nat := events.filterMap RunEvent.dropped?

@[simp] theorem droppedIn_append (a b : List RunEvent) :
    droppedIn (a ++ b) = droppedIn a ++ droppedIn b := List.filterMap_append ..

namespace Round

def heading (r : Round σ) : List RunEvent :=
  match r.phase with
  | some phase => [.entering phase r.turns.length]
  | none => []

def opening (r : Round σ) (t : Turn σ) : RunEvent :=
  match r.phase with
  | some phase => .visit t.seat.slot r.stage phase t.found.session.phase
  | none => .closing t.seat.slot t.found.session.phase

def ending (r : Round σ) (t : Turn σ) : List RunEvent :=
  match t.one.result with
  | .error error => [.dropped t.seat.slot t.one.unit.display r.phase error]
  | .ok () =>
    match r.phase with
    | some phase => [.phaseDone t.seat.slot t.one.unit.display phase]
    | none => []

def told (r : Round σ) (t : Turn σ) : List RunEvent :=
  r.opening t :: t.one.events.map (.within t.seat.slot) ++ r.ending t

theorem events_told (r : Round σ) : r.events = r.heading ++ r.turns.flatMap r.told := by
  obtain ⟨stage, phase | phase, turns⟩ := r
  · refine congrArg turns.flatMap (funext fun t => ?_)
    rcases verdict : t.one.result with error | ⟨⟩ <;>
      simp [Turn.history, told, opening, ending, verdict]
  · refine congrArg (RunEvent.entering phase turns.length :: ·) ?_
    refine congrArg turns.flatMap (funext fun t => ?_)
    rcases verdict : t.one.result with error | ⟨⟩ <;>
      simp [Turn.history, told, opening, ending, verdict]

theorem heading_cases {r : Round σ} (inside : e ∈ r.heading) :
    ∃ phase, r.phase = some phase ∧ e = .entering phase r.turns.length := by
  unfold heading at inside
  split at inside
  · rename_i phase itself
    exact ⟨phase, itself, List.mem_singleton.mp inside⟩
  · cases inside

theorem ending_cases {r : Round σ} (inside : e ∈ r.ending t) :
    (∃ error, e = .dropped t.seat.slot t.one.unit.display r.phase error) ∨
      ∃ phase, r.phase = some phase ∧ e = .phaseDone t.seat.slot t.one.unit.display phase := by
  unfold ending at inside
  split at inside
  · rename_i error _
    exact Or.inl ⟨error, List.mem_singleton.mp inside⟩
  · split at inside
    · rename_i phase itself
      exact Or.inr ⟨phase, itself, List.mem_singleton.mp inside⟩
    · cases inside

theorem told_cases {r : Round σ} (inside : e ∈ r.told t) :
    e = r.opening t ∨ (∃ event ∈ t.one.events, e = .within t.seat.slot event) ∨ e ∈ r.ending t := by
  rcases List.mem_append.mp inside with before | behind
  · rcases List.mem_cons.mp before with opens | within
    · exact Or.inl opens
    · obtain ⟨event, happened, rfl⟩ := List.mem_map.mp within
      exact Or.inr (Or.inl ⟨event, happened, rfl⟩)
  · exact Or.inr (Or.inr behind)

theorem told_slot {r : Round σ} (inside : e ∈ r.told t) : e.slot? = some t.seat.slot := by
  obtain rfl | ⟨event, _, rfl⟩ | behind := told_cases inside
  · unfold opening
    split <;> rfl
  · rfl
  · obtain ⟨error, rfl⟩ | ⟨phase, _, rfl⟩ := ending_cases behind <;> rfl

theorem heading_slot {r : Round σ} (inside : e ∈ r.heading) : e.slot? = none := by
  obtain ⟨phase, _, rfl⟩ := heading_cases inside
  rfl

theorem events_slot {r : Round σ} (inside : e ∈ r.events) (about : e.slot? = some slot) :
    slot ∈ r.slots := by
  rw [events_told] at inside
  rcases List.mem_append.mp inside with head | body
  · rw [heading_slot head] at about
    cases about
  · obtain ⟨t, taken, told⟩ := List.mem_flatMap.mp body
    rw [told_slot told] at about
    exact List.mem_map.mpr ⟨t, taken, Option.some.inj about⟩

theorem work_dropped {r : Round σ}
    (inside : e ∈ r.opening t :: t.one.events.map (RunEvent.within t.seat.slot)) :
    e.dropped? = none := by
  rcases List.mem_cons.mp inside with rfl | within
  · unfold opening
    split <;> rfl
  · obtain ⟨event, _, rfl⟩ := List.mem_map.mp within
    rfl

theorem heading_dropped {r : Round σ} (inside : e ∈ r.heading) : e.dropped? = none := by
  obtain ⟨phase, _, rfl⟩ := heading_cases inside
  rfl

theorem told_dropped (r : Round σ) (t : Turn σ) :
    droppedIn (r.told t) = (Turn.failure? r.phase t).toList.map (·.slot) := by
  have none : droppedIn (r.opening t :: t.one.events.map (RunEvent.within t.seat.slot)) = [] :=
    List.filterMap_eq_nil_iff.mpr fun e inside => work_dropped inside
  unfold told
  rw [droppedIn_append, none, List.nil_append]
  rcases verdict : t.one.result with error | ⟨⟩
  · simp [ending, verdict, Turn.failure?, droppedIn, RunEvent.dropped?]
  · cases phase : r.phase <;> simp [ending, verdict, phase, Turn.failure?, droppedIn, RunEvent.dropped?]

theorem events_dropped (r : Round σ) : droppedIn r.events = r.failures.map (·.slot) := by
  have none : droppedIn r.heading = [] :=
    List.filterMap_eq_nil_iff.mpr fun e inside => heading_dropped inside
  rw [events_told, droppedIn_append, none, List.nil_append, failures,
    List.filterMap_eq_flatMap_toList, List.map_flatMap]
  exact List.filterMap_flatMap.trans (congrArg r.turns.flatMap (funext r.told_dropped))

end Round

-- Nothing more is told of a unit once it was dropped.
def Silences (e f : RunEvent) : Prop := ∀ slot, e.dropped? = some slot → f.slot? ≠ some slot

theorem silences_of_none (none : e.dropped? = none) : Silences e f := by
  intro slot dropped
  rw [none] at dropped
  cases dropped

theorem told_silent (r : Round σ) (t : Turn σ) : (r.told t).Pairwise Silences := by
  refine List.pairwise_append.mpr ⟨?_, ?_, ?_⟩
  · apply List.pairwise_of_forall_mem_list
    intro e inside f _
    exact silences_of_none (Round.work_dropped inside)
  · unfold Round.ending
    split
    · exact List.pairwise_singleton _ _
    · split
      · exact List.pairwise_singleton _ _
      · exact .nil
  · intro e inside f _
    exact silences_of_none (Round.work_dropped inside)

theorem round_silent {r : Round σ} (unique : r.slots.Nodup) : r.events.Pairwise Silences := by
  rw [Round.events_told]
  refine List.pairwise_append.mpr ⟨?_, List.pairwise_flatMap.mpr ⟨fun t _ => told_silent r t, ?_⟩, ?_⟩
  · apply List.pairwise_of_forall_mem_list
    intro e inside f _
    exact silences_of_none (Round.heading_dropped inside)
  · refine (List.pairwise_map.mp unique).imp ?_
    intro t other apart e first f second slot dropped about
    have named : e.slot? = some slot := by
      cases e with
      | dropped => exact dropped
      | _ => cases dropped
    rw [Round.told_slot first] at named
    rw [Round.told_slot second] at about
    exact apart (Option.some.inj (named.trans about.symm))
  · intro e inside f _
    exact silences_of_none (Round.heading_dropped inside)

theorem rounds_silent {d : Driver σ}
    (going : Rounds d limit stage phases live shared rounds survivors after)
    (unique : (live.map (·.slot)).Nodup) : (rounds.flatMap Round.events).Pairwise Silences := by
  induction going with
  | last stage made turns =>
    rw [← turns.slots stage none] at unique
    rw [List.flatMap_singleton]
    exact round_silent unique
  | next stage p made turns later ih =>
    rw [← turns.slots stage (some p.phase)] at unique
    rw [List.flatMap_cons]
    refine List.pairwise_append.mpr ⟨round_silent unique,
      ih ((Round.survivors_sublist _).nodup unique), ?_⟩
    -- A unit dropped in this round is in no later one.
    intro e here f afterwards slot dropped about
    have gone : slot ∈ droppedIn (Round.events ⟨stage, some p.phase, made⟩) :=
      List.mem_filterMap.mpr ⟨e, here, dropped⟩
    rw [Round.events_dropped] at gone
    obtain ⟨failure, failed, rfl⟩ := List.mem_map.mp gone
    obtain ⟨r, inside, told⟩ := List.mem_flatMap.mp afterwards
    have again := (rounds_slots later r inside).subset (Round.events_slot told about)
    exact Round.failed_apart unique failed again

theorem run_silent {d : Driver σ} (ran : d.run limit shared sources = some r) :
    r.events.Pairwise Silences := by
  obtain ⟨rounds, going, _, events⟩ := run_rounds ran
  rw [events]
  refine List.pairwise_append.mpr ⟨rounds_silent going (seats_unique sources),
    List.pairwise_singleton _ _, ?_⟩
  intro e _ f last slot _ about
  rw [List.mem_singleton.mp last] at about
  cases about

theorem split_part (whole : a ++ b = told ++ e :: later) :
    (∃ rest, a = told ++ e :: rest) ∨ ∃ between, told = a ++ between ∧ b = between ++ e :: later := by
  rcases List.append_eq_append_iff.mp whole with ⟨between, left, right⟩ | ⟨rest, left, right⟩
  · exact Or.inr ⟨between, left, right⟩
  · cases rest with
    | nil =>
      rw [List.append_nil] at left
      exact Or.inr ⟨[], left ▸ (List.append_nil a).symm, right.symm⟩
    | cons first rest =>
      obtain ⟨rfl, _⟩ := List.cons.inj right
      exact Or.inl ⟨rest, left⟩

end UnitPipeline
