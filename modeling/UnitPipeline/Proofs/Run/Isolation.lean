import UnitPipeline.Check.Standard
import UnitPipeline.Proofs.Run.Partition
import UnitPipeline.Proofs.Run.Passage
import UnitPipeline.Proofs.Unit.Aloof

namespace UnitPipeline
variable {σ : Type} {d : Driver σ} {usual : σ → Prop}

inductive Fate
  | survived (unit : CompilationUnit)
  | dropped (unit : String) (phase : Phase) (error : DriverError)
  deriving DecidableEq, Repr

namespace RunReport

def fates (r : RunReport) : List (Nat × Fate) :=
  r.survivors.map (fun seat => (seat.slot, .survived seat.unit)) ++
    r.failures.map fun f => (f.slot, .dropped f.unit f.phase f.error)

def fate? (r : RunReport) (slot : Nat) : Option Fate := r.fates.lookup slot

theorem fates_slots (r : RunReport) :
    r.fates.map (·.1) = r.survivors.map (·.slot) ++ r.failures.map (·.slot) := by
  simp [fates, Function.comp_def]

theorem fate?_of_mem {r : RunReport} (unique : (r.fates.map (·.1)).Nodup)
    (inside : (slot, fate) ∈ r.fates) : r.fate? slot = some fate := by
  obtain ⟨before, behind, split⟩ := List.append_of_mem inside
  refine List.lookup_eq_some_iff.mpr ⟨before, behind, split, ?_⟩
  intro e earlier
  rw [split, List.map_append] at unique
  have apart := (List.nodup_append.mp unique).2.2 e.1 (List.mem_map_of_mem earlier) slot
    List.mem_cons_self
  simpa using apart.symm

end RunReport

-- Two states of what is shared that a call cannot tell apart, and two that differ
-- at most in the phase that the session is in.
structure Shared.Alike (usual : σ → Prop) (a b : Shared σ) : Prop where
  session : a.session = b.session
  usual : usual a.state ∧ usual b.state

structure Shared.Akin (usual : σ → Prop) (a b : Shared σ) : Prop where
  settings : a.session.settings = b.session.settings
  usual : usual a.state ∧ usual b.state

theorem Shared.Alike.symm {a b : Shared σ} (like : a.Alike usual b) : b.Alike usual a :=
  ⟨like.session.symm, like.usual.symm⟩

theorem Shared.Akin.entering {a b : Shared σ} (like : a.Akin usual b) (phase : Phase) :
    (a.entering phase).Alike usual (b.entering phase) :=
  ⟨Session.enterPhase_eq_iff.mpr like.settings, like.usual⟩

theorem Shared.Alike.leaving {a b : Shared σ} (like : a.Alike usual (b.entering phase)) :
    a.Akin usual b := by
  have same := congrArg Session.settings like.session
  exact ⟨same, like.usual⟩

structure Advance.Alike (usual : σ → Prop) (x y : Advance σ) : Prop where
  result : x.result = y.result
  unit : x.unit = y.unit
  shared : x.shared.Alike usual y.shared

def StepAloof (usual : σ → Prop)
    (step : Shared σ → CompilationUnit → Option (Advance σ)) : Prop :=
  ∀ a b unit, a.Alike usual b → Option.Rel
    (fun x y => Advance.Alike usual x y ∧ x.shared.session = a.session) (step a unit) (step b unit)

def Driver.Aloof (usual : σ → Prop) (d : Driver σ) : Prop :=
  d.runner.Aloof usual ∧ ∀ p ∈ d.phases, UnitPipeline.Aloof usual d.runner p.run

theorem drainUnit_aloof (aloof : d.runner.Aloof usual) (limit : Nat) (point : CheckPoint) :
    StepAloof usual (d.drainUnit limit point) := by
  rintro ⟨session, a⟩ ⟨_, b⟩ unit ⟨rfl, left, right⟩
  refine rel_map (drainFrom_aloof aloof left right) ?_
  rintro ⟨⟨verdict, m⟩, after, _⟩ ⟨⟨_, n⟩, _, _⟩ ⟨rfl, rfl, same, others⟩
  exact ⟨⟨rfl, rfl, rfl, others⟩, same⟩

theorem andThen_aloof {next : Shared σ → CompilationUnit → Option (Advance σ)} {x y : Advance σ}
    (aloof : StepAloof usual next) (like : x.Alike usual y) (kept : x.shared.session = session) :
    Option.Rel (fun x y => Advance.Alike usual x y ∧ x.shared.session = session)
      (Driver.Advance.andThen x next) (Driver.Advance.andThen y next) := by
  unfold Driver.Advance.andThen
  rw [← like.result, ← like.unit]
  rcases verdict : x.result with error | ⟨⟩
  · exact .some ⟨like, kept⟩
  · refine rel_map (aloof x.shared y.shared x.unit like.shared) ?_
    rintro first second ⟨⟨result, unit, shared⟩, same⟩
    exact ⟨⟨result, unit, shared⟩, same.trans kept⟩

theorem advance_aloof (runner : d.runner.Aloof usual) (phase : Aloof usual d.runner p.run)
    (limit : Nat) : StepAloof usual (d.advance limit p) := by
  rintro ⟨session, a⟩ ⟨_, b⟩ unit ⟨rfl, left, right⟩
  refine rel_bind (phase limit a b ⟨session, unit⟩ left right) ?_
  rintro ⟨⟨verdict, m⟩, after, _⟩ ⟨⟨_, n⟩, _, _⟩ ⟨rfl, rfl, same, others⟩
  rcases verdict with cause | ⟨⟩
  · exact .some ⟨⟨rfl, rfl, rfl, others⟩, same⟩
  · dsimp only
    split
    · exact .some ⟨⟨rfl, rfl, rfl, others⟩, same⟩
    · split
      · exact andThen_aloof (drainUnit_aloof runner limit .postTyper) ⟨rfl, rfl, rfl, others⟩ same
      · exact .some ⟨⟨rfl, rfl, rfl, others⟩, same⟩

theorem finish_aloof (runner : d.runner.Aloof usual) (limit : Nat) :
    StepAloof usual (d.finish limit) := by
  intro a b unit like
  refine rel_bind (drainUnit_aloof runner limit .postTyper a b unit like) ?_
  intro x y both
  exact andThen_aloof (drainUnit_aloof runner limit .postUnit) both.1 both.2

theorem ordered_aloof (aloof : d.Aloof usual) (limit : Nat) :
    ∀ p ∈ d.ordered, StepAloof usual (d.advance limit p) := fun p known =>
  advance_aloof aloof.1 (aloof.2 p ((ordered_perm d).mem_iff.mp known)) limit

section
variable {step : Shared σ → CompilationUnit → Option (Advance σ)} {now shared : Shared σ}

theorem StepAloof.take (aloof : StepAloof usual step) (like : now.Alike usual shared)
    (took : step now unit = some one) : ∃ other, step shared unit = some other ∧
      one.Alike usual other ∧ one.shared.Alike usual shared := by
  have both := aloof now shared unit like
  rw [took] at both
  rcases other : step shared unit with _ | there
  · rw [other] at both
    cases both
  · rw [other] at both
    cases both with
    | some ends =>
      obtain ⟨same, kept⟩ := ends
      exact ⟨there, rfl, same, kept.trans like.session, same.shared.usual.1, like.usual.2⟩

theorem Turns.alike (aloof : StepAloof usual step) (turns : Turns step live now made last)
    (like : now.Alike usual shared) :
    (∀ t ∈ made, ∃ other, step shared t.seat.unit = some other ∧ t.one.Alike usual other) ∧
      last.Alike usual shared := by
  have stays : ∀ now unit one, now.Alike usual shared → step now unit = some one →
      one.shared.Alike usual shared := by
    intro now unit one here took
    obtain ⟨_, _, _, onwards⟩ := aloof.take here took
    exact onwards
  obtain ⟨each, ended⟩ := turns.keeps (fun now => now.Alike usual shared) stays like
  refine ⟨?_, ended⟩
  intro t inside
  obtain ⟨other, took, same, _⟩ := aloof.take (each t inside) (turns.took t inside)
  exact ⟨other, took, same⟩

theorem sweep_ends (phase : Option Phase) (opening : Shared σ → Seat → RunEvent)
    (closing : Seat → List RunEvent) (aloof : StepAloof usual step) (like : now.Alike usual shared)
    (ends : ∀ seat ∈ live, ∃ one, step shared seat.unit = some one) :
    ∃ out, Driver.sweep phase step opening closing live now = some out := by
  induction live generalizing now with
  | nil => exact ⟨_, rfl⟩
  | cons seat rest ih =>
    obtain ⟨there, took⟩ := ends seat List.mem_cons_self
    obtain ⟨one, here, same, _⟩ := aloof.take like.symm took
    obtain ⟨_, _, _, onwards⟩ := aloof.take like here
    obtain ⟨others, swept⟩ := ih onwards fun other inside =>
      ends other (List.mem_cons_of_mem _ inside)
    simp only [Driver.sweep, here, Option.bind_some, swept, Option.map_some]
    exact ⟨_, rfl⟩

end

def Advance.fate (phase : Phase) (onwards : CompilationUnit → Option Fate) (one : Advance σ) :
    Option Fate :=
  match one.result with
  | .ok () => onwards one.unit
  | .error error => some (.dropped one.unit.display phase error)

-- The way of one unit through a run, as if there were no other: every step begins
-- with the memory that the run begins with.
def Driver.way (d : Driver σ) (limit : Nat) (shared : Shared σ) :
    List (CompilerPhase σ) → CompilationUnit → Option Fate
  | [], unit => (d.finish limit (shared.entering .terminal) unit).bind
      (Advance.fate .terminal fun unit => some (.survived unit))
  | p :: later, unit => (d.advance limit p (shared.entering p.phase) unit).bind
      (Advance.fate p.phase fun unit => d.way limit shared later unit)

theorem Advance.Alike.fate {x y : Advance σ} (like : x.Alike usual y) :
    x.fate phase onwards = y.fate phase onwards := by
  unfold Advance.fate
  rw [like.result, like.unit]

theorem Round.fate_cases {r : Round σ} (inside : t ∈ r.turns)
    (onwards : CompilationUnit → Option Fate) :
    (⟨t.seat.slot, t.one.unit⟩ ∈ r.survivors ∧
        t.one.fate (r.phase.getD .terminal) onwards = onwards t.one.unit) ∨
      ∃ f ∈ r.failures, f.slot = t.seat.slot ∧
        t.one.fate (r.phase.getD .terminal) onwards = some (.dropped f.unit f.phase f.error) := by
  rcases verdict : t.one.result with error | ⟨⟩
  · exact Or.inr ⟨_, failure_mem inside verdict, rfl, by simp [Advance.fate, verdict]⟩
  · exact Or.inl ⟨survivor_mem inside verdict, by simp [Advance.fate, verdict]⟩

theorem rounds_ways {now shared : Shared σ} (finals : StepAloof usual (d.finish limit))
    (going : Rounds d limit stage phases live now rounds survivors after)
    (steps : ∀ p ∈ phases, StepAloof usual (d.advance limit p)) (like : now.Akin usual shared)
    (inside : seat ∈ live) : ∃ fate, d.way limit shared phases seat.unit = some fate ∧
      (seat.slot, fate) ∈ RunReport.fates ⟨survivors, rounds.flatMap Round.failures⟩ := by
  induction going generalizing seat with
  | last stage made turns =>
    rw [← turns.seats] at inside
    obtain ⟨t, among, rfl⟩ := List.mem_map.mp inside
    obtain ⟨other, took, same⟩ := (turns.alike finals (like.entering .terminal)).1 t among
    rw [Driver.way, took, Option.bind_some, ← same.fate, List.flatMap_singleton]
    obtain ⟨survived, goes⟩ | ⟨f, failed, slot, sealed⟩ :=
      Round.fate_cases (r := ⟨stage, none, made⟩) among fun unit => some (.survived unit)
    · exact ⟨_, goes, List.mem_append_left _ (List.mem_map.mpr ⟨_, survived, rfl⟩)⟩
    · exact ⟨_, sealed, List.mem_append_right _ (List.mem_map.mpr ⟨f, failed, by rw [slot]⟩)⟩
  | next stage p made turns later ih =>
    rw [← turns.seats] at inside
    obtain ⟨t, among, rfl⟩ := List.mem_map.mp inside
    obtain ⟨each, ended⟩ := turns.alike (steps p List.mem_cons_self) (like.entering p.phase)
    obtain ⟨other, took, same⟩ := each t among
    rw [Driver.way, took, Option.bind_some, ← same.fate, List.flatMap_cons]
    obtain ⟨survived, goes⟩ | ⟨f, failed, slot, sealed⟩ :=
      Round.fate_cases (r := ⟨stage, some p.phase, made⟩) among fun unit => d.way limit shared _ unit
    · obtain ⟨fate, way, told⟩ := ih (fun q known => steps q (List.mem_cons_of_mem _ known))
        ended.leaving survived
      refine ⟨fate, goes.trans way, ?_⟩
      rcases List.mem_append.mp told with unit | failure
      · exact List.mem_append_left _ unit
      · rw [RunReport.fates, List.map_append]
        exact List.mem_append_right _ (List.mem_append_right _ failure)
    · refine ⟨_, sealed, List.mem_append_right _ (List.mem_map.mpr ⟨f, ?_, by rw [slot]⟩)⟩
      exact List.mem_append_left _ failed

-- If every unit comes to the end of its way, the phases come to theirs, and so
-- does what follows them.
theorem ways_run {now shared : Shared σ} (stage : Nat)
    (steps : ∀ p ∈ phases, StepAloof usual (d.advance limit p)) (like : now.Akin usual shared)
    (ends : ∀ seat ∈ live, ∃ fate, d.way limit shared phases seat.unit = some fate) :
    ∃ middle, d.runPhases limit stage phases live now = some middle ∧
      middle.shared.Akin usual shared ∧
      ∀ seat ∈ middle.live, ∃ one, d.finish limit (shared.entering .terminal) seat.unit = some one := by
  induction phases generalizing stage live now with
  | nil =>
    refine ⟨_, rfl, like, ?_⟩
    intro seat inside
    obtain ⟨fate, way⟩ := ends seat inside
    obtain ⟨one, took, _⟩ := Option.bind_eq_some_iff.mp way
    exact ⟨one, took⟩
  | cons p later ih =>
    have aloof := steps p List.mem_cons_self
    have begins : ∀ seat ∈ live, ∃ one,
        d.advance limit p (shared.entering p.phase) seat.unit = some one := by
      intro seat inside
      obtain ⟨fate, way⟩ := ends seat inside
      obtain ⟨one, took, _⟩ := Option.bind_eq_some_iff.mp way
      exact ⟨one, took⟩
    obtain ⟨here, swept⟩ := sweep_ends (some p.phase)
      (fun now seat => .visit seat.slot stage p.phase now.session.phase)
      (fun seat => [.phaseDone seat.slot seat.unit.display p.phase]) aloof
      (like.entering p.phase) begins
    obtain ⟨made, turns, alive, _, _⟩ := sweep_turns swept
    obtain ⟨each, ended⟩ := turns.alike aloof (like.entering p.phase)
    have onwards : ∀ seat ∈ here.live, ∃ fate, d.way limit shared later seat.unit = some fate := by
      intro seat inside
      rw [alive] at inside
      obtain ⟨t, among, passed, rfl⟩ := survivor_turn inside
      obtain ⟨fate, way⟩ := ends t.seat (turns.seat_mem among)
      obtain ⟨other, took, same⟩ := each t among
      rw [Driver.way, took, Option.bind_some, ← same.fate, Advance.fate, passed] at way
      exact ⟨fate, way⟩
    obtain ⟨middle, ran, akin, finals⟩ :=
      ih (stage + 1) (fun q known => steps q (List.mem_cons_of_mem _ known)) ended.leaving onwards
    unfold Shared.entering at swept
    simp only [Driver.runPhases, swept, Option.bind_some, ran, Option.map_some]
    exact ⟨_, rfl, akin, finals⟩

theorem seat_of_source {sources : List SourceFile} (here : sources[slot]? = some source) :
    ⟨slot, .new source⟩ ∈ Driver.seats sources :=
  List.mem_map.mpr ⟨(source, slot), List.mem_zipIdx_iff_getElem?.mpr here, rfl⟩

theorem fates_unique (ran : d.run limit shared sources = some r) :
    (r.report.fates.map (·.1)).Nodup := by
  obtain ⟨rounds, going, failures, _⟩ := run_rounds ran
  rw [RunReport.fates_slots, failures]
  exact (rounds_perm going).nodup_iff.mpr (seats_unique sources)

theorem run_fate {own shared : Shared σ} (aloof : d.Aloof usual) (like : own.Akin usual shared)
    (ran : d.run limit own sources = some r) (here : sources[slot]? = some source) :
    ∃ fate, d.way limit shared d.ordered (.new source) = some fate ∧
      r.report.fate? slot = some fate := by
  obtain ⟨rounds, going, failures, _⟩ := run_rounds ran
  obtain ⟨fate, way, told⟩ := rounds_ways (finish_aloof aloof.1 limit) going
    (ordered_aloof aloof limit) like (seat_of_source here)
  rw [← failures] at told
  exact ⟨fate, way, RunReport.fate?_of_mem (fates_unique ran) told⟩

theorem run_ends {own shared : Shared σ} (aloof : d.Aloof usual) (like : own.Akin usual shared)
    (ends : ∀ source ∈ sources, ∃ fate, d.way limit shared d.ordered (.new source) = some fate) :
    ∃ r, d.run limit own sources = some r := by
  have ways : ∀ seat ∈ Driver.seats sources, ∃ fate,
      d.way limit shared d.ordered seat.unit = some fate := by
    intro seat inside
    obtain ⟨source, known, fresh⟩ := seats_source inside
    rw [fresh]
    exact ends source (List.mem_of_getElem? known)
  obtain ⟨middle, through, akin, finals⟩ := ways_run 0 (ordered_aloof aloof limit) like ways
  obtain ⟨last, swept⟩ := sweep_ends none (fun now seat => .closing seat.slot now.session.phase)
    (fun _ => []) (finish_aloof aloof.1 limit) (akin.entering .terminal) finals
  unfold Shared.entering at swept
  simp only [Driver.run, through, Option.bind_some, swept, Option.map_some]
  exact ⟨_, rfl⟩

-- The sources of a run do not touch each other. A run comes to its end exactly if
-- each source alone does, and then the fate of a source is its fate in a run of
-- its own, and in any other run, wherever it stands and whatever stands beside it.
-- The other runs may be later ones of the same driver: they need not begin in the
-- phase, nor with the memory, that this one begins with.
structure Isolated (d : Driver σ) (usual : σ → Prop) (limit : Nat) (shared : Shared σ)
    (sources : List SourceFile) : Prop where
  ends : (∃ r, d.run limit shared sources = some r) ↔
    ∀ source ∈ sources, ∃ alone, d.run limit shared [source] = some alone
  alone : ∀ r, d.run limit shared sources = some r →
    ∀ slot source, sources[slot]? = some source → ∀ own : Shared σ, own.Akin usual shared →
      ∃ alone fate, d.run limit own [source] = some alone ∧
        r.report.fate? slot = some fate ∧ alone.report.fate? 0 = some fate
  anywhere : ∀ r, d.run limit shared sources = some r →
    ∀ slot source, sources[slot]? = some source → ∀ own : Shared σ, own.Akin usual shared →
      ∀ others s place, d.run limit own others = some s → others[place]? = some source →
        s.report.fate? place = r.report.fate? slot

theorem run_isolates {shared : Shared σ} (aloof : d.Aloof usual) (ready : usual shared.state)
    (limit : Nat) (sources : List SourceFile) : Isolated d usual limit shared sources := by
  have itself : shared.Akin usual shared := ⟨rfl, ready, ready⟩
  refine ⟨⟨?_, ?_⟩, ?_, ?_⟩
  · rintro ⟨r, ran⟩ source inside
    obtain ⟨slot, here⟩ := List.mem_iff_getElem?.mp inside
    obtain ⟨fate, way, _⟩ := run_fate aloof itself ran here
    apply run_ends aloof itself
    intro one among
    rw [List.mem_singleton.mp among]
    exact ⟨fate, way⟩
  · intro each
    apply run_ends aloof itself
    intro source inside
    obtain ⟨alone, ran⟩ := each source inside
    have first : [source][0]? = some source := rfl
    obtain ⟨fate, way, _⟩ := run_fate aloof itself ran first
    exact ⟨fate, way⟩
  · intro r ran slot source here own like
    obtain ⟨fate, way, sealed⟩ := run_fate aloof itself ran here
    obtain ⟨alone, only⟩ : ∃ alone, d.run limit own [source] = some alone := by
      apply run_ends aloof like
      intro one among
      rw [List.mem_singleton.mp among]
      exact ⟨fate, way⟩
    have first : [source][0]? = some source := rfl
    obtain ⟨other, again, same⟩ := run_fate aloof like only first
    cases way.symm.trans again
    exact ⟨alone, fate, only, sealed, same⟩
  · intro r ran slot source here own like others s place beside there
    obtain ⟨fate, way, sealed⟩ := run_fate aloof itself ran here
    obtain ⟨other, again, same⟩ := run_fate aloof like beside there
    cases way.symm.trans again
    exact same.trans sealed.symm

theorem change_aside (op : UnitOp) : Deed.Aside (.change op) := ⟨nofun, nofun⟩

theorem handle_aside (enabled : OrderedSet Feature) (check : DeferredCheck) :
    (StandardChecks.handle (σ := σ) enabled check).Does Deed.Aside :=
  handle_does (fun _ => change_aside _) (fun _ _ _ => change_aside _) enabled check

theorem standard_aside : StandardChecks.runner.Does Deed.Aside :=
  fun enabled check => bind_does (handle_aside enabled check) fun _ => True.intro

def barring (path : String) : CompilerPhase (OrderedSet Feature) :=
  ⟨.namer, fun enabled => (Action.view fun _ u =>
    if u.display = path then .error ⟨"barred"⟩ else .ok ()).bind fun value =>
      .done (value, enabled)⟩

def demanding (feature : Feature) : CompilerPhase (OrderedSet Feature) :=
  ⟨.typer, fun enabled => (Action.change (.queueCheck .postTyper
    (.featureEnabled feature Position.none)) fun _ => .done (.ok ())).bind fun value =>
      .done (value, enabled)⟩

def standardDriver : Driver (OrderedSet Feature) :=
  ⟨[demanding ⟨"macros"⟩, barring "B.scala"], StandardChecks.runner⟩

theorem standard_aloof (enabled : OrderedSet Feature) : standardDriver.Aloof (· = enabled) := by
  refine ⟨fun check => aside_aloof standard_aside (handle_aside enabled check), ?_⟩
  intro p known
  simp only [standardDriver, List.mem_cons, List.not_mem_nil, or_false] at known
  rcases known with rfl | rfl
  · exact aside_aloof standard_aside ⟨change_aside _, fun _ => True.intro⟩
  · exact aside_aloof standard_aside fun _ _ => True.intro

def barredBetween : List SourceFile :=
  [.persistent "A.scala" "a", .persistent "B.scala" "b", .persistent "A.scala" "a"]

theorem standard_isolates : ∃ r, standardDriver.run 2 ⟨{}, {}⟩ barredBetween = some r ∧
    Isolated standardDriver (· = {}) 2 ⟨{}, {}⟩ barredBetween ∧
    r.report.fate? 0 = r.report.fate? 2 ∧
    r.report.fate? 1 =
      some (.dropped "B.scala" .namer (.phase .namer "B.scala" ⟨"barred"⟩)) := by
  have told : (standardDriver.run 2 ⟨{}, {}⟩ barredBetween).map (fun r => r.report.fate? 1) =
      some (some (.dropped "B.scala" .namer (.phase .namer "B.scala" ⟨"barred"⟩))) := rfl
  obtain ⟨r, ran, barred⟩ := Option.map_eq_some_iff.mp told
  have apart : Isolated standardDriver (· = {}) 2 ⟨{}, {}⟩ barredBetween :=
    run_isolates (standard_aloof {}) rfl 2 barredBetween
  have same := apart.anywhere r ran 2 _ rfl ⟨{}, {}⟩ ⟨rfl, rfl, rfl⟩ barredBetween r 0 ran rfl
  exact ⟨r, ran, apart, same, barred⟩

end UnitPipeline
