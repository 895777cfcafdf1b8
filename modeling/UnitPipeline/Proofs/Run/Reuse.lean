import UnitPipeline.Proofs.Run.Isolation

namespace UnitPipeline
variable {σ : Type} {d e : Driver σ} {usual : σ → Prop}

-- Two lists of the same phases, with those of one kind in one order. How the kinds
-- are mixed is open.
def SameByKind (a b : List (CompilerPhase σ)) : Prop :=
  ∀ kind, (a.filter fun p => p.phase = kind) = b.filter fun p => p.phase = kind

namespace Driver

def addPhases (d : Driver σ) (phases : List (CompilerPhase σ)) : Driver σ :=
  phases.foldl addPhase d

def sorted (d : Driver σ) : Driver σ := { d with phases := d.ordered }

theorem addPhases_eq (d : Driver σ) (phases : List (CompilerPhase σ)) :
    d.addPhases phases = { d with phases := d.phases ++ phases } := by
  induction phases generalizing d with
  | nil => simp [addPhases]
  | cons p rest ih =>
    have later := ih (d.addPhase p)
    simpa [addPhases, addPhase] using later

theorem ordered_of_kinds (same : SameByKind d.phases e.phases) : d.ordered = e.ordered :=
  congrArg Phase.all.flatMap (funext same)

theorem ordered_sorted_again (d : Driver σ) : d.sorted.ordered = d.ordered :=
  ordered_of_kinds (ordered_stable d)

theorem ordered_mixed {a b : List (CompilerPhase σ)} (same : SameByKind a b) (d : Driver σ) :
    (d.addPhases a).ordered = (d.addPhases b).ordered := by
  apply ordered_of_kinds
  intro kind
  simp only [addPhases_eq, List.filter_append, same kind]

theorem drainUnit_of_runner (runner : d.runner = e.runner) : d.drainUnit = e.drainUnit := by
  funext limit point shared unit
  simp only [drainUnit, runner]

theorem advance_of_runner (runner : d.runner = e.runner) : d.advance = e.advance := by
  funext limit p shared unit
  simp only [advance, runner, drainUnit_of_runner runner]

theorem finish_of_runner (runner : d.runner = e.runner) : d.finish = e.finish := by
  funext limit shared unit
  simp only [finish, drainUnit_of_runner runner]

theorem runPhases_of_runner (runner : d.runner = e.runner) (limit stage : Nat)
    (phases : List (CompilerPhase σ)) (live : List Seat) (shared : Shared σ) :
    d.runPhases limit stage phases live shared = e.runPhases limit stage phases live shared := by
  induction phases generalizing stage live shared with
  | nil => rfl
  | cons p later ih => simp only [runPhases, advance_of_runner runner, ih]

theorem run_of_ordered (runner : d.runner = e.runner) (ordered : d.ordered = e.ordered)
    (limit : Nat) (shared : Shared σ) (sources : List SourceFile) :
    d.run limit shared sources = e.run limit shared sources := by
  simp only [run, runPhases_of_runner runner, finish_of_runner runner, ordered]

end Driver

structure Driver.Sweep.Agrees (usual : σ → Prop) (x y : Driver.Sweep σ) : Prop where
  live : x.live = y.live
  failures : x.failures = y.failures
  shared : x.shared.Akin usual y.shared

theorem Shared.Alike.akin {a b : Shared σ} (like : a.Alike usual b) : a.Akin usual b :=
  ⟨congrArg Session.settings like.session, like.usual⟩

theorem sweep_agrees {step : Shared σ → CompilationUnit → Option (Advance σ)} {a b : Shared σ}
    (phase : Option Phase) (opening : Shared σ → Seat → RunEvent)
    (closing : Seat → List RunEvent) (aloof : StepAloof usual step) (like : a.Alike usual b) :
    Option.Rel (fun x y => Driver.Sweep.Agrees usual x y ∧ x.shared.session = a.session)
      (Driver.sweep phase step opening closing live a)
      (Driver.sweep phase step opening closing live b) := by
  induction live generalizing a b with
  | nil => exact .some ⟨⟨rfl, rfl, like.akin⟩, rfl⟩
  | cons seat rest ih =>
    refine rel_bind (aloof a b seat.unit like) ?_
    rintro one other ⟨⟨result, unit, shared⟩, kept⟩
    refine rel_map (ih shared) ?_
    rintro x y ⟨⟨live, failures, after⟩, session⟩
    rw [← result, ← unit]
    rcases one.result with error | ⟨⟩
    · refine ⟨⟨live, ?_, after⟩, session.trans kept⟩
      simp only [failures]
    · refine ⟨⟨?_, failures, after⟩, session.trans kept⟩
      simp only [live]

theorem runPhases_agrees {a b : Shared σ}
    (steps : ∀ p ∈ phases, StepAloof usual (d.advance limit p)) (like : a.Akin usual b) :
    Option.Rel (fun x y => Driver.Sweep.Agrees usual x y ∧ x.shared.session.settings = a.session.settings)
      (d.runPhases limit stage phases live a) (d.runPhases limit stage phases live b) := by
  induction phases generalizing stage live a b with
  | nil => exact .some ⟨⟨rfl, rfl, like⟩, rfl⟩
  | cons p later ih =>
    refine rel_bind (sweep_agrees _ _ _ (steps p List.mem_cons_self) (like.entering p.phase)) ?_
    rintro here there ⟨⟨live, failures, shared⟩, session⟩
    rw [← live]
    refine rel_map (ih (fun q known => steps q (List.mem_cons_of_mem _ known)) shared) ?_
    rintro x y ⟨⟨alive, failed, after⟩, settings⟩
    have kept : here.shared.session.settings = a.session.settings := by
      rw [session]
      rfl
    refine ⟨⟨alive, ?_, after⟩, settings.trans kept⟩
    simp only [failures, failed]

theorem run_agrees {a b : Shared σ} (aloof : d.Aloof usual) (like : a.Akin usual b) (limit : Nat)
    (sources : List SourceFile) :
    Option.Rel (fun x y => x.report = y.report ∧ x.shared.Akin usual y.shared ∧
        x.shared.session = a.session.enterPhase .terminal)
      (d.run limit a sources) (d.run limit b sources) := by
  refine rel_bind (runPhases_agrees (ordered_aloof aloof limit) like) ?_
  rintro middle other ⟨⟨live, failures, shared⟩, settings⟩
  rw [← live]
  refine rel_map (sweep_agrees none _ _ (finish_aloof aloof.1 limit)
    (shared.entering .terminal)) ?_
  rintro x y ⟨⟨alive, failed, after⟩, session⟩
  refine ⟨?_, after, ?_⟩
  · simp only [failures, alive, failed]
  · exact session.trans (Session.enterPhase_eq_iff.mpr settings)

theorem run_again (aloof : d.Aloof usual) (kept : usual shared.state)
    (ran : d.run limit shared sources = some r) :
    r.shared.session = shared.session.enterPhase .terminal ∧
      ∃ again, d.run limit r.shared sources = some again ∧ again.report = r.report := by
  have itself : shared.Akin usual shared := ⟨rfl, kept, kept⟩
  have first := run_agrees aloof itself limit sources
  rw [ran] at first
  cases first with
  | some both =>
    obtain ⟨_, akin, session⟩ := both
    have settings : r.shared.session.settings = shared.session.settings := by
      rw [session]
      rfl
    have onwards : r.shared.Akin usual shared := ⟨settings, akin.usual.1, kept⟩
    have second := run_agrees aloof onwards limit sources
    rw [ran] at second
    rcases other : d.run limit r.shared sources with _ | again
    · rw [other] at second
      cases second
    · rw [other] at second
      cases second with
      | some same => exact ⟨session, again, rfl, same.1⟩

-- It does not matter in which order phases of different kinds were added, whatever
-- phases and runner do and remember. And a driver whose calls neither remember
-- anything nor write the session reports the same once more, though the session is
-- in its last phase by then.
theorem registration_irrelevant {a b : List (CompilerPhase σ)} (same : SameByKind a b)
    (d : Driver σ) : (∀ limit shared sources,
      (d.addPhases a).run limit shared sources = (d.addPhases b).run limit shared sources) ∧
    ∀ usual, (d.addPhases a).Aloof usual → ∀ limit shared sources r, usual shared.state →
      (d.addPhases a).run limit shared sources = some r → r.shared.session.phase = .terminal ∧
        ∃ again, (d.addPhases a).sorted.run limit r.shared sources = some again ∧
          again.report = r.report := by
  refine ⟨?_, ?_⟩
  · intro limit shared sources
    refine Driver.run_of_ordered ?_ (Driver.ordered_mixed same d) limit shared sources
    simp only [Driver.addPhases_eq]
  · intro usual aloof limit shared sources r kept ran
    obtain ⟨session, again, repeated, report⟩ := run_again aloof kept ran
    refine ⟨congrArg Session.phase session, again, ?_, report⟩
    rw [← repeated]
    exact Driver.run_of_ordered (d := (d.addPhases a).sorted) (e := d.addPhases a) rfl
      (Driver.ordered_sorted_again _) limit r.shared sources

def barringFirst : List (CompilerPhase (OrderedSet Feature)) :=
  [barring "B.scala", barring "A.scala", demanding ⟨"macros"⟩]

def demandingBetween : List (CompilerPhase (OrderedSet Feature)) :=
  [barring "B.scala", demanding ⟨"macros"⟩, barring "A.scala"]

def noPhases : Driver (OrderedSet Feature) := ⟨[], StandardChecks.runner⟩

theorem barringFirst_aloof : (noPhases.addPhases barringFirst).Aloof (· = {}) := by
  refine ⟨fun check => aside_aloof standard_aside (handle_aside {} check), ?_⟩
  intro p known
  have listed : p ∈ barringFirst := known
  simp only [barringFirst, List.mem_cons, List.not_mem_nil, or_false] at listed
  rcases listed with rfl | rfl | rfl
  · exact aside_aloof standard_aside fun _ _ => True.intro
  · exact aside_aloof standard_aside fun _ _ => True.intro
  · exact aside_aloof standard_aside ⟨change_aside _, fun _ => True.intro⟩

theorem mixed_registration : SameByKind barringFirst demandingBetween ∧
    ∃ r again, (noPhases.addPhases barringFirst).run 2 ⟨{}, {}⟩ barredBetween = some r ∧
      (noPhases.addPhases demandingBetween).run 2 ⟨{}, {}⟩ barredBetween = some r ∧
      (noPhases.addPhases barringFirst).sorted.run 2 r.shared barredBetween = some again ∧
      again.report = r.report ∧ r.report.failures.map (·.slot) = [1, 0, 2] := by
  have same : SameByKind barringFirst demandingBetween := by
    intro kind
    cases kind <;> rfl
  have told : ((noPhases.addPhases barringFirst).run 2 ⟨{}, {}⟩ barredBetween).map
      (fun r => r.report.failures.map (·.slot)) = some [1, 0, 2] := rfl
  obtain ⟨r, ran, failures⟩ := Option.map_eq_some_iff.mp told
  obtain ⟨anyOrder, repeats⟩ := registration_irrelevant same noPhases
  obtain ⟨_, again, second, report⟩ :=
    repeats (· = {}) barringFirst_aloof 2 ⟨{}, {}⟩ barredBetween r rfl ran
  have other := (anyOrder 2 ⟨{}, {}⟩ barredBetween).symm.trans ran
  exact ⟨same, r, again, ran, other, second, report, failures⟩

end UnitPipeline
