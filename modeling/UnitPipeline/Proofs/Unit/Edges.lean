import UnitPipeline.Proofs.Unit.Steps

namespace UnitPipeline

structure FlaggedStep where
  on : Bool
  step : Step

def flagged (on : Bool) : List Step → List FlaggedStep
  | [] => []
  | step :: rest => ⟨on, step⟩ :: flagged (step.flag on) rest

namespace FlaggedStep

def clears (met : FlaggedStep) : Bool :=
  match met.step with
  | .change .clear => true
  | _ => false

-- An edge is due to a reference that is made while the flag is on, from a source that
-- exists and is not virtual, to one that is not virtual.
def edge? (source : SourceFile) (met : FlaggedStep) : Option DeclId :=
  match met.step with
  | .change (.registerDependency target) =>
    if met.on ∧ (source.isPresent ∧ ¬source.isVirtual) ∧ ¬target.source.isVirtual then
      some target.id
    else none
  | _ => none

def definition? (source : SourceFile) (met : FlaggedStep) : Option DeclId :=
  match met.step with
  | .change (.registerDefinition decl) =>
    if source.isPresent ∧ ¬source.isVirtual then some decl else none
  | _ => none

end FlaggedStep

def sinceClear (met : List FlaggedStep) : List FlaggedStep :=
  (met.reverse.takeWhile fun step => !step.clears).reverse

def asked (ask : FlaggedStep → Option DeclId) (met : List FlaggedStep) : List DeclId :=
  (sinceClear met).filterMap ask

theorem sinceClear_clear (met : List FlaggedStep) (on : Bool) :
    sinceClear (met ++ [⟨on, .change .clear⟩]) = [] := by
  simp [sinceClear, FlaggedStep.clears]

theorem sinceClear_keeps {step : FlaggedStep} (keeps : step.clears = false) :
    sinceClear (met ++ [step]) = sinceClear met ++ [step] := by
  simp [sinceClear, keeps]

theorem asked_more {ask : FlaggedStep → Option DeclId} {step : FlaggedStep} {id : DeclId}
    (keeps : step.clears = false) (asks : ask step = some id) :
    asked ask (met ++ [step]) = asked ask met ++ [id] := by
  rw [asked, sinceClear_keeps keeps, List.filterMap_append]
  simp [asked, asks]

theorem asked_same {ask : FlaggedStep → Option DeclId} {step : FlaggedStep}
    (keeps : step.clears = false) (idle : ask step = none) :
    asked ask (met ++ [step]) = asked ask met := by
  rw [asked, sinceClear_keeps keeps, List.filterMap_append]
  simp [asked, idle]

theorem SourceFile.persistent_iff (source : SourceFile) :
    source.isPersistent = true ↔ source.isPresent = true ∧ ¬source.isVirtual = true := by
  cases source <;> simp [isPersistent, isPresent, isVirtual]

theorem judge_edge (s : Session) (source : SourceFile) (target : Declaration) :
    Reference.judge s source target = .edge ↔ s.tracksDependencies = true ∧
      (source.isPresent = true ∧ ¬source.isVirtual = true) ∧ ¬target.source.isVirtual = true := by
  rw [← source.persistent_iff]
  unfold Reference.judge
  cases s.tracksDependencies <;> cases source.isPersistent <;> cases target.source.isVirtual <;>
    simp

namespace DependencyTracker

structure Holds (tracker : DependencyTracker) (source : SourceFile) (met : List FlaggedStep) :
    Prop where
  dependencies : tracker.dependencies =
    ({} : OrderedSet DeclId).insertAll (asked (FlaggedStep.edge? source) met)
  defined : tracker.defined =
    ({} : OrderedSet DeclId).insertAll (asked (FlaggedStep.definition? source) met)
  references : ∀ set, tracker.references = some set → set.toList ≠ []
  definitions : ∀ set, tracker.definitions = some set → set.toList ≠ []

variable {tracker : DependencyTracker} {source : SourceFile} {met : List FlaggedStep}

theorem Holds.nothing (source : SourceFile) (none : sinceClear met = []) :
    Holds {} source met := by
  refine ⟨?_, ?_, nofun, nofun⟩
  · rw [asked, none]
    rfl
  · rw [asked, none]
    rfl

theorem insert_ne_nil (set : OrderedSet DeclId) (id : DeclId) : (set.insert id).toList ≠ [] :=
  List.ne_nil_of_mem (OrderedSet.mem_insert.mpr (Or.inr rfl))

theorem Holds.idle (holds : tracker.Holds source met) {step : FlaggedStep}
    (keeps : step.clears = false) (edge : step.edge? source = none)
    (definition : step.definition? source = none) : tracker.Holds source (met ++ [step]) := by
  refine ⟨?_, ?_, holds.references, holds.definitions⟩
  · rw [asked_same keeps edge, holds.dependencies]
  · rw [asked_same keeps definition, holds.defined]

theorem Holds.refers (holds : tracker.Holds source met) (s : Session) (target : Declaration) :
    (tracker.registerDependency s source target).Holds source
      (met ++ [⟨s.tracksDependencies, .change (.registerDependency target)⟩]) := by
  by_cases judged : Reference.judge s source target = .edge
  · have edge : FlaggedStep.edge? source
        ⟨s.tracksDependencies, .change (.registerDependency target)⟩ = some target.id :=
      if_pos ((judge_edge s source target).mp judged)
    rw [registerDependency_edge judged]
    refine ⟨?_, ?_, ?_, holds.definitions⟩
    · rw [asked_more rfl edge, OrderedSet.insertAll_append, ← holds.dependencies]
      rfl
    · rw [asked_same rfl rfl]
      exact holds.defined
    · intro set same
      cases same
      exact insert_ne_nil _ _
  · rw [registerDependency_ignored judged]
    exact holds.idle rfl (if_neg (mt (judge_edge s source target).mpr judged)) rfl

theorem Holds.introduces (holds : tracker.Holds source met) (on : Bool) (decl : DeclId) :
    (tracker.registerDefinition source decl).Holds source
      (met ++ [⟨on, .change (.registerDefinition decl)⟩]) := by
  by_cases owns : source.isPersistent = true
  · have definition : FlaggedStep.definition? source ⟨on, .change (.registerDefinition decl)⟩ =
        some decl := if_pos (source.persistent_iff.mp owns)
    rw [registerDefinition_owned owns]
    refine ⟨?_, ?_, holds.references, ?_⟩
    · rw [asked_same rfl rfl]
      exact holds.dependencies
    · rw [asked_more rfl definition, OrderedSet.insertAll_append, ← holds.defined]
      rfl
    · intro set same
      cases same
      exact insert_ne_nil _ _
  · rw [registerDefinition_ignored owns]
    exact holds.idle rfl rfl (if_neg (mt source.persistent_iff.mpr owns))

theorem Holds.step {desk : Desk} (holds : desk.unit.deps.Holds desk.unit.source met) (step : Step) :
    (step.apply desk).unit.deps.Holds desk.unit.source
      (met ++ [⟨desk.session.tracksDependencies, step⟩]) := by
  cases step with
  | change op =>
    simp only [Step.apply, UnitOp.apply_deps]
    cases op with
    | registerDependency target => exact holds.refers desk.session target
    | registerDefinition decl => exact holds.introduces _ decl
    | clear => exact .nothing _ (sinceClear_clear met _)
    | _ => exact holds.idle rfl rfl rfl
  | enterPhase phase => exact holds.idle rfl rfl rfl
  | setTracking on => exact holds.idle rfl rfl rfl

theorem Holds.after {desk : Desk} (holds : desk.unit.deps.Holds desk.unit.source met)
    (steps : List Step) : (desk.after steps).unit.deps.Holds desk.unit.source
      (met ++ flagged desk.session.tracksDependencies steps) := by
  induction steps generalizing desk met with
  | nil => rwa [flagged, List.append_nil]
  | cons step rest ih =>
    -- The step goes over from those that are to come to those that were met.
    have next : (step.apply desk).unit.deps.Holds (step.apply desk).unit.source
        (met ++ [⟨desk.session.tracksDependencies, step⟩]) := by
      rw [step.apply_source]
      exact holds.step step
    have later := ih next
    rwa [step.apply_source, step.apply_flag, List.append_assoc] at later

theorem Holds.allocated (holds : tracker.Holds source met) : tracker.isAllocated = true ↔
    tracker.dependencies.toList ≠ [] ∨ tracker.defined.toList ≠ [] := by
  obtain ⟨_, _, references, definitions⟩ := holds
  unfold isAllocated DependencyTracker.dependencies DependencyTracker.defined
  cases first : tracker.references with
  | some set => simp [references set first]
  | none =>
    cases second : tracker.definitions with
    | some set => simp [definitions set second]
    | none => simp

end DependencyTracker

theorem mem_flagged (inside : met ∈ flagged on steps) : met.step ∈ steps := by
  induction steps generalizing on with
  | nil => cases inside
  | cons step rest ih =>
    rcases List.mem_cons.mp inside with rfl | later
    · exact List.mem_cons_self
    · exact List.mem_cons_of_mem _ (ih later)

theorem mem_asked {ask : FlaggedStep → Option DeclId} {id : DeclId} (inside : id ∈ asked ask met) :
    ∃ step ∈ met, ask step = some id := by
  obtain ⟨step, since, asks⟩ := List.mem_filterMap.mp inside
  have before := List.takeWhile_subset _ (List.mem_reverse.mp since)
  exact ⟨step, List.mem_reverse.mp before, asks⟩

theorem edge_cases {met : FlaggedStep} {id : DeclId} (edge : met.edge? source = some id) :
    ∃ target, met.step = .change (.registerDependency target) ∧ target.id = id ∧
      (source.isPresent = true ∧ ¬source.isVirtual = true) ∧ ¬target.source.isVirtual = true := by
  unfold FlaggedStep.edge? at edge
  split at edge
  · split at edge
    · exact ⟨_, ‹_›, Option.some.inj edge, ‹_ ∧ _›.2⟩
    · cases edge
  · cases edge

theorem definition_cases {met : FlaggedStep} {id : DeclId}
    (definition : met.definition? source = some id) :
    source.isPresent = true ∧ ¬source.isVirtual = true := by
  unfold FlaggedStep.definition? at definition
  split at definition
  · split at definition
    · assumption
    · cases definition
  · cases definition

-- What a tracker comes to with steps on a new unit. The edges and the definitions are
-- those due since the last clear, each where it came first; so none comes from a source
-- that is virtual or absent, and none leads to a declaration of a virtual one.
structure Tracked (session : Session) (source : SourceFile) (steps : List Step)
    (tracker : DependencyTracker) : Prop where
  dependencies : tracker.dependencies.toList = (asked (FlaggedStep.edge? source)
    (flagged session.tracksDependencies steps)).eraseDups
  defined : tracker.defined.toList = (asked (FlaggedStep.definition? source)
    (flagged session.tracksDependencies steps)).eraseDups
  distinct : tracker.dependencies.toList.Nodup ∧ tracker.defined.toList.Nodup
  allocated : tracker.isAllocated = true ↔
    tracker.dependencies.toList ≠ [] ∨ tracker.defined.toList ≠ []
  unowned : source.isPresent = false ∨ source.isVirtual = true →
    tracker.dependencies.toList = [] ∧ tracker.defined.toList = []
  grounded : ∀ decls : DeclTable,
    (∀ target, .change (.registerDependency target) ∈ steps → decls.get? target.id = some target) →
      ∀ id ∈ tracker.dependencies.toList,
        ∃ target, decls.get? id = some target ∧ target.source.isVirtual = false

theorem DependencyTracker.Holds.tracked {tracker : DependencyTracker}
    (holds : tracker.Holds source (flagged session.tracksDependencies steps)) :
    Tracked session source steps tracker := by
  have edges : tracker.dependencies.toList = _ :=
    (congrArg OrderedSet.toList holds.dependencies).trans (OrderedSet.insertAll_toList _ _)
  have definitions : tracker.defined.toList = _ :=
    (congrArg OrderedSet.toList holds.defined).trans (OrderedSet.insertAll_toList _ _)
  simp only [List.nil_append, List.removeAll_nil] at edges definitions
  refine ⟨edges, definitions, ⟨?_, ?_⟩, holds.allocated, ?_, ?_⟩
  · rw [holds.dependencies]
    exact OrderedSet.insertAll_nodup List.nodup_nil _
  · rw [holds.defined]
    exact OrderedSet.insertAll_nodup List.nodup_nil _
  · intro unowned
    rw [edges, definitions]
    refine ⟨List.eq_nil_iff_forall_not_mem.mpr ?_, List.eq_nil_iff_forall_not_mem.mpr ?_⟩
    · intro id inside
      obtain ⟨met, _, edge⟩ := mem_asked (List.mem_eraseDups.mp inside)
      obtain ⟨target, _, _, owned, _⟩ := edge_cases edge
      simp [owned] at unowned
    · intro id inside
      obtain ⟨met, _, definition⟩ := mem_asked (List.mem_eraseDups.mp inside)
      simp [definition_cases definition] at unowned
  · intro decls declared id inside
    rw [edges] at inside
    obtain ⟨met, known, edge⟩ := mem_asked (List.mem_eraseDups.mp inside)
    obtain ⟨target, step, rfl, _, persistent⟩ := edge_cases edge
    refine ⟨target, declared target ?_, Bool.eq_false_iff.mpr persistent⟩
    rw [← step]
    exact mem_flagged known

theorem after_tracked (session : Session) (source : SourceFile) (fresh : FreshNames)
    (steps : List Step) : Tracked session source steps
      (Desk.after ⟨session, .withFreshNames source fresh⟩ steps).unit.deps := by
  let desk : Desk := ⟨session, .withFreshNames source fresh⟩
  have begun : desk.unit.deps.Holds desk.unit.source [] := .nothing source rfl
  have holds := begun.after steps
  exact holds.tracked

theorem edges_exact (session : Session) (source : SourceFile) (fresh : FreshNames)
    (steps : List Step) :
    let desk := Desk.after ⟨session, .withFreshNames source fresh⟩ steps
    Tracked session source steps desk.unit.deps ∧
      (∀ target, UnitOp.answer desk.session desk.unit (.registerDependency target) = true ↔
        desk.unit.deps.dependencies.length <
          (Step.apply desk (.change (.registerDependency target))).unit.deps.dependencies.length) ∧
      ∀ decl, UnitOp.answer desk.session desk.unit (.registerDefinition decl) = true ↔
        desk.unit.deps.defined.length <
          (Step.apply desk (.change (.registerDefinition decl))).unit.deps.defined.length := by
  intro desk
  refine ⟨after_tracked session source fresh steps, ?_, ?_⟩
  · intro target
    exact desk.unit.deps.isNewDependency_iff desk.session desk.unit.source target
  · intro decl
    exact desk.unit.deps.isNewDefinition_iff desk.unit.source decl

end UnitPipeline
