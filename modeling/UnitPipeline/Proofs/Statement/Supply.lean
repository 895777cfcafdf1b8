import UnitPipeline.Proofs.Statement.References

namespace UnitPipeline
variable {decls : DeclTable} {source a b : SourceFile} {sources : List SourceFile} {i j : Nat}
  {name : String} {kind : DeclKind} {d : Declaration}

namespace DeclTable

theorem Lists.nameOf_named (lists : decls.Lists made) (few : decls.size ≤ UInt32.size)
    (named : decls.named? name = some d) : decls.nameOf? d.id = some name := by
  obtain ⟨listed, rfl⟩ := lists.named_iff.mp named
  obtain ⟨place, i, here, rfl⟩ := lists.mem.mp listed
  exact lists.nameOf few here

theorem Lists.introduced (lists : decls.Lists (introductions sources))
    (named : decls.named? name = some d) : ∃ (slot : Nat) (source : SourceFile),
      sources[slot]? = some source ∧ (name, d.kind) ∈ Statement.introducedBy source.chars := by
  obtain ⟨listed, rfl⟩ := lists.named_iff.mp named
  obtain ⟨place, i, here, rfl⟩ := lists.mem.mp listed
  obtain ⟨source, inside, introduced⟩ := List.mem_flatMap.mp (List.mem_of_getElem? here)
  obtain ⟨entry, among, rfl⟩ := List.mem_map.mp introduced
  obtain ⟨slot, there⟩ := List.mem_iff_getElem?.mp inside
  exact ⟨slot, source, there, among⟩

theorem Lists.introduced_once (lists : decls.Lists (introductions sources))
    (left : sources[i]? = some a) (right : sources[j]? = some b)
    (here : name ∈ (Statement.introducedBy a.chars).map (·.1))
    (there : name ∈ (Statement.introducedBy b.chars).map (·.1)) : i = j := by
  have names : (introductions sources).map (·.name) =
      sources.flatMap fun source => (Statement.introducedBy source.chars).map (·.1) := by
    rw [introductions, List.map_flatMap]
    refine congrArg (List.flatMap · sources) (funext fun source => ?_)
    rw [List.map_map]
    rfl
  have distinct := lists.names
  rw [names] at distinct
  have apart := List.pairwise_iff_getElem.mp (List.nodup_flatMap.mp distinct).2
  obtain ⟨below, rfl⟩ := List.getElem?_eq_some_iff.mp left
  obtain ⟨above, rfl⟩ := List.getElem?_eq_some_iff.mp right
  rcases Nat.lt_trichotomy i j with before | same | behind
  · exact (apart i j below above before here there).elim
  · exact same
  · exact (apart j i above below behind there here).elim

theorem Lists.declared_kind (lists : decls.Lists (introductions sources)) (inside : source ∈ sources)
    (introduced : (name, kind) ∈ Statement.introducedBy source.chars) :
    ∃ d, decls.named? name = some d ∧ d.kind = kind := by
  have among : Introduction.of source (name, kind) ∈ introductions sources :=
    List.mem_flatMap.mpr ⟨source, inside, List.mem_map_of_mem introduced⟩
  obtain ⟨place, here⟩ := List.mem_iff_getElem?.mp among
  exact ⟨_, lists.named here, rfl⟩

end DeclTable

theorem Registered.report_defined {unit : CompilationUnit} (lists : decls.Lists made)
    (few : decls.size ≤ UInt32.size) (registered : Registered decls tracking unit)
    (declares : decls.Declares unit.source) (owns : unit.source.isPersistent = true) :
    (unit.dependencyReport decls).defined = unit.source.defines := by
  have ids := congrArg (List.filterMap fun id => id.bind decls.nameOf?) (registered.defined owns)
  rw [List.filterMap_map, List.filterMap_map] at ids
  refine ids.trans ((List.filterMap_congr fun name inside => ?_).trans List.filterMap_some)
  obtain ⟨d, named, _⟩ := SourceFile.defines_declared declares inside
  simp only [Function.comp_apply, DeclTable.idOf?, named, Option.map_some, Option.bind_some]
  exact lists.nameOf_named few named

theorem Registered.report_dependencies {unit : CompilationUnit} (lists : decls.Lists made)
    (few : decls.size ≤ UInt32.size) (registered : Registered decls tracking unit)
    (owns : unit.source.isPersistent = true)
    (inside : name ∈ (unit.dependencyReport decls).dependencies) :
    ∃ d, decls.named? name = some d := by
  obtain ⟨id, listed, known⟩ := List.mem_filterMap.mp inside
  rw [registered.dependencies owns] at listed
  cases tracking with
  | false => cases listed
  | true =>
    obtain ⟨p, _, refers⟩ := List.mem_filterMap.mp (List.mem_eraseDups.mp listed)
    split at refers
    · obtain ⟨target, named, edge⟩ := Option.bind_eq_some_iff.mp refers
      split at edge
      · cases edge
      · cases Option.some.inj edge
        rw [lists.nameOf_named few named] at known
        cases Option.some.inj known
        exact ⟨target, named⟩
    · cases refers

-- Where a name comes from that a unit depends on: from the one unit that defines it, or
-- from the one that defines the class whose `apply` it is.
def Supplied (decls : DeclTable) (report : RunReport) (name : String) : Prop :=
  let defines (seat : Seat) (name : String) : Prop :=
    seat ∈ report.survivors ∧ name ∈ (seat.unit.dependencyReport decls).defined
  (∃! seat, defines seat name) ∨ ∃ base d, name = Statement.applyName base ∧
    decls.named? base = some d ∧ d.kind = .classType ∧ ∃! seat, defines seat base

theorem seat_unique {d : Driver σ} (ran : d.run limit shared sources = some r)
    (left : first ∈ r.report.survivors) (right : second ∈ r.report.survivors)
    (same : first.slot = second.slot) : first = second := by
  have unique := fates_unique ran
  have one := (RunReport.survived_iff unique).mp left
  have other := (RunReport.survived_iff unique).mp right
  rw [same] at one
  obtain ⟨slot, unit⟩ := first
  obtain ⟨place, rest⟩ := second
  obtain rfl : slot = place := same
  exact congrArg (Seat.mk slot) (Fate.survived.inj (Option.some.inj (one.symm.trans other)))

theorem SourceFile.introduced_cases (readable : source.unreadable? = none)
    (introduced : (name, kind) ∈ Statement.introducedBy source.chars) :
    name ∈ source.defines ∨ ∃ base, name = Statement.applyName base ∧ base ∈ source.defines ∧
      (base, .classType) ∈ Statement.introducedBy source.chars := by
  rw [source.introducedBy_eq readable] at introduced ⊢
  obtain ⟨p, inside, here⟩ := List.mem_flatMap.mp introduced
  cases statement : p.statement with
  | define defined =>
    simp only [statement, Statement.introduces, List.mem_singleton, Prod.mk.injEq] at here
    obtain ⟨rfl, _⟩ := here
    exact Or.inl (List.mem_filterMap.mpr ⟨p, inside, by rw [statement]; rfl⟩)
  | caseOf base =>
    have defined : base ∈ source.defines := List.mem_filterMap.mpr ⟨p, inside, by rw [statement]; rfl⟩
    simp only [statement, Statement.introduces, List.mem_cons, Prod.mk.injEq, List.not_mem_nil,
      or_false] at here
    obtain ⟨rfl, _⟩ | ⟨rfl, _⟩ := here
    · exact Or.inl defined
    · refine Or.inr ⟨base, rfl, defined, List.mem_flatMap.mpr ⟨p, inside, ?_⟩⟩
      simp [statement, Statement.introduces]
  | use _ | feature _ | assert _ | xml => simp [statement, Statement.introduces] at here

theorem SourceFile.defines_introduced (readable : source.unreadable? = none)
    (defined : name ∈ source.defines) :
    name ∈ (Statement.introducedBy source.chars).map (·.1) := by
  rw [source.introducedBy_eq readable]
  exact (introduces_names source.statements).mem_iff.mp (List.mem_append_left _ defined)

structure Seat.Known (decls : DeclTable) (tracking : Bool) (sources : List SourceFile)
    (seat : Seat) : Prop where
  own : sources[seat.slot]? = some seat.unit.source
  readable : seat.unit.source.unreadable? = none
  declares : decls.Declares seat.unit.source
  registered : Registered decls tracking seat.unit

section
variable {runner : Runner σ} {reorder : List DeclId → List DeclId} {shared : Shared σ}
  {r : RunResult σ} {tracking leak : Bool} {limit slot : Nat}

theorem pipeline_known (loaded : Loaded sources decls) (edgeless : runner.Does Deed.Edgeless)
    (orders : ∀ keys, (reorder keys).Perm keys)
    (ran : (Statement.pipeline runner decls leak reorder).run limit shared sources = some r) :
    ∀ seat ∈ r.report.survivors, seat.Known decls shared.session.tracksDependencies sources := by
  intro seat inside
  obtain ⟨source, here, readable, own, s, tracking, deps⟩ :=
    pipeline_reaches loaded edgeless orders ran seat inside
  have declares := loaded.declares (List.mem_of_getElem? here) readable
  have registered := SourceFile.named_registered declares own deps
  rw [tracking] at registered
  rw [← own] at here readable declares
  exact ⟨here, readable, declares, registered⟩

theorem defined_once {d : Driver σ} (ran : d.run limit shared sources = some r)
    (lists : decls.Lists (introductions sources)) (few : decls.size ≤ UInt32.size)
    (known : ∀ seat ∈ r.report.survivors, seat.Known decls tracking sources)
    (all : ∀ slot source, sources[slot]? = some source →
      source.isPersistent = true ∧ ∃ unit, ⟨slot, unit⟩ ∈ r.report.survivors)
    (here : sources[slot]? = some source) (defined : name ∈ source.defines) :
    ∃! seat, seat ∈ r.report.survivors ∧ name ∈ (seat.unit.dependencyReport decls).defined := by
  have told : ∀ seat ∈ r.report.survivors,
      (seat.unit.dependencyReport decls).defined = seat.unit.source.defines := by
    intro seat inside
    have facts := known seat inside
    exact facts.registered.report_defined lists few facts.declares (all _ _ facts.own).1
  obtain ⟨_, unit, inside⟩ := all slot source here
  have facts := known _ inside
  have same : unit.source = source := Option.some.inj (facts.own.symm.trans here)
  refine ⟨⟨slot, unit⟩, ⟨inside, ?_⟩, ?_⟩
  · rw [told _ inside, same]
    exact defined
  · rintro other ⟨among, reported⟩
    rw [told other among] at reported
    have others := known other among
    have there := SourceFile.defines_introduced others.readable reported
    have introduced := SourceFile.defines_introduced (same ▸ facts.readable) defined
    exact seat_unique ran among inside (lists.introduced_once others.own here there introduced)

end

-- The dependency sets of a run. For a run in which all sources are on disk and come
-- through, every dependency is supplied.
theorem pipeline_dependencies {runner : Runner σ} (loaded : Loaded sources decls)
    (edgeless : runner.Does Deed.Edgeless) {reorder : List DeclId → List DeclId}
    (orders : ∀ keys, (reorder keys).Perm keys) (leak : Bool) (shared : Shared σ)
    (ran : (Statement.pipeline runner decls leak reorder).run limit shared sources = some r) :
    (∀ seat ∈ r.report.survivors, sources[seat.slot]? = some seat.unit.source ∧
        Registered decls shared.session.tracksDependencies seat.unit) ∧
      (decls.size ≤ UInt32.size → (∀ slot source, sources[slot]? = some source →
          source.isPersistent = true ∧ ∃ unit, ⟨slot, unit⟩ ∈ r.report.survivors) →
        ∀ seat ∈ r.report.survivors, ∀ name ∈ (seat.unit.dependencyReport decls).dependencies,
          Supplied decls r.report name) := by
  have known := pipeline_known loaded edgeless orders ran
  refine ⟨fun seat inside => ⟨(known seat inside).own, (known seat inside).registered⟩, ?_⟩
  intro few all seat inside name depends
  have lists := DeclTable.ofSources_lists loaded.told
  have facts := known seat inside
  obtain ⟨d, named⟩ := facts.registered.report_dependencies lists few (all _ _ facts.own).1 depends
  obtain ⟨slot, source, here, introduced⟩ := lists.introduced named
  have readable : source.unreadable? = none := by
    obtain ⟨_, unit, survived⟩ := all slot source here
    have same := Option.some.inj ((known _ survived).own.symm.trans here)
    exact same ▸ (known _ survived).readable
  obtain defined | ⟨base, rfl, defined, cased⟩ := SourceFile.introduced_cases readable introduced
  · exact Or.inl (defined_once ran lists few known all here defined)
  · obtain ⟨c, found, kind⟩ := lists.declared_kind (List.mem_of_getElem? here) cased
    exact Or.inr ⟨base, c, rfl, found, kind, defined_once ran lists few known all here defined⟩

-- The runners that are left out change the sets themselves: one is enough to have a unit
-- come through with other sets than its text says.
def onlyMethod : List SourceFile := [.persistent "A" "def a"]

def doing (op : UnitOp) : Runner Unit := fun state _ => .change op fun _ => .done (.ok (), state)

def Upsets (op : UnitOp) : Prop := ∃ r, (Statement.pipeline (doing op) (tableOf onlyMethod)
      false id).run 2 ⟨.ofSettings ⟨true, true, 8⟩, ()⟩ onlyMethod = some r ∧
    ∃ seat ∈ r.report.survivors, ¬Registered (tableOf onlyMethod) true seat.unit

theorem upsets_of_run {op : UnitOp}
    (told : ((Statement.pipeline (doing op) (tableOf onlyMethod) false id).run 2
      ⟨.ofSettings ⟨true, true, 8⟩, ()⟩ onlyMethod).map (fun r => r.report.survivors.any
        fun seat => ¬Registered (tableOf onlyMethod) true seat.unit) = some true) : Upsets op := by
  obtain ⟨r, ran, upset⟩ := Option.map_eq_some_iff.mp told
  obtain ⟨seat, inside, other⟩ := List.any_eq_true.mp upset
  exact ⟨r, ran, seat, inside, of_decide_eq_true other⟩

theorem meddling_upsets : DeclTable.ofSources {} onlyMethod = .ok (tableOf onlyMethod) ∧
    Upsets (.registerDefinition ⟨99⟩) ∧
    Upsets (.registerDependency ⟨⟨0⟩, "a", .method, .persistent "A" "def a"⟩) ∧ Upsets .clear := by
  refine ⟨by decide +kernel, upsets_of_run ?_, upsets_of_run ?_, upsets_of_run ?_⟩
  all_goals decide +kernel

theorem runnerOf_edgeless (hosted : Bool) : (Statement.runnerOf hosted).Does Deed.Edgeless := by
  have remembers : ∀ feature, Deed.Edgeless (.change (.rememberFeature feature)) := by
    simp [Deed.Edgeless, Deed.Keeping]
  have reports : ∀ severity position message,
      Deed.Edgeless (.change (.report severity position message)) := by
    simp [Deed.Edgeless, Deed.Keeping]
  exact Statement.runnerOf_does remembers reports hosted

def twoWays : List SourceFile :=
  [.persistent "A" "use b\nuse c.apply\ndef a\nuse b", .persistent "B" "case c\ndef b\nuse a"]

theorem twoWays_dependencies : ∃ r, (Statement.pipeline (Statement.runnerOf true)
      (tableOf twoWays) false id).run 2 ⟨.ofSettings ⟨true, true, 8⟩, {}⟩ twoWays = some r ∧
    (∀ seat ∈ r.report.survivors, twoWays[seat.slot]? = some seat.unit.source ∧
      Registered (tableOf twoWays) true seat.unit) ∧
    (∀ seat ∈ r.report.survivors,
      ∀ name ∈ (seat.unit.dependencyReport (tableOf twoWays)).dependencies,
        Supplied (tableOf twoWays) r.report name) ∧
    r.report.survivors.map (fun seat => (seat.slot, seat.unit.dependencyReport (tableOf twoWays))) =
      [(0, ⟨"A", ["b", "c.apply"], ["a"]⟩), (1, ⟨"B", ["a"], ["c", "b"]⟩)] := by
  have loaded : Loaded twoWays (tableOf twoWays) := ⟨by decide +kernel, by decide⟩
  have told : ((Statement.pipeline (Statement.runnerOf true) (tableOf twoWays) false id).run 2
      ⟨.ofSettings ⟨true, true, 8⟩, {}⟩ twoWays).map (fun r => r.report.survivors.map
        (fun seat => (seat.slot, seat.unit.dependencyReport (tableOf twoWays)))) = some
      [(0, ⟨"A", ["b", "c.apply"], ["a"]⟩), (1, ⟨"B", ["a"], ["c", "b"]⟩)] := by
    decide +kernel
  obtain ⟨r, ran, reports⟩ := Option.map_eq_some_iff.mp told
  obtain ⟨registered, supplied⟩ := pipeline_dependencies loaded (runnerOf_edgeless true)
    (fun keys => .refl keys) false ⟨.ofSettings ⟨true, true, 8⟩, {}⟩ ran
  refine ⟨r, ran, registered, supplied (by decide +kernel) ?_, reports⟩
  intro slot source here
  have slots : r.report.survivors.map (·.slot) = [0, 1] := by
    have firsts := congrArg (List.map (·.1)) reports
    rwa [List.map_map] at firsts
  have inside : slot ∈ r.report.survivors.map (·.slot) := by
    obtain ⟨bound, _⟩ := List.getElem?_eq_some_iff.mp here
    have two : twoWays.length = 2 := rfl
    rw [slots]
    simp
    omega
  obtain ⟨⟨_, unit⟩, survived, rfl⟩ := List.mem_map.mp inside
  have persistent : ∀ source ∈ twoWays, source.isPersistent = true := by decide
  exact ⟨persistent source (List.mem_of_getElem? here), unit, survived⟩

end UnitPipeline
