import UnitPipeline.Proofs.Run.Stages
import UnitPipeline.Proofs.Statement.Emission
import UnitPipeline.Proofs.Unit.Edges

namespace UnitPipeline
variable {σ : Type} {decls : DeclTable} {source : SourceFile} {s : Session}

namespace DependencyTracker

theorem registerDefinition_dependencies (tracker : DependencyTracker) (unit : SourceFile)
    (decl : DeclId) : (tracker.registerDefinition unit decl).dependencies = tracker.dependencies := by
  unfold registerDefinition
  split <;> rfl

theorem registerDependency_defined (tracker : DependencyTracker) (s : Session) (unit : SourceFile)
    (target : Declaration) :
    (tracker.registerDependency s unit target).defined = tracker.defined := by
  unfold registerDependency
  split <;> rfl

end DependencyTracker

namespace Placed

def edge? (decls : DeclTable) (s : Session) (source : SourceFile) (p : Placed) : Option DeclId :=
  match p.statement with
  | .use name => (decls.named? name).bind fun target =>
      if Reference.judge s source target = .edge then some target.id else none
  | _ => none

def definition? (decls : DeclTable) (source : SourceFile) (p : Placed) : Option DeclId :=
  if source.isPersistent then p.statement.defines?.bind decls.idOf? else none

theorem registers_dependencies (tracker : DependencyTracker) (p : Placed) :
    (p.registers decls s source tracker).dependencies =
      tracker.dependencies.insertAll (p.edge? decls s source).toList := by
  cases statement : p.statement with
  | define name | caseOf name =>
    simp only [registers, edge?, statement]
    cases decls.named? name with
    | none => rfl
    | some decl => exact tracker.registerDefinition_dependencies source decl.id
  | use name =>
    simp only [registers, edge?, statement]
    cases decls.named? name with
    | none => rfl
    | some target =>
      by_cases judged : Reference.judge s source target = .edge
      · simp only [DependencyTracker.registerDependency_edge judged, Option.bind_some, if_pos judged]
        rfl
      · simp only [DependencyTracker.registerDependency_ignored judged, Option.bind_some,
          if_neg judged]
        rfl
  | feature _ | assert _ | xml =>
    simp only [registers, edge?, statement]
    rfl

theorem registers_defined (tracker : DependencyTracker) (p : Placed) :
    (p.registers decls s source tracker).defined =
      tracker.defined.insertAll (p.definition? decls source).toList := by
  cases statement : p.statement with
  | define name | caseOf name =>
    simp only [registers, definition?, statement, Statement.defines?, Option.bind_some,
      DeclTable.idOf?]
    cases decls.named? name with
    | none => simp [OrderedSet.insertAll]
    | some decl =>
      by_cases owns : source.isPersistent = true
      · simp only [DependencyTracker.registerDefinition_owned owns, if_pos owns]
        rfl
      · simp only [DependencyTracker.registerDefinition_ignored owns, if_neg owns]
        rfl
  | use name =>
    simp only [registers, definition?, statement, Statement.defines?, Option.bind_none, ite_self]
    cases decls.named? name with
    | none => rfl
    | some target => exact tracker.registerDependency_defined s source target
  | feature _ | assert _ | xml =>
    simp only [registers, definition?, statement, Statement.defines?, Option.bind_none, ite_self]
    rfl

end Placed

theorem registered (decls : DeclTable) (s : Session) (source : SourceFile) (placed : List Placed)
    (tracker : DependencyTracker) :
    (placed.foldl (Placed.registers decls s source) tracker).dependencies =
        tracker.dependencies.insertAll (placed.filterMap (·.edge? decls s source)) ∧
      (placed.foldl (Placed.registers decls s source) tracker).defined =
        tracker.defined.insertAll (placed.filterMap (·.definition? decls source)) := by
  induction placed generalizing tracker with
  | nil => exact ⟨rfl, rfl⟩
  | cons p rest ih =>
    obtain ⟨dependencies, defined⟩ := ih (p.registers decls s source tracker)
    rw [List.foldl_cons, dependencies, defined, p.registers_dependencies, p.registers_defined,
      ← OrderedSet.insertAll_append, ← OrderedSet.insertAll_append]
    constructor
    · cases edge : p.edge? decls s source <;> simp [edge]
    · cases definition : p.definition? decls source <;> simp [definition]

def SourceFile.references (source : SourceFile) (decls : DeclTable) : List DeclId :=
  source.statements.filterMap fun p =>
    match p.statement with
    | .use name => (decls.named? name).bind fun target =>
        if target.source.isVirtual then none else some target.id
    | _ => none

-- What the tracker of a unit has. Definitions do not depend on the flag.
structure Registered (decls : DeclTable) (tracking : Bool) (unit : CompilationUnit) : Prop where
  defined : unit.source.isPersistent = true →
    unit.deps.defined.toList.map some = unit.source.defines.map decls.idOf?
  dependencies : unit.source.isPersistent = true → unit.deps.dependencies.toList =
    if tracking = true then (unit.source.references decls).eraseDups else []
  unowned : unit.source.isPersistent = false →
    unit.deps.defined.toList = [] ∧ unit.deps.dependencies.toList = []

theorem registered_iff {unit : CompilationUnit} : Registered decls tracking unit ↔
    (unit.source.isPersistent = true →
      unit.deps.defined.toList.map some = unit.source.defines.map decls.idOf?) ∧
    (unit.source.isPersistent = true → unit.deps.dependencies.toList =
      if tracking = true then (unit.source.references decls).eraseDups else []) ∧
    (unit.source.isPersistent = false →
      unit.deps.defined.toList = [] ∧ unit.deps.dependencies.toList = []) :=
  ⟨fun ⟨defined, dependencies, unowned⟩ => ⟨defined, dependencies, unowned⟩,
    fun ⟨defined, dependencies, unowned⟩ => ⟨defined, dependencies, unowned⟩⟩

instance (unit : CompilationUnit) : Decidable (Registered decls tracking unit) :=
  decidable_of_iff _ registered_iff.symm

namespace SourceFile

theorem edges_tracking (owns : source.isPersistent = true) (tracking : s.tracksDependencies = true) :
    source.statements.filterMap (·.edge? decls s source) = source.references decls := by
  refine List.filterMap_congr fun p _ => ?_
  cases statement : p.statement with
  | use name =>
    simp only [Placed.edge?, statement]
    refine congrArg (Option.bind _) (funext fun target => ?_)
    have judged := judge_edge s source target
    simp only [tracking, source.persistent_iff.mp owns, true_and] at judged
    simp only [judged]
    cases target.source.isVirtual <;> rfl
  | _ => simp only [Placed.edge?, statement]

theorem edges_none (idle : source.isPersistent = false ∨ s.tracksDependencies = false) :
    source.statements.filterMap (·.edge? decls s source) = [] := by
  refine List.filterMap_eq_nil_iff.mpr fun p _ => ?_
  have never (target : Declaration) : Reference.judge s source target ≠ .edge := by
    intro edge
    obtain ⟨tracking, owns, _⟩ := (judge_edge s source target).mp edge
    have persistent := source.persistent_iff.mpr owns
    simp [tracking, persistent] at idle
  cases statement : p.statement with
  | use name => simp [Placed.edge?, statement, never]
  | _ => simp only [Placed.edge?, statement]

theorem defines_distinct (declares : decls.Declares source) :
    (source.defines.map decls.idOf?).Nodup := by
  have ids := ((introduces_names source.statements).map decls.idOf?).nodup_iff.mpr (by
    rw [List.map_map]
    exact declares.distinct)
  rw [List.map_append] at ids
  exact (List.nodup_append.mp ids).1

theorem defines_declared (declares : decls.Declares source) (inside : name ∈ source.defines) :
    ∃ d, decls.named? name = some d ∧ d.source = source := by
  have among := (introduces_names source.statements).mem_iff.mp (List.mem_append_left _ inside)
  obtain ⟨entry, introduced, rfl⟩ := List.mem_map.mp among
  exact declares.found entry introduced

theorem defined_ids (declares : decls.Declares source) (owns : source.isPersistent = true) :
    (source.statements.filterMap (·.definition? decls source)).map some =
      source.defines.map decls.idOf? := by
  have found : ∀ name ∈ source.defines, (decls.idOf? name).map some = some (decls.idOf? name) := by
    intro name inside
    obtain ⟨d, named, _⟩ := defines_declared declares inside
    simp [DeclTable.idOf?, named]
  have ids : source.statements.filterMap (·.definition? decls source) =
      source.defines.filterMap decls.idOf? := by
    rw [defines, List.filterMap_filterMap]
    refine List.filterMap_congr fun p _ => ?_
    rw [Placed.definition?, if_pos owns]
  rw [ids, List.map_filterMap]
  exact (List.filterMap_congr found).trans (congrFun List.filterMap_eq_map _)

theorem named_registered (declares : decls.Declares source) {u : CompilationUnit}
    (own : u.source = source) (same : u.deps = (source.named decls s).deps) :
    Registered decls s.tracksDependencies u := by
  obtain ⟨dependencies, defined⟩ := registered decls s source source.statements {}
  have edges : u.deps.dependencies.toList =
      (source.statements.filterMap (·.edge? decls s source)).eraseDups := by
    rw [same]
    refine (congrArg OrderedSet.toList dependencies).trans ?_
    exact (OrderedSet.insertAll_toList {} _).trans (by simp)
  have ids : u.deps.defined =
      ({} : OrderedSet DeclId).insertAll (source.statements.filterMap (·.definition? decls source)) :=
    (congrArg DependencyTracker.defined same).trans defined
  refine ⟨?_, ?_, ?_⟩
  · intro owns
    rw [own] at owns ⊢
    have told := defined_ids declares owns
    have distinct := defines_distinct declares
    rw [← told] at distinct
    rw [ids, OrderedSet.insertAll_fresh (List.Nodup.of_map _ distinct), told]
  · intro owns
    rw [own] at owns ⊢
    rw [edges]
    cases tracking : s.tracksDependencies with
    | true => rw [edges_tracking owns tracking, if_pos rfl]
    | false =>
      rw [edges_none (Or.inr tracking), if_neg Bool.false_ne_true]
      rfl
  · intro unowned
    rw [own] at unowned
    have none : source.statements.filterMap (·.definition? decls source) = [] :=
      List.filterMap_eq_nil_iff.mpr fun p _ => by simp [Placed.definition?, unowned]
    rw [ids, edges, none, edges_none (Or.inl unowned)]
    exact ⟨rfl, rfl⟩

def Reaches (source : SourceFile) (decls : DeclTable) (tracking : Bool) :
    Nat → CompilationUnit → Prop
  | 0, u => u = .new source
  | 1, u => source.unreadable? = none ∧ u = source.parsed
  | 2, u => source.unreadable? = none ∧
      ∃ s, s.tracksDependencies = tracking ∧ u = source.named decls s
  | _, u => source.unreadable? = none ∧ u.source = source ∧
      ∃ s, s.tracksDependencies = tracking ∧ u.deps = (source.named decls s).deps

end SourceFile

section
variable {runner : Runner σ} {leak tracking : Bool} {reorder : List DeclId → List DeclId}
  {limit k : Nat} {p : CompilerPhase σ} {now : Shared σ} {u : CompilationUnit} {one : Advance σ}

theorem stateless_does {allowed : Deed → Prop} {work : Action σ (Except PhaseError Unit)}
    (phase : Phase) (does : work.Does allowed) (state : σ) :
    ((Statement.stateless phase work).run state).Does allowed := bind_does does fun _ => True.intro

theorem generate_edgeless (state : σ) :
    ((Statement.stateless .backend (Statement.generate decls)).run state).Does Deed.Edgeless := by
  have adds : ∀ artifact, Deed.Edgeless (.change (.addArtifact artifact)) := by
    simp [Deed.Edgeless, Deed.Keeping]
  have queues : ∀ point check, Deed.Edgeless (.change (.queueCheck point check)) := by
    simp [Deed.Edgeless, Deed.Keeping]
  exact stateless_does _ (Statement.generate_does adds queues decls) state

theorem stateless_unit {work : Action σ (Except PhaseError Unit)} {d : Driver σ} {phase : Phase}
    (ran : d.advance limit (Statement.stateless phase work) now u = some one) (other : phase ≠ .typer)
    (passed : one.result = .ok ())
    (ends : work.Ends (drain d.runner limit) now.session u result v) :
    result = .ok () ∧ one.unit = v := by
  have whole : ((Statement.stateless phase work).run now.state).Ends (drain d.runner limit)
      now.session u (result, now.state) v := ends.bind (.done _)
  exact advance_ends whole other ran passed

theorem typer_unit {work : Action σ (Except PhaseError Unit)} {d : Driver σ}
    (ran : d.advance limit (Statement.stateless .typer work) now u = some one)
    (passed : one.result = .ok ())
    (ends : work.Ends (drain d.runner limit) now.session u result v) :
    ∃ last, d.drainUnit limit .postTyper now v = some last ∧ one.unit = last.unit := by
  have whole : ((Statement.stateless .typer work).run now.state).Ends (drain d.runner limit)
      now.session u (result, now.state) v := ends.bind (.done _)
  obtain ⟨events, went⟩ := whole
  obtain ⟨out, body, settled⟩ := advance_cases ran
  cases Option.some.inj (went.symm.trans body)
  obtain ⟨error, rfl⟩ | ⟨_, ⟨other, _⟩ | ⟨_, last, drained, rfl⟩⟩ := settled
  · cases passed
  · exact absurd rfl other
  · exact ⟨last, drained, rfl⟩

-- One stage further. Behind the namer nothing is registered any more, and what the
-- tracking flag is no longer matters.
theorem reaches_next (edgeless : runner.Does Deed.Edgeless) (fits : source.Fits)
    (declares : source.unreadable? = none → decls.Declares source)
    (orders : ∀ keys, (reorder keys).Perm keys)
    (known : (Statement.phases decls leak reorder)[k]? = some p)
    (flag : k < 2 → now.session.tracksDependencies = tracking)
    (here : source.Reaches decls tracking k u)
    (ran : (Statement.pipeline runner decls leak reorder).advance limit p now u = some one)
    (passed : one.result = .ok ()) : source.Reaches decls tracking (k + 1) one.unit := by
  match k, known with
  | 0, known =>
    cases Option.some.inj known
    obtain rfl : u = .new source := here
    cases readable : source.unreadable? with
    | some text =>
      obtain ⟨v, stops, _⟩ := Statement.parse_stops readable
      obtain ⟨ok, _⟩ := stateless_unit ran (by decide) passed stops
      cases ok
    | none => exact ⟨readable, (stateless_unit ran (by decide) passed (Statement.parse_reads readable)).2⟩
  | 1, known =>
    cases Option.some.inj known
    obtain ⟨readable, rfl⟩ := here
    have names := stateless_unit ran (by decide) passed (Statement.name_ends fits.nodes)
    exact ⟨readable, now.session, flag Nat.one_lt_two, names.2⟩
  | 2, known =>
    cases Option.some.inj known
    obtain ⟨readable, s, same, rfl⟩ := here
    obtain ⟨last, drained, ends⟩ := typer_unit ran passed
      (Statement.type_ends fits (declares readable) orders leak)
    obtain ⟨own, edges⟩ := drainUnit_lasts edgeless_lasts edgeless limit .postTyper _ _ _ drained
    rw [ends]
    exact ⟨readable, own, s, same, edges⟩
  | 3, known =>
    cases Option.some.inj known
    obtain ⟨readable, own, s, same, deps⟩ := here
    obtain ⟨source, edges⟩ := advance_lasts edgeless_lasts edgeless generate_edgeless limit _ _ _ ran
    exact ⟨readable, source.trans own, s, same, edges.trans deps⟩
  | k + 4, known => cases known

theorem Statement.session_kept (early : k < 2)
    (known : (Statement.phases decls leak reorder)[k]? = some p)
    (ran : (Statement.pipeline runner decls leak reorder).advance limit p now u = some one) :
    one.shared.session = now.session := by
  have changes (op : UnitOp) : Deed.Changing (.change op) := ⟨op, rfl⟩
  match k, known with
  | 0, known =>
    cases Option.some.inj known
    exact advance_session (stateless_does .parser (Statement.parse_does changes) _) nofun ran
  | 1, known =>
    cases Option.some.inj known
    exact advance_session (stateless_does .namer (Statement.name_does changes decls) _) nofun ran
  | k + 2, _ => omega

theorem pipeline_reaches (loaded : Loaded sources decls) (edgeless : runner.Does Deed.Edgeless)
    (orders : ∀ keys, (reorder keys).Perm keys) {shared : Shared σ}
    (ran : (Statement.pipeline runner decls leak reorder).run limit shared sources = some r) :
    ∀ seat ∈ r.report.survivors, ∃ source, sources[seat.slot]? = some source ∧
      source.Reaches decls shared.session.tracksDependencies 4 seat.unit := by
  let tracking := shared.session.tracksDependencies
  let good (k : Nat) (seat : Seat) : Prop := ∃ source, sources[seat.slot]? = some source ∧
    source.Reaches decls tracking k seat.unit
  obtain ⟨rounds, going, _⟩ := run_rounds ran
  refine rounds_carry good (fun k now => k < 2 → now.session.tracksDependencies = tracking) going
    ?_ (fun _ => rfl) (fun _ _ _ same => same) ?_ (fun k _ same early => same (by omega)) ?_ ?_
  · intro seat inside
    exact seats_source inside
  · intro k p known now unit one same went early
    rw [Nat.zero_add] at same early
    rw [Statement.session_kept early known went]
    exact same early
  · rintro k p known now slot unit one same ⟨source, here, reaches⟩ went passed
    rw [Nat.zero_add] at same reaches ⊢
    have among := List.mem_of_getElem? here
    exact ⟨source, here, reaches_next edgeless (loaded.room source among) (loaded.declares among)
      orders known same reaches went passed⟩
  · rintro now slot unit one ⟨source, here, readable, own, s, same, deps⟩ went passed
    obtain ⟨kept, edges⟩ := finish_lasts edgeless_lasts edgeless limit now unit one went
    exact ⟨source, here, readable, kept.trans own, s, same, edges.trans deps⟩

end

end UnitPipeline
