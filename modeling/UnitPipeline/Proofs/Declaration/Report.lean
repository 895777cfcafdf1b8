import UnitPipeline.Proofs.Declaration.Bijection
import UnitPipeline.Proofs.Unit.Steps

namespace UnitPipeline

namespace DeclTable
variable {table : DeclTable} {made : List Introduction} {d : Declaration} {id : DeclId}

def knows (table : DeclTable) (id : DeclId) : Bool := (table.get? id).isSome

def idsOf (table : DeclTable) (names : List String) : List (Option DeclId) :=
  names.map fun name => (table.named? name).map (·.id)

theorem call_get (found : table.get? id = some d) (i : Introduction) :
    (table.call i).2.get? id = some d := by
  cases taken : table.named? i.name with
  | some other => rwa [call_taken taken]
  | none =>
    rw [call_free taken]
    obtain ⟨inside, _⟩ := Array.getElem?_eq_some_iff.mp found
    rw [get?, grown, Array.getElem?_push, if_neg (Nat.ne_of_lt inside)]
    exact found

theorem after_get (found : table.get? id = some d) (calls : List Introduction) :
    (table.after calls).get? id = some d := by
  induction calls generalizing table with
  | nil => exact found
  | cons i rest ih => exact ih (call_get found i)

theorem after_knows (known : table.knows id = true) (calls : List Introduction) :
    (table.after calls).knows id = true := by
  obtain ⟨d, found⟩ := Option.isSome_iff_exists.mp known
  exact Option.isSome_iff_exists.mpr ⟨d, after_get found calls⟩

theorem after_nameOf (known : table.knows id = true) (calls : List Introduction) :
    (table.after calls).nameOf? id = table.nameOf? id := by
  obtain ⟨d, found⟩ := Option.isSome_iff_exists.mp known
  rw [nameOf?, nameOf?, found, after_get found calls]

theorem Lists.name_cases (lists : table.Lists made) (id : DeclId) :
    (table.knows id = false ∧ table.nameOf? id = none) ∨
      table.knows id = true ∧ ∃ name, table.nameOf? id = some name ∧
        (table.named? name).map (·.id) = some id := by
  unfold knows nameOf?
  cases found : table.get? id with
  | none => exact Or.inl ⟨rfl, rfl⟩
  | some d =>
    obtain ⟨same, here⟩ := lists.back found
    refine Or.inr ⟨rfl, d.name, rfl, ?_⟩
    rw [here, Option.map_some, same]

theorem Lists.names_back (lists : table.Lists made) (ids : List DeclId) :
    (ids.filterMap table.nameOf?).map some = (ids.filter table.knows).map table.nameOf? ∧
      table.idsOf (ids.filterMap table.nameOf?) = (ids.filter table.knows).map some := by
  induction ids with
  | nil => exact ⟨rfl, rfl⟩
  | cons id rest ih =>
    obtain ⟨named, back⟩ := ih
    obtain ⟨unknown, unnamed⟩ | ⟨known, name, here, same⟩ := lists.name_cases id
    · rw [List.filterMap_cons_none unnamed, List.filter_cons_of_neg (by simp [unknown])]
      exact ⟨named, back⟩
    · rw [List.filterMap_cons_some here, List.filter_cons_of_pos known]
      exact ⟨congrArg₂ List.cons here.symm named, congrArg₂ List.cons same back⟩

-- The names that a report has for ids: those of the ids that the table knows, in order,
-- and of all of them if it knows them all.
structure Tells (table : DeclTable) (ids : List DeclId) (names : List String) : Prop where
  named : names.map some = (ids.filter table.knows).map table.nameOf?
  back : table.idsOf names = (ids.filter table.knows).map some
  distinct : names.Nodup
  whole : (∀ id ∈ ids, table.knows id = true) →
    names.length = ids.length ∧ table.idsOf names = ids.map some

theorem Lists.tells (lists : table.Lists made) {ids : List DeclId} (distinct : ids.Nodup) :
    table.Tells ids (ids.filterMap table.nameOf?) := by
  obtain ⟨named, back⟩ := lists.names_back ids
  refine ⟨named, back, ?_, ?_⟩
  · have apart : ((ids.filter table.knows).map some).Nodup :=
      (distinct.filter _).map fun _ _ => Option.some.inj
    rw [← back] at apart
    exact apart.of_map
  · intro known
    have all : ids.filter table.knows = ids := List.filter_eq_self.mpr known
    rw [all] at named back
    exact ⟨by simpa using congrArg List.length named, back⟩

end DeclTable

def DependencyTracker.ids (tracker : DependencyTracker) : List DeclId :=
  tracker.dependencies.toList ++ tracker.defined.toList

structure DependencyTracker.Distinct (tracker : DependencyTracker) : Prop where
  dependencies : tracker.dependencies.toList.Nodup
  defined : tracker.defined.toList.Nodup

section
variable {tracker : DependencyTracker} {source : SourceFile}

theorem registers_cases (s : Session) (source : SourceFile) (tracker : DependencyTracker)
    (op : UnitOp) : op.registers s source tracker = tracker ∨ op.registers s source tracker = {} ∨
      (∃ target, op = .registerDependency target ∧ op.registers s source tracker =
        { tracker with references := some (tracker.dependencies.insert target.id) }) ∨
      ∃ decl, op = .registerDefinition decl ∧ op.registers s source tracker =
        { tracker with definitions := some (tracker.defined.insert decl) } := by
  cases op with
  | registerDependency target =>
    by_cases judged : Reference.judge s source target = .edge
    · exact Or.inr (Or.inr (Or.inl ⟨target, rfl, DependencyTracker.registerDependency_edge judged⟩))
    · exact Or.inl (DependencyTracker.registerDependency_ignored judged)
  | registerDefinition decl =>
    by_cases owns : source.isPersistent = true
    · exact Or.inr (Or.inr (Or.inr ⟨decl, rfl, DependencyTracker.registerDefinition_owned owns⟩))
    · exact Or.inl (DependencyTracker.registerDefinition_ignored owns)
  | clear => exact Or.inr (Or.inl rfl)
  | _ => exact Or.inl rfl

theorem DependencyTracker.Distinct.registers (distinct : tracker.Distinct) (s : Session)
    (source : SourceFile) (op : UnitOp) : (op.registers s source tracker).Distinct := by
  rcases registers_cases s source tracker op with
    same | cleared | ⟨target, _, grown⟩ | ⟨decl, _, grown⟩
  · rwa [same]
  · rw [cleared]
    exact ⟨List.nodup_nil, List.nodup_nil⟩
  · rw [grown]
    exact ⟨OrderedSet.insert_nodup distinct.dependencies, distinct.defined⟩
  · rw [grown]
    exact ⟨distinct.dependencies, OrderedSet.insert_nodup distinct.defined⟩

theorem step_distinct (step : WorkStep b events next) (distinct : b.desk.unit.deps.Distinct) :
    next.desk.unit.deps.Distinct := by
  cases step with
  | change op =>
    rw [op.apply_deps]
    exact distinct.registers _ _ op
  | _ => exact distinct

theorem work_distinct (work : Work b events next) (distinct : b.desk.unit.deps.Distinct) :
    next.desk.unit.deps.Distinct := by
  induction work with
  | rest => exact distinct
  | step first _ ih => exact ih (step_distinct first distinct)

theorem course_distinct (course : Course u events v) (distinct : u.deps.Distinct) :
    v.deps.Distinct := by
  induction course with
  | rest => exact distinct
  | turn work _ ih => exact ih (work_distinct work distinct)

end

theorem report_keeps {u : CompilationUnit} {table : DeclTable}
    (known : ∀ id ∈ u.deps.ids, table.knows id = true) (more : List Introduction) :
    u.dependencyReport (table.after more) = u.dependencyReport table := by
  have same : ∀ id ∈ u.deps.ids, (table.after more).nameOf? id = table.nameOf? id :=
    fun id inside => DeclTable.after_nameOf (known id inside) more
  have edges := List.filterMap_congr fun id (inside : id ∈ u.deps.dependencies.toList) =>
    same id (List.mem_append_left _ inside)
  have own := List.filterMap_congr fun id (inside : id ∈ u.deps.defined.toList) =>
    same id (List.mem_append_right _ inside)
  unfold CompilationUnit.dependencyReport DependencyTracker.report
  rw [edges, own]

inductive SiteStep
  | declare (i : Introduction)
  | work (step : Step)

structure Site where
  desk : Desk
  table : DeclTable

def SiteStep.apply (site : Site) : SiteStep → Site
  | declare i => { site with table := (site.table.call i).2 }
  | work step => { site with desk := step.apply site.desk }

def Site.after (site : Site) (steps : List SiteStep) : Site := steps.foldl SiteStep.apply site

def SiteStep.registered? : SiteStep → Option DeclId
  | work (.change (.registerDependency target)) => some target.id
  | work (.change (.registerDefinition decl)) => some decl
  | _ => none

def Site.Grounded (site : Site) : List SiteStep → Prop
  | [] => True
  | step :: rest =>
    (∀ id ∈ step.registered?, site.table.knows id = true) ∧ (step.apply site).Grounded rest

def Site.Knows (site : Site) : Prop := ∀ id ∈ site.desk.unit.deps.ids, site.table.knows id = true

section
variable {tracker : DependencyTracker} {site : Site} {step : SiteStep} {steps : List SiteStep}
  {id : DeclId} {s : Session} {source : SourceFile}

theorem registers_ids {op : UnitOp} (inside : id ∈ (op.registers s source tracker).ids) :
    id ∈ tracker.ids ∨ (SiteStep.work (.change op)).registered? = some id := by
  rcases registers_cases s source tracker op with
    same | cleared | ⟨target, rfl, grown⟩ | ⟨decl, rfl, grown⟩
  · rw [same] at inside
    exact Or.inl inside
  · rw [cleared] at inside
    cases inside
  · rw [grown] at inside
    rcases List.mem_append.mp inside with edge | own
    · rcases OrderedSet.mem_insert.mp edge with old | rfl
      · exact Or.inl (List.mem_append_left _ old)
      · exact Or.inr rfl
    · exact Or.inl (List.mem_append_right _ own)
  · rw [grown] at inside
    rcases List.mem_append.mp inside with edge | own
    · exact Or.inl (List.mem_append_left _ edge)
    · rcases OrderedSet.mem_insert.mp own with old | rfl
      · exact Or.inl (List.mem_append_right _ old)
      · exact Or.inr rfl

theorem apply_knows (knows : site.Knows)
    (grounded : ∀ id ∈ step.registered?, site.table.knows id = true) :
    (step.apply site).Knows := by
  intro id inside
  cases step with
  | declare i => exact DeclTable.after_knows (knows id inside) [i]
  | work inner =>
    cases inner with
    | change op =>
      rw [SiteStep.apply, Step.apply, op.apply_deps] at inside
      rcases registers_ids inside with old | new
      · exact knows id old
      · exact grounded id new
    | enterPhase phase => exact knows id inside
    | setTracking on => exact knows id inside

-- The table may grow between a registration and the report. It knows the id still.
theorem after_grounded (knows : site.Knows) (grounded : site.Grounded steps) :
    (site.after steps).Knows := by
  induction steps generalizing site with
  | nil => exact knows
  | cons step rest ih => exact ih (apply_knows knows grounded.1) grounded.2

theorem after_course (site : Site) (steps : List SiteStep) :
    ∃ events calls, Course site.desk.unit events (site.after steps).desk.unit ∧
      (site.after steps).table = site.table.after calls := by
  induction steps generalizing site with
  | nil => exact ⟨[], [], .rest, rfl⟩
  | cons step rest ih =>
    obtain ⟨events, calls, course, table⟩ := ih (step.apply site)
    cases step with
    | declare i => exact ⟨events, i :: calls, course, table⟩
    | work inner =>
      obtain ⟨now, work⟩ := steps_work [inner] site.desk []
      exact ⟨now ++ events, calls, .turn work course, table⟩

end

structure LosslessReport (u : CompilationUnit) (table : DeclTable) : Prop where
  dependencies : table.Tells u.deps.dependencies.toList (u.dependencyReport table).dependencies
  defined : table.Tells u.deps.defined.toList (u.dependencyReport table).defined
  keeps : (∀ id ∈ u.deps.ids, table.knows id = true) →
    ∀ more, u.dependencyReport (table.after more) = u.dependencyReport table

-- For a unit at any moment of its life, also within a drain, and a table after any calls.
theorem reports_lossless {u : CompilationUnit} {desk : Desk}
    (course : Course (.withFreshNames source fresh) events u)
    (work : Work ⟨[], ⟨session, u⟩⟩ later ⟨held, desk⟩) (calls : List Introduction) :
    LosslessReport desk.unit (({} : DeclTable).after calls) := by
  have begun : (CompilationUnit.withFreshNames source fresh).deps.Distinct :=
    ⟨List.nodup_nil, List.nodup_nil⟩
  obtain ⟨dependencies, defined⟩ := work_distinct work (course_distinct course begun)
  obtain ⟨made, lists, _⟩ := DeclTable.after_lists calls
  exact ⟨lists.tells dependencies, lists.tells defined, report_keeps⟩

def growing : List SiteStep :=
  [.declare ⟨.persistent "a" "", "A", .object⟩, .work (.setTracking true),
    .work (.change (.registerDefinition ⟨0⟩)), .declare ⟨.persistent "b" "", "B", .method⟩,
    .declare ⟨.absent, "A", .method⟩,
    .work (.change (.registerDependency ⟨⟨1⟩, "B", .method, .persistent "b" ""⟩)),
    .work (.change (.registerDependency ⟨⟨0⟩, "A", .object, .persistent "a" ""⟩)),
    .declare ⟨.absent, "C", .value⟩]

theorem growing_reported :
    let site := Site.after ⟨⟨.global, .new (.persistent "a" "")⟩, {}⟩ growing
    site.table.size = 3 ∧ site.Knows ∧
      site.desk.unit.dependencyReport site.table = ⟨"a", ["B", "A"], ["A"]⟩ ∧
      site.table.idsOf ["B", "A"] = [some ⟨1⟩, some ⟨0⟩] ∧
      ∀ more, site.desk.unit.dependencyReport (site.table.after more) =
        ⟨"a", ["B", "A"], ["A"]⟩ := by
  intro site
  have knows : site.Knows := by
    refine after_grounded nofun ?_
    exact ⟨nofun, nofun, by decide, nofun, nofun, by decide, by decide, nofun, True.intro⟩
  obtain ⟨events, calls, course, table⟩ := after_course ⟨⟨.global, .new (.persistent "a" "")⟩, {}⟩
    growing
  have idle : Work ⟨[], site.desk⟩ [] ⟨[], site.desk⟩ := .rest
  have reported := reports_lossless course idle calls
  rw [← table] at reported
  have report : site.desk.unit.dependencyReport site.table = ⟨"a", ["B", "A"], ["A"]⟩ := by decide
  have keeps := reported.keeps knows
  rw [report] at keeps
  have back := (reported.dependencies.whole fun id inside =>
    knows id (List.mem_append_left _ inside)).2
  rw [report] at back
  exact ⟨by decide, knows, report, back, keeps⟩

end UnitPipeline
