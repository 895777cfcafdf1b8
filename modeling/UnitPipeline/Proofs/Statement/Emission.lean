import UnitPipeline.Proofs.Statement.Survival

namespace UnitPipeline
variable {decls : DeclTable} {source : SourceFile} {s : Session} {order : List DeclId}
  {enabled : OrderedSet Feature} {hosted : Bool}

def Statement.defines? : Statement → Option String
  | define name | caseOf name => some name
  | _ => none

def SourceFile.defines (source : SourceFile) : List String :=
  source.statements.filterMap (·.statement.defines?)

theorem introduces_names (placed : List Placed) :
    (placed.filterMap (·.statement.defines?) ++
        (placed.filterMap (·.statement.caseName?)).map Statement.applyName).Perm
      ((placed.flatMap (·.statement.introduces)).map (·.1)) := by
  induction placed with
  | nil => exact .nil
  | cons p rest ih =>
    cases statement : p.statement with
    | define name =>
      simpa [statement, Statement.defines?, Statement.caseName?, Statement.introduces] using ih
    | caseOf name =>
      simp only [statement, Statement.defines?, Statement.caseName?, Statement.introduces,
        List.filterMap_cons, List.flatMap_cons, List.map_cons, List.cons_append, List.nil_append]
      exact (List.perm_middle.trans (ih.cons _)).cons _
    | _ => simpa [statement, Statement.defines?, Statement.caseName?, Statement.introduces] using ih

theorem DeclTable.Declares.names_distinct (declares : decls.Declares source) :
    (source.introduces.map (·.1)).Nodup := by
  refine List.Nodup.of_map decls.idOf? ?_
  rw [List.map_map]
  exact declares.distinct

theorem OrderedSet.insertAll_distinct {α : Type} [DecidableEq α] {s : OrderedSet α} {xs : List α}
    (distinct : (s.toList ++ xs).Nodup) : (s.insertAll xs).toList = s.toList ++ xs := by
  induction xs generalizing s with
  | nil => exact (List.append_nil _).symm
  | cons x rest ih =>
    have new : x ∉ s.toList := fun old =>
      (List.nodup_append.mp distinct).2.2 x old x List.mem_cons_self rfl
    rw [← List.singleton_append, ← List.append_assoc, ← insert_new new] at distinct
    rw [insertAll_cons, ih distinct, insert_new new, List.append_assoc, List.singleton_append]

theorem OrderedSet.insertAll_fresh {α : Type} [DecidableEq α] {xs : List α} (distinct : xs.Nodup) :
    (({} : OrderedSet α).insertAll xs).toList = xs :=
  (insertAll_distinct (s := {}) distinct).trans (List.nil_append xs)

namespace SourceFile

-- The nodes that a body has in the end, with their ids: one for each statement, and
-- behind them what was moved.
theorem inBody_distinct (fits : source.Fits) (declares : decls.Declares source)
    (all : order.Perm ((source.made decls).map (·.1))) :
    (source.root :: (source.inBody decls order).map (·.1)).Nodup := by
  let added := (source.made decls).map (·.2)
  have row : source.entries ++ (source.root, source.block source.ids) :: source.additions added =
      allotted 0 (source.nodes ++ source.block source.ids :: added) := by
    rw [allotted_append, Nat.zero_add, allotted_cons]
    rfl
  have room : source.nodes.length + added.length < UInt32.size := fits.made declares
  have moves : (source.moved (source.made decls) order).Perm (source.additions added) :=
    moved_perm declares.generated_distinct all
  have one : ((source.entries ++ (source.root, source.block source.ids) ::
      source.additions added).map (·.1)).Nodup := by
    rw [row]
    refine allotted_distinct ?_
    simp only [List.length_append, List.length_cons]
    omega
  refine (List.Perm.nodup_iff ?_).mpr one
  refine .trans ?_ (List.perm_middle.symm.map _)
  exact ((moves.append_left source.entries).map (·.1)).cons source.root

theorem moved_calls (declares : decls.Declares source)
    (all : order.Perm ((source.made decls).map (·.1))) :
    ((source.moved (source.made decls) order).map (·.2)).Perm
      (source.statements.filterMap Placed.call?) := by
  have moves : (source.moved (source.made decls) order).Perm
      (source.additions ((source.made decls).map (·.2))) :=
    moved_perm declares.generated_distinct all
  have calls : (source.made decls).map (·.2) = _ := declares.generated_calls
  have nodes := moves.map (·.2)
  rwa [additions, allotted_nodes, calls] at nodes

theorem moved_names (declares : decls.Declares source)
    (all : order.Perm ((source.made decls).map (·.1))) :
    ((source.moved (source.made decls) order).filterMap (·.2.kind.definedName?)).Perm
      (source.cases.map Statement.applyName) := by
  have names := (moved_calls declares all).filterMap (·.kind.definedName?)
  rw [List.filterMap_map, List.filterMap_filterMap] at names
  refine names.trans (.of_eq ?_)
  rw [cases, List.map_filterMap]
  refine List.filterMap_congr fun p _ => ?_
  cases statement : p.statement <;>
    simp [Placed.call?, statement, Statement.caseName?, NodeKind.definedName?]

theorem entries_names (source : SourceFile) :
    source.entries.filterMap (·.2.kind.definedName?) = source.defines :=
  entries_filterMap fun at_ p _ _ => by
    cases statement : p.statement <;> simp [Placed.node, statement, Statement.kind,
      Statement.defines?, NodeKind.definedName?]

theorem inBody_names (declares : decls.Declares source)
    (all : order.Perm ((source.made decls).map (·.1))) :
    ((source.inBody decls order).filterMap (·.2.kind.definedName?)).Perm
      (source.introduces.map (·.1)) := by
  rw [inBody, List.filterMap_append, entries_names]
  exact ((moved_names declares all).append_left _).trans (introduces_names source.statements)

theorem finished_source : (source.finished decls s order hosted enabled).source = source := rfl

theorem finished_body :
    (source.finished decls s order hosted enabled).body = some source.root := rfl

theorem finished_synthetics : (source.finished decls s order hosted enabled).synthetics =
    (KeyedTable.mk (source.stagings (source.made decls))).without order := rfl

theorem finished_trees : (source.finished decls s order hosted enabled).trees = source.layout
    ((source.inBody decls order).map (·.1)) ((source.made decls).map (·.2)) := by
  rw [inBody, List.map_append]
  rfl

theorem finished_cache : (source.finished decls s order hosted enabled).cache =
    .itself (((source.memo decls order).insertAll
      ((source.inBody decls order).map (·.1))).insert source.root) := rfl

theorem finished_artifacts : (source.finished decls s order hosted enabled).artifacts =
    ({} : OrderedSet IrClass).insertAll
      ((source.inBody decls order).filterMap (Statement.irClass? decls)) := rfl

theorem memoized (fits : source.Fits) (declares : decls.Declares source)
    (all : order.Perm ((source.made decls).map (·.1))) :
    (((source.memo decls order).insertAll
        ((source.inBody decls order).map (·.1))).insert source.root).toList.Perm
      (source.root :: (source.inBody decls order).map (·.1)) := by
  have once : (((source.memo decls order).insertAll
      ((source.inBody decls order).map (·.1))).insert source.root).toList.Nodup :=
    OrderedSet.insert_nodup
      (OrderedSet.insertAll_nodup (OrderedSet.insertAll_nodup List.nodup_nil _) _)
  refine (List.perm_ext_iff_of_nodup once (inBody_distinct fits declares all)).mpr fun x => ?_
  have among : x ∈ (source.moved (source.made decls) order).map (·.1) →
      x ∈ (source.inBody decls order).map (·.1) := by
    intro moved
    rw [inBody, List.map_append]
    exact List.mem_append_right _ moved
  rw [OrderedSet.mem_insert, OrderedSet.mem_insertAll, memo, OrderedSet.mem_insertAll,
    List.mem_cons, or_iff_right (List.not_mem_nil (a := x)), or_iff_right_of_imp among, or_comm]

theorem inBody_classes (declares : decls.Declares source)
    (all : order.Perm ((source.made decls).map (·.1))) :
    (({} : OrderedSet IrClass).insertAll
        ((source.inBody decls order).filterMap (Statement.irClass? decls))).toList =
      ((source.inBody decls order).filterMap (·.2.kind.definedName?)).map decls.irClass := by
  have classes : (source.inBody decls order).filterMap (Statement.irClass? decls) =
      ((source.inBody decls order).filterMap (·.2.kind.definedName?)).map decls.irClass :=
    List.map_filterMap.symm
  have alone := (inBody_names declares all).nodup_iff.mpr declares.names_distinct
  have injective : Function.Injective decls.irClass := fun _ _ same => congrArg IrClass.name same
  rw [classes]
  exact OrderedSet.insertAll_fresh (alone.map injective)

end SourceFile

-- What is generated for a unit, in a body with a root and, behind the statements, some
-- calls: nothing stays staged, every case has its call, what is memoized is what the body
-- has, and there is one class for every definition and every call.
structure Emitted (decls : DeclTable) (unit : CompilationUnit) (root : NodeId)
    (calls : List (NodeId × Node)) : Prop where
  drained : unit.synthetics = {}
  body : unit.body = some root
  children : unit.trees.children root = (unit.source.entries ++ calls).map (·.1)
  found : ∀ e ∈ unit.source.entries ++ calls, unit.trees.get? e.1 = some e.2
  distinct : (root :: unit.trees.children root).Nodup
  cases : (calls.map (·.2)).Perm (unit.source.statements.filterMap Placed.call?)
  cache : unit.cache.entries.Perm ((root :: unit.trees.children root).map fun x => (x, x))
  artifacts : unit.artifacts.toList =
    (unit.source.defines ++ calls.filterMap (·.2.kind.definedName?)).map decls.irClass
  declared : ∀ c ∈ unit.artifacts.toList, ∃ d, decls.named? c.name = some d ∧ c.decl = some d.id
  once : (unit.artifacts.toList.map (·.name)).Nodup

theorem SourceFile.finished_emitted (fits : source.Fits) (declares : decls.Declares source)
    (all : order.Perm ((source.made decls).map (·.1))) :
    Emitted decls (source.finished decls s order hosted enabled) source.root
      (source.moved (source.made decls) order) := by
  have names := inBody_names declares all
  have children : (source.finished decls s order hosted enabled).trees.children source.root =
      (source.inBody decls order).map (·.1) := by
    rw [TreeArena.children, finished_trees, layout_root fits.nodes]
    rfl
  have classes : (source.finished decls s order hosted enabled).artifacts.toList =
      ((source.inBody decls order).filterMap (·.2.kind.definedName?)).map decls.irClass := by
    rw [finished_artifacts]
    exact inBody_classes declares all
  refine ⟨?_, finished_body, children, ?_, ?_, ?_, ?_, ?_, ?_, ?_⟩
  · rw [finished_synthetics]
    refine KeyedTable.without_all _ fun decl inside => all.mem_iff.mpr ?_
    rw [← stagings_keys source]
    exact inside
  · intro e inside
    rw [finished_trees]
    exact inBody_found fits declares inside
  · rw [children]
    exact inBody_distinct fits declares all
  · rw [finished_source]
    exact moved_calls declares all
  · rw [children, finished_cache, KeyedTable.itself_entries]
    exact (memoized fits declares all).map _
  · rw [classes, finished_source, inBody, List.filterMap_append, entries_names]
  · intro c inside
    rw [classes] at inside
    obtain ⟨name, known, rfl⟩ := List.mem_map.mp inside
    obtain ⟨entry, introduced, rfl⟩ := List.mem_map.mp (names.mem_iff.mp known)
    obtain ⟨d, found, _⟩ := declares.found entry introduced
    exact ⟨d, found, by simp [DeclTable.irClass, DeclTable.idOf?, found]⟩
  · rw [classes, List.map_map]
    exact (congrArg List.Nodup (List.map_id _)).mpr
      (names.nodup_iff.mpr declares.names_distinct)

theorem pipeline_emission (loaded : Loaded sources decls) (enough : 2 ≤ limit)
    {reorder : List DeclId → List DeclId} (orders : ∀ keys, (reorder keys).Perm keys)
    (hosted : Bool) (session : Session) (enabled : OrderedSet Feature) :
    let d := Statement.pipeline (Statement.runnerOf hosted) decls false reorder
    (∃ r, d.run limit ⟨session, enabled⟩ sources = some r) ∧
      ∀ r, d.run limit ⟨session, enabled⟩ sources = some r → ∀ seat ∈ r.report.survivors,
        sources[seat.slot]? = some seat.unit.source ∧
          ∃ root calls, Emitted decls seat.unit root calls := by
  intro d
  obtain ⟨ends, _⟩ := pipeline_fates loaded enough orders false hosted ⟨session, enabled⟩
  refine ⟨ends, fun r ran seat inside => ?_⟩
  obtain ⟨source, here, _, fits, declares, finished⟩ :=
    pipeline_survivor loaded enough orders false hosted ⟨session, enabled⟩ ran inside
  rw [finished]
  exact ⟨here, _, _, SourceFile.finished_emitted fits declares (orders _)⟩

def threeCases : List SourceFile :=
  [.persistent "A" "case a\ndef b\nuse d\ncase c", .inMemory "B" "case d"]

theorem threeCases_emitted : ∃ r, (Statement.pipeline (Statement.runnerOf true)
      (tableOf threeCases) false List.reverse).run 2 ⟨{}, {}⟩ threeCases = some r ∧
    (∀ seat ∈ r.report.survivors, threeCases[seat.slot]? = some seat.unit.source ∧
      ∃ root calls, Emitted (tableOf threeCases) seat.unit root calls) ∧
    r.report.survivors.map (fun seat => seat.unit.artifacts.toList.map fun c => (c.name, c.decl)) =
      [[("a", some ⟨0⟩), ("b", some ⟨2⟩), ("c", some ⟨3⟩), ("c.apply", some ⟨4⟩),
          ("a.apply", some ⟨1⟩)],
        [("d", some ⟨5⟩), ("d.apply", some ⟨6⟩)]] := by
  have loaded : Loaded threeCases (tableOf threeCases) := ⟨by decide +kernel, by decide⟩
  obtain ⟨⟨r, ran⟩, emission⟩ := pipeline_emission loaded (Nat.le_refl 2) List.reverse_perm true {} {}
  have told : ((Statement.pipeline (Statement.runnerOf true) (tableOf threeCases) false
      List.reverse).run 2 ⟨{}, {}⟩ threeCases).map (fun r => r.report.survivors.map (fun seat =>
        seat.unit.artifacts.toList.map fun c => (c.name, c.decl))) = some
      [[("a", some ⟨0⟩), ("b", some ⟨2⟩), ("c", some ⟨3⟩), ("c.apply", some ⟨4⟩),
          ("a.apply", some ⟨1⟩)],
        [("d", some ⟨5⟩), ("d.apply", some ⟨6⟩)]] := by
    decide +kernel
  rw [ran] at told
  exact ⟨r, ran, emission r ran, Option.some.inj told⟩

end UnitPipeline
