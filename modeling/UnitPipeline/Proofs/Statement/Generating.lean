import UnitPipeline.Proofs.Statement.Typing

namespace UnitPipeline
variable {σ : Type} {inner : Drain σ} {s : Session} {decls : DeclTable} {source : SourceFile}

def DeclTable.irClass (decls : DeclTable) (name : String) : IrClass :=
  ⟨name, decls.idOf? name, name.toUTF8.data.toList⟩

namespace Statement

def validation? (entry : NodeId × Node) : Option DeferredCheck :=
  match entry.2.kind with
  | .literal claim => some (.validate assertCode (some entry.1) claim)
  | _ => none

def irClass? (decls : DeclTable) (entry : NodeId × Node) : Option IrClass :=
  entry.2.kind.definedName?.map decls.irClass

def generating (decls : DeclTable) (u : CompilationUnit) (earlier : List (NodeId × Node)) :
    CompilationUnit :=
  { u.queuing (tagged .postUnit (earlier.filterMap validation?)) with
    artifacts := u.artifacts.insertAll (earlier.filterMap (irClass? decls)) }

theorem generating_next (u : CompilationUnit) (earlier : List (NodeId × Node)) (e : NodeId × Node) :
    generating decls u (earlier ++ [e]) =
      { (generating decls u earlier).queuing (tagged .postUnit (validation? e).toList) with
        artifacts := (generating decls u earlier).artifacts.insertAll (irClass? decls e).toList } := by
  have queued : (earlier ++ [e]).filterMap validation? =
      earlier.filterMap validation? ++ (validation? e).toList := by
    cases due : validation? e <;> simp [due]
  have classes : (earlier ++ [e]).filterMap (irClass? decls) =
      earlier.filterMap (irClass? decls) ++ (irClass? decls e).toList := by
    cases due : irClass? decls e <;> simp [due]
  simp only [generating, CompilationUnit.queuing, queued, classes, tagged, List.map_append,
    OrderedSet.insertAll_append, List.append_assoc]

theorem generateOne_ends (u : CompilationUnit) (earlier : List (NodeId × Node)) (e : NodeId × Node) :
    (generateOne decls e).Ends inner s (generating decls u earlier) ()
      (generating decls u (earlier ++ [e])) := by
  rw [generating_next]
  cases kind : e.2.kind with
  | literal claim =>
    simp only [generateOne, validation?, irClass?, NodeKind.definedName?, kind]
    exact .change (.done ())
  | package _ | importPath _ | block | apply | ident _ | xmlLiteral =>
    simp only [generateOne, validation?, irClass?, NodeKind.definedName?, kind, Option.toList_none,
      tagged, List.map_nil, CompilationUnit.queuing_nil, Option.map_none]
    exact .done ()
  | classDef name | defDef name | valDef name | synthetic name =>
    simp only [generateOne, validation?, irClass?, NodeKind.definedName?, kind, Option.toList_none,
      tagged, List.map_nil, CompilationUnit.queuing_nil, Option.map_some]
    exact .change (.done ())

theorem generate_ends {u : CompilationUnit} (body : u.body = some root) :
    (generate decls).Ends inner s u (.ok ())
      ((generating decls u (topLevel u)).queuing [(.postUnit, .computed root)]) := by
  have begins : generating decls u [] = u := by
    rw [generating, List.filterMap_nil, tagged, List.map_nil, CompilationUnit.queuing_nil]
    rfl
  have all : (Action.forAll (generateOne decls) (topLevel u)).Ends inner s u ()
      (generating decls u (topLevel u)) := by
    have loop : (Action.forAll (generateOne decls) (topLevel u)).Ends inner s
        (generating decls u []) () (generating decls u (topLevel u)) :=
      Action.Ends.forAll (generating decls u) fun earlier e _ _ => generateOne_ends u earlier e
    rwa [begins] at loop
  refine .look ?_
  simp only [body]
  exact all.bind (.change (.done (Except.ok ())))

end Statement

namespace SourceFile
variable {β : Type}

theorem entries_filterMap {g : NodeId × Node → Option β} {h : Placed → Option β}
    (same : ∀ at_, ∀ p ∈ source.statements, (at_, p.node) ∈ source.entries →
      g (at_, p.node) = h p) :
    source.entries.filterMap g = source.statements.filterMap h := by
  have each : ∀ e ∈ source.statements.zipIdx,
      (g ∘ fun e => (.ofIndex e.2, e.1.node)) e = (h ∘ (·.1)) e := by
    intro e inside
    refine same _ _ (List.fst_mem_of_mem_zipIdx inside) ?_
    rw [entries_eq]
    exact List.mem_map_of_mem inside
  rw [entries_eq, List.filterMap_map, List.filterMap_congr each, ← List.filterMap_map,
    List.zipIdx_map_fst]

theorem moved_kind (inside : e ∈ source.moved (source.made decls) order) :
    ∃ name, e.2.kind = .synthetic name := by
  have among := List.mem_map_of_mem (f := (·.2)) (moved_addition inside)
  rw [additions, allotted_nodes] at among
  obtain ⟨entry, known, same⟩ := List.mem_map.mp among
  obtain ⟨p, _, made⟩ := List.mem_filterMap.mp known
  obtain ⟨name, d, _, _, rfl⟩ := p.generated?_cases made
  exact ⟨_, congrArg Node.kind same.symm⟩

theorem moved_silent {g : NodeId × Node → Option β}
    (silent : ∀ at_ node name, node.kind = .synthetic name → g (at_, node) = none) :
    (source.moved (source.made decls) order).filterMap g = [] := by
  refine List.filterMap_eq_nil_iff.mpr fun e inside => ?_
  obtain ⟨name, kind⟩ := moved_kind inside
  exact silent _ _ name kind

def featureChecks (source : SourceFile) : List DeferredCheck :=
  source.statements.filterMap fun p => p.statement.featureName?.map fun used =>
    .featureEnabled ⟨used⟩ (source.position (.ofNat p.offset))

def validations (source : SourceFile) : List DeferredCheck :=
  source.entries.filterMap Statement.validation?

theorem inBody_entry (order : List DeclId) (inside : e ∈ source.entries) :
    e ∈ source.inBody decls order := List.mem_append_left _ inside

theorem rehomed_position (fits : source.Fits) (declares : decls.Declares source)
    (inside : (at_, Placed.node p) ∈ source.entries) :
    (source.rehomed decls s order).nodePosition at_ = source.position (.ofNat p.offset) := by
  have found : (source.rehomed decls s order).trees.get? at_ = some p.node :=
    inBody_found fits declares (inBody_entry order inside)
  rw [CompilationUnit.nodePosition, found]
  rfl

theorem inBody_features (fits : source.Fits) (declares : decls.Declares source)
    (order : List DeclId) :
    (source.inBody decls order).filterMap
        (Statement.featureCheck? (source.rehomed decls s order)) = source.featureChecks := by
  rw [inBody, List.filterMap_append, moved_silent, List.append_nil, featureChecks]
  · refine entries_filterMap fun at_ p _ inside => ?_
    have place : (source.rehomed decls s order).nodePosition at_ = _ :=
      rehomed_position fits declares inside
    cases statement : p.statement with
    | feature name =>
      simp only [Statement.featureCheck?, Placed.node, statement, Statement.kind, place,
        Statement.pathFeature?_featurePath, Statement.featureName?, Option.map_some]
    | _ => simp [Statement.featureCheck?, Placed.node, statement, Statement.kind,
        Statement.featureName?]
  · intro at_ node name kind
    simp only [Statement.featureCheck?, kind]

theorem inBody_validations (source : SourceFile) (decls : DeclTable) (order : List DeclId) :
    (source.inBody decls order).filterMap Statement.validation? = source.validations := by
  rw [inBody, List.filterMap_append, moved_silent, List.append_nil, validations]
  intro at_ node name kind
  simp only [Statement.validation?, kind]

end SourceFile

end UnitPipeline
