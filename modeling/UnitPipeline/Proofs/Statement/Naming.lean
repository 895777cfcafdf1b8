import UnitPipeline.Proofs.Statement.Reading
import UnitPipeline.Proofs.Statement.Table

namespace UnitPipeline
variable {σ : Type} {inner : Drain σ} {s : Session} {decls : DeclTable} {source : SourceFile}
  {decl : DeclId} {node : Node}

namespace Placed

def generated? (decls : DeclTable) (p : Placed) : Option (DeclId × Node) :=
  match p.statement with
  | .caseOf name => (decls.named? (Statement.applyName name)).map fun d =>
      (d.id, ⟨.synthetic (Statement.applyName name), p.span, []⟩)
  | _ => none

theorem generated?_cases {p : Placed} (made : p.generated? decls = some e) :
    ∃ name d, p.statement = .caseOf name ∧ decls.named? (Statement.applyName name) = some d ∧
      e = (d.id, ⟨.synthetic (Statement.applyName name), p.span, []⟩) := by
  unfold generated? at made
  split at made
  · rename_i name statement
    obtain ⟨d, found, same⟩ := Option.map_eq_some_iff.mp made
    exact ⟨name, d, statement, found, same.symm⟩
  · cases made

def call? (p : Placed) : Option Node :=
  p.statement.caseName?.map fun name => ⟨.synthetic (Statement.applyName name), p.span, []⟩

def unresolved? (decls : DeclTable) (source : SourceFile) (p : Placed) : Option Diagnostic :=
  match p.statement with
  | .use name =>
    if (decls.named? name).isNone then
      some ⟨.error, source.position (.ofNat p.offset), "not found: " ++ name⟩
    else none
  | _ => none

def registers (decls : DeclTable) (s : Session) (source : SourceFile)
    (tracker : DependencyTracker) (p : Placed) : DependencyTracker :=
  match p.statement with
  | .define name | .caseOf name =>
    match decls.named? name with
    | some decl => tracker.registerDefinition source decl.id
    | none => tracker
  | .use name =>
    match decls.named? name with
    | some target => tracker.registerDependency s source target
    | none => tracker
  | _ => tracker

end Placed

def generated (decls : DeclTable) (placed : List Placed) : List (DeclId × Node) :=
  placed.filterMap (·.generated? decls)

namespace SourceFile

def stagings (source : SourceFile) (made : List (DeclId × Node)) : List (DeclId × NodeId) :=
  (made.zipIdx (source.nodes.length + 1)).map fun e => (e.1.1, .ofIndex e.2)

theorem stagings_keys (source : SourceFile) (made : List (DeclId × Node)) :
    (source.stagings made).map (·.1) = made.map (·.1) := by
  conv_rhs => rw [← List.zipIdx_map_fst (source.nodes.length + 1) made]
  rw [stagings, List.map_map, List.map_map]
  rfl

def naming (source : SourceFile) (decls : DeclTable) (s : Session) (placed : List Placed) :
    CompilationUnit :=
  { source.parsed with
    trees := source.layout source.ids ((generated decls placed).map (·.2))
    synthetics := (source.stagings (generated decls placed)).foldl (fun t e => t.put e.1 e.2) {}
    deps := placed.foldl (Placed.registers decls s source) {}
    diagnostics := ⟨placed.filterMap (·.unresolved? decls source)⟩ }

theorem naming_plain {p : Placed} (plain : p.generated? decls = none) (placed : List Placed) :
    source.naming decls s (placed ++ [p]) = { source.naming decls s placed with
      deps := p.registers decls s source (source.naming decls s placed).deps
      diagnostics := ⟨(source.naming decls s placed).diagnostics.toList ++
        (p.unresolved? decls source).toList⟩ } := by
  have same : generated decls (placed ++ [p]) = generated decls placed := by
    simp [generated, plain]
  have told : (placed ++ [p]).filterMap (·.unresolved? decls source) =
      placed.filterMap (·.unresolved? decls source) ++ (p.unresolved? decls source).toList := by
    cases known : p.unresolved? decls source <;> simp [known]
  simp only [naming, same, told, List.foldl_append, List.foldl_cons, List.foldl_nil]

theorem naming_made {p : Placed} (made : p.generated? decls = some (decl, node))
    (silent : p.unresolved? decls source = none) (placed : List Placed) :
    source.naming decls s (placed ++ [p]) = { source.naming decls s placed with
      trees := (source.naming decls s placed).trees.alloc node
      synthetics := (source.naming decls s placed).synthetics.put decl
        (source.naming decls s placed).trees.nextId
      deps := p.registers decls s source (source.naming decls s placed).deps } := by
  have more : generated decls (placed ++ [p]) = generated decls placed ++ [(decl, node)] := by
    simp [generated, made]
  have staged : source.stagings (generated decls placed ++ [(decl, node)]) =
      source.stagings (generated decls placed) ++
        [(decl, (source.naming decls s placed).trees.nextId)] := by
    simp [stagings, naming, layout_nextId, List.zipIdx_append]
  have told : (placed ++ [p]).filterMap (·.unresolved? decls source) =
      placed.filterMap (·.unresolved? decls source) := by
    simp [silent]
  simp only [naming, more, told, List.map_append, List.map_cons, List.map_nil, ← layout_alloc,
    List.foldl_append, List.foldl_cons, List.foldl_nil, staged]

end SourceFile

namespace Statement

theorem registered_ends (name : String) (u : CompilationUnit) :
    (match decls.named? name with
      | some decl => .change (.registerDefinition decl.id) fun _ => .done ()
      | none => .done () : Action σ Unit).Ends inner s u () { u with
        deps := match decls.named? name with
          | some decl => u.deps.registerDefinition u.source decl.id
          | none => u.deps } := by
  cases decls.named? name with
  | none => exact .done ()
  | some d => exact .change (.done ())

theorem nameOne_ends {p : Placed} (placed : List Placed) (id : NodeId)
    (stands : (source.naming decls s placed).nodePosition id = source.position (.ofNat p.offset)) :
    (nameOne decls (id, p.node)).Ends inner s (source.naming decls s placed) ()
      (source.naming decls s (placed ++ [p])) := by
  obtain ⟨line, offset, statement⟩ := p
  cases statement with
  | define name =>
    rw [SourceFile.naming_plain rfl]
    simp only [Placed.unresolved?, Option.toList_none, List.append_nil]
    exact registered_ends name _
  | caseOf name =>
    refine (registered_ends name _).bind ?_
    cases found : decls.named? (applyName name) with
    | none =>
      have plain : Placed.generated? decls ⟨line, offset, caseOf name⟩ = none := by
        simp only [Placed.generated?, found, Option.map_none]
      rw [SourceFile.naming_plain plain]
      simp only [Placed.unresolved?, Option.toList_none, List.append_nil]
      exact .done ()
    | some d =>
      have made : Placed.generated? decls ⟨line, offset, caseOf name⟩ =
          some (d.id, ⟨.synthetic (applyName name), Placed.span ⟨line, offset, caseOf name⟩, []⟩) := by
        simp only [Placed.generated?, found, Option.map_some]
      rw [SourceFile.naming_made made rfl]
      exact .change (.change (.done ()))
  | use name =>
    rw [SourceFile.naming_plain rfl]
    simp only [nameOne, Placed.node, kind, Placed.registers, Placed.unresolved?]
    cases decls.named? name with
    | none =>
      refine .look (.change ?_)
      rw [stands]
      exact .done ()
    | some d =>
      simp only [Option.isNone_some, Bool.false_eq_true, if_false, Option.toList_none, List.append_nil]
      exact .change (.done ())
  | feature _ | assert _ | xml =>
    rw [SourceFile.naming_plain rfl]
    simp only [Placed.unresolved?, Option.toList_none, List.append_nil]
    exact .done ()

end Statement

namespace SourceFile

theorem parsed_topLevel (room : source.nodes.length < UInt32.size) :
    Statement.topLevel source.parsed = source.entries :=
  layout_topLevel room rfl rfl fun _ inside => layout_entry room inside

theorem naming_position (room : source.nodes.length < UInt32.size) (placed : List Placed)
    (inside : (at_, Placed.node p) ∈ source.entries) :
    (source.naming decls s placed).nodePosition at_ = source.position (.ofNat p.offset) := by
  have found : (source.naming decls s placed).trees.get? at_ = some p.node := layout_entry room inside
  rw [CompilationUnit.nodePosition, found]
  rfl

end SourceFile

theorem Statement.name_ends (room : source.nodes.length < UInt32.size) :
    (Statement.name decls).Ends inner s source.parsed (.ok ())
      (source.naming decls s source.statements) := by
  let state (earlier : List (Placed × Nat)) := source.naming decls s (earlier.map (·.1))
  have whole : state source.statements.zipIdx = source.naming decls s source.statements :=
    congrArg (source.naming decls s) (List.zipIdx_map_fst 0 source.statements)
  suffices loop : (Action.forAll (nameOne decls) (topLevel source.parsed)).Ends inner s
      source.parsed () (source.naming decls s source.statements) from .look (loop.bind (.done _))
  rw [SourceFile.parsed_topLevel room, SourceFile.entries_eq, Action.forAll_map, ← whole]
  refine Action.Ends.forAll state ?_
  intro earlier item later split
  have inside : (.ofIndex item.2, item.1.node) ∈ source.entries := by
    rw [SourceFile.entries_eq, split]
    exact List.mem_map.mpr ⟨item, by simp, rfl⟩
  have next : (nameOne decls (.ofIndex item.2, item.1.node)).Ends inner s (state earlier) () _ :=
    nameOne_ends (earlier.map (·.1)) _ (SourceFile.naming_position room _ inside)
  simpa [state] using next

theorem generated_ids (decls : DeclTable) (placed : List Placed) :
    ((generated decls placed).map fun e => some e.1).Sublist
      ((placed.flatMap (·.statement.introduces)).map fun entry => decls.idOf? entry.1) := by
  induction placed with
  | nil => exact .slnil
  | cons p rest ih =>
    rw [List.flatMap_cons, List.map_append]
    cases made : p.generated? decls with
    | none =>
      have same : generated decls (p :: rest) = generated decls rest :=
        List.filterMap_cons_none (f := fun p : Placed => p.generated? decls) made
      rw [same]
      exact ih.trans (List.sublist_append_right ..)
    | some e =>
      have more : generated decls (p :: rest) = e :: generated decls rest :=
        List.filterMap_cons_some (f := fun p : Placed => p.generated? decls) made
      obtain ⟨name, d, statement, found, rfl⟩ := p.generated?_cases made
      rw [more, statement]
      simp only [Statement.introduces, List.map_cons, List.map_nil, DeclTable.idOf?, found,
        Option.map_some]
      exact (ih.cons_cons _).cons _

theorem DeclTable.Declares.generated_distinct (declares : decls.Declares source) :
    ((generated decls source.statements).map (·.1)).Nodup := by
  have ids := (generated_ids decls source.statements).nodup declares.distinct
  refine List.Nodup.of_map some ?_
  rwa [List.map_map]

theorem DeclTable.Declares.generated_calls (declares : decls.Declares source) :
    (generated decls source.statements).map (·.2) = source.statements.filterMap Placed.call? := by
  rw [generated, List.map_filterMap]
  refine List.filterMap_congr ?_
  intro p inside
  unfold Placed.generated? Placed.call?
  cases statement : p.statement with
  | caseOf name =>
    have known : (Statement.applyName name, .method) ∈ source.introduces := by
      refine List.mem_flatMap.mpr ⟨p, inside, ?_⟩
      simp [statement, Statement.introduces]
    obtain ⟨d, found, _⟩ := declares.found _ known
    simp [found, Statement.caseName?]
  | _ => rfl

theorem DeclTable.Declares.generated_length (declares : decls.Declares source) :
    (generated decls source.statements).length = source.cases.length := by
  have calls := congrArg List.length declares.generated_calls
  rw [List.length_map] at calls
  simp [calls, SourceFile.cases, List.length_filterMap_eq_countP, Placed.call?]

theorem DeclTable.Declares.staged (declares : decls.Declares source) :
    (source.naming decls s source.statements).synthetics =
      ⟨source.stagings (generated decls source.statements)⟩ := by
  refine (KeyedTable.put_all {} ?_).trans rfl
  rw [SourceFile.stagings_keys]
  exact declares.generated_distinct

end UnitPipeline
