import UnitPipeline.Proofs.Statement.Naming

namespace UnitPipeline
variable {σ : Type} {inner : Drain σ} {s t : Session} {decls : DeclTable} {source : SourceFile}

def KeyedTable.itself {κ : Type} (members : OrderedSet κ) : KeyedTable κ κ :=
  ⟨members.toList.map fun x => (x, x)⟩

theorem KeyedTable.itself_entries {κ : Type} (members : OrderedSet κ) :
    (itself members).entries = members.toList.map fun x => (x, x) := rfl

theorem KeyedTable.itself_put {κ : Type} [DecidableEq κ] (members : OrderedSet κ) (x : κ) :
    (itself members).put x x = itself (members.insert x) := by
  have known (entries : List κ) (inside : x ∈ entries) :
      putIn x x (entries.map fun x => (x, x)) = entries.map fun x => (x, x) := by
    induction entries with
    | nil => cases inside
    | cons first rest ih =>
      rw [List.map_cons, putIn]
      by_cases here : first = x
      · rw [if_pos here, here]
      · rw [if_neg here, ih ((List.mem_cons.mp inside).resolve_left (Ne.symm here))]
  by_cases inside : x ∈ members.toList
  · rw [OrderedSet.insert_known inside]
    exact congrArg mk (known _ inside)
  · have new : x ∉ (members.toList.map fun x => (x, x)).map (·.1) := by simpa using inside
    refine congrArg mk ((putIn_new x new).trans ?_)
    simp [OrderedSet.insert_new inside]

namespace SourceFile

def staged? (source : SourceFile) (made : List (DeclId × Node)) (decl : DeclId) :
    Option (NodeId × Node) :=
  ((made.zipIdx (source.nodes.length + 1)).find? fun e => e.1.1 = decl).map fun e =>
    (.ofIndex e.2, e.1.2)

def moved (source : SourceFile) (made : List (DeclId × Node)) (order : List DeclId) :
    List (NodeId × Node) := order.filterMap (source.staged? made)

variable {made : List (DeclId × Node)} {order : List DeclId}

theorem stagings_get? (source : SourceFile) (made : List (DeclId × Node)) (decl : DeclId) :
    (KeyedTable.mk (source.stagings made)).get? decl = (source.staged? made decl).map (·.1) := by
  simp only [KeyedTable.get?, stagings, staged?, List.find?_map, Option.map_map]
  rfl

theorem additions_eq (source : SourceFile) (made : List (DeclId × Node)) :
    source.additions (made.map (·.2)) =
      (made.zipIdx (source.nodes.length + 1)).map fun e => (.ofIndex e.2, e.1.2) := by
  simp [additions, allotted, List.zipIdx_map]

theorem staged?_addition (found : source.staged? made decl = some e) :
    e ∈ source.additions (made.map (·.2)) := by
  obtain ⟨entry, first, rfl⟩ := Option.map_eq_some_iff.mp found
  rw [additions_eq]
  exact List.mem_map_of_mem (List.mem_of_find?_eq_some first)

theorem staged?_known (known : decl ∈ made.map (·.1)) : ∃ e, source.staged? made decl = some e := by
  rw [← List.zipIdx_map_fst (source.nodes.length + 1) made, List.map_map] at known
  obtain ⟨entry, inside, rfl⟩ := List.mem_map.mp known
  refine Option.isSome_iff_exists.mp ?_
  simp only [staged?, Option.isSome_map, List.find?_isSome]
  exact ⟨entry, inside, decide_eq_true rfl⟩

theorem moved_addition (inside : e ∈ source.moved made order) :
    e ∈ source.additions (made.map (·.2)) := by
  obtain ⟨decl, _, found⟩ := List.mem_filterMap.mp inside
  exact staged?_addition found

theorem moved_all (distinct : (made.map (·.1)).Nodup) :
    source.moved made (made.map (·.1)) = source.additions (made.map (·.2)) := by
  let entries := made.zipIdx (source.nodes.length + 1)
  have keys : entries.map (·.1.1) = made.map (·.1) := by
    conv_rhs => rw [← List.zipIdx_map_fst (source.nodes.length + 1) made]
    rw [List.map_map]
    rfl
  have each : ∀ e ∈ entries, source.staged? made e.1.1 = some (.ofIndex e.2, e.1.2) := by
    intro e inside
    have alone : (entries.map (·.1.1)).Nodup := keys ▸ distinct
    exact congrArg (Option.map _) (find_by_key alone inside)
  rw [additions_eq, moved, ← keys, List.filterMap_map]
  exact (List.filterMap_congr each).trans (congrFun List.filterMap_eq_map _)

theorem moved_perm (distinct : (made.map (·.1)).Nodup) (all : order.Perm (made.map (·.1))) :
    (source.moved made order).Perm (source.additions (made.map (·.2))) := by
  rw [← moved_all distinct]
  exact all.filterMap _

def rehoming (source : SourceFile) (named : CompilationUnit) (made : List (DeclId × Node))
    (order : List DeclId) : CompilationUnit :=
  { named with
    trees := source.layout (source.ids ++ (source.moved made order).map (·.1)) (made.map (·.2))
    synthetics := (KeyedTable.mk (source.stagings made)).without order
    cache := .itself (({} : OrderedSet NodeId).insertAll ((source.moved made order).map (·.1)))
    checks := ⟨[(.postTyper, .syntheticsDrained)]⟩ }

end SourceFile

theorem Statement.rehome_ends {named : CompilationUnit} {made : List (DeclId × Node)}
    {earlier : List DeclId} (room : source.nodes.length < UInt32.size)
    (known : source.staged? made decl = some e) (new : decl ∉ earlier) :
    (Statement.rehome source.root decl).Ends inner s (source.rehoming named made earlier) ()
      (source.rehoming named made (earlier ++ [decl])) := by
  have staged : UnitOp.answer s (source.rehoming named made earlier) (.unstage decl) = some e.1 := by
    refine (KeyedTable.get?_without _ new).trans ?_
    rw [SourceFile.stagings_get?, known]
    rfl
  have more : source.moved made (earlier ++ [decl]) = source.moved made earlier ++ [e] := by
    simp [SourceFile.moved, known]
  have after : source.rehoming named made (earlier ++ [decl]) =
      { source.rehoming named made earlier with
        trees := (source.rehoming named made earlier).trees.edit source.root
          fun node => { node with children := node.children ++ [e.1] }
        synthetics := (source.rehoming named made earlier).synthetics.erase decl
        cache := (source.rehoming named made earlier).cache.put e.1 e.1 } := by
    simp only [SourceFile.rehoming, more, List.map_append, List.map_singleton,
      OrderedSet.insertAll_append, KeyedTable.erase_without, KeyedTable.itself_put,
      SourceFile.layout_edit room, ← List.append_assoc]
    rfl
  refine .change ?_
  rw [staged, after]
  exact .change (.change (.done ()))

theorem Statement.rehome_all {named : CompilationUnit} {made : List (DeclId × Node)}
    {order : List DeclId} (room : source.nodes.length < UInt32.size) (distinct : order.Nodup)
    (known : ∀ decl ∈ order, ∃ e, source.staged? made decl = some e) :
    (Action.forAll (Statement.rehome source.root) order).Ends inner s
      (source.rehoming named made []) () (source.rehoming named made order) := by
  refine Action.Ends.forAll (source.rehoming named made) ?_
  intro earlier decl later split
  obtain ⟨e, found⟩ := known decl (by simp [split])
  have new : decl ∉ earlier := by
    rw [split] at distinct
    intro before
    exact (List.nodup_append.mp distinct).2.2 decl before decl List.mem_cons_self rfl
  exact rehome_ends room found new

def CompilationUnit.queuing (u : CompilationUnit) (more : List (CheckPoint × DeferredCheck)) :
    CompilationUnit := { u with checks := ⟨u.checks.entries ++ more⟩ }

theorem CompilationUnit.queuing_nil (u : CompilationUnit) : u.queuing [] = u :=
  congrArg (fun entries => u.withChecks ⟨entries⟩) (List.append_nil _)

namespace Statement

def featureCheck? (u : CompilationUnit) (entry : NodeId × Node) : Option DeferredCheck :=
  match entry.2.kind with
  | .importPath path => (pathFeature? path).map fun used =>
      .featureEnabled ⟨used⟩ (u.nodePosition entry.1)
  | _ => none

theorem queueFeature_ends (u : CompilationUnit) (e : NodeId × Node) :
    (queueFeature e).Ends inner s u () (u.queuing (tagged .postUnit (featureCheck? u e).toList)) := by
  cases kind : e.2.kind with
  | importPath path =>
    simp only [queueFeature, featureCheck?, kind]
    cases pathFeature? path with
    | none =>
      rw [Option.map_none, Option.toList_none, tagged, List.map_nil, CompilationUnit.queuing_nil]
      exact .done ()
    | some used => exact .look (.change (.done ()))
  | _ =>
    simp only [queueFeature, featureCheck?, kind, Option.toList_none, tagged, List.map_nil,
      CompilationUnit.queuing_nil]
    exact .done ()

def checking (u : CompilationUnit) (memo : OrderedSet NodeId) (earlier : List (NodeId × Node)) :
    CompilationUnit :=
  { u.queuing (tagged .postUnit (earlier.filterMap (featureCheck? u))) with
    cache := .itself (memo.insertAll (earlier.map (·.1))) }

theorem checkOne_ends {u : CompilationUnit} (whole : u.target = none) (memo : OrderedSet NodeId)
    (earlier : List (NodeId × Node)) (e : NodeId × Node) :
    (checkOne e).Ends inner s (checking u memo earlier) () (checking u memo (earlier ++ [e])) := by
  have after : checking u memo (earlier ++ [e]) =
      { (checking u memo earlier).queuing (tagged .postUnit (featureCheck? u e).toList) with
        cache := (checking u memo earlier).cache.put e.1 e.1 } := by
    have queued : (earlier ++ [e]).filterMap (featureCheck? u) =
        earlier.filterMap (featureCheck? u) ++ (featureCheck? u e).toList := by
      cases due : featureCheck? u e <;> simp [due]
    simp only [checking, CompilationUnit.queuing, queued, tagged, List.map_append,
      List.map_singleton, OrderedSet.insertAll_append, KeyedTable.itself_put, List.append_assoc]
    rfl
  have targets : (checking u memo earlier).targets e.2.span = true := by
    simp only [CompilationUnit.targets, checking, CompilationUnit.queuing, whole]
  refine .look ?_
  rw [if_pos targets, after]
  exact (queueFeature_ends (checking u memo earlier) e).bind (.change (.done ()))

end Statement

namespace SourceFile

def named (source : SourceFile) (decls : DeclTable) (s : Session) : CompilationUnit :=
  source.naming decls s source.statements

def made (source : SourceFile) (decls : DeclTable) : List (DeclId × Node) :=
  generated decls source.statements

def inBody (source : SourceFile) (decls : DeclTable) (order : List DeclId) :
    List (NodeId × Node) := source.entries ++ source.moved (source.made decls) order

def rehomed (source : SourceFile) (decls : DeclTable) (s : Session) (order : List DeclId) :
    CompilationUnit := source.rehoming (source.named decls s) (source.made decls) order

def memo (source : SourceFile) (decls : DeclTable) (order : List DeclId) : OrderedSet NodeId :=
  ({} : OrderedSet NodeId).insertAll ((source.moved (source.made decls) order).map (·.1))

def typed (source : SourceFile) (decls : DeclTable) (s : Session) (order : List DeclId) :
    CompilationUnit :=
  { Statement.checking (source.rehomed decls s order) (source.memo decls order)
      (source.inBody decls order) with
    cache := .itself (((source.memo decls order).insertAll
      ((source.inBody decls order).map (·.1))).insert source.root) }

-- Room for the nodes of a source and for those that its cases are due. Ids of nodes
-- are words.
def Fits (source : SourceFile) : Prop :=
  source.statements.length + source.cases.length < UInt32.size

instance (source : SourceFile) : Decidable source.Fits := inferInstanceAs (Decidable (_ < _))

theorem fits_small (small : source.length < 2 * UInt32.size) : source.Fits := by
  have bound := source.statements_size
  have cases : source.cases.length ≤ source.statements.length := List.length_filterMap_le ..
  unfold Fits
  omega

theorem Fits.nodes (fits : source.Fits) : source.nodes.length < UInt32.size := by
  have count : source.nodes.length = source.statements.length := List.length_map _
  unfold Fits at fits
  omega

theorem Fits.made (fits : source.Fits) (declares : decls.Declares source) :
    source.nodes.length + ((source.made decls).map (·.2)).length < UInt32.size := by
  rw [List.length_map, SourceFile.made, declares.generated_length, SourceFile.nodes, List.length_map]
  exact fits

theorem inBody_found (fits : source.Fits) (declares : decls.Declares source)
    {children : List NodeId} (inside : e ∈ source.inBody decls order) :
    (source.layout children ((source.made decls).map (·.2))).get? e.1 = some e.2 := by
  rcases List.mem_append.mp inside with statement | moved
  · exact layout_entry fits.nodes statement
  · exact layout_addition (fits.made declares) (moved_addition moved)

theorem rehomed_topLevel (fits : source.Fits) (declares : decls.Declares source)
    (order : List DeclId) :
    Statement.topLevel (source.rehomed decls s order) = source.inBody decls order := by
  have trees : (source.rehomed decls s order).trees =
      source.layout ((source.inBody decls order).map (·.1)) ((source.made decls).map (·.2)) := by
    simp [rehomed, rehoming, inBody, ids]
  exact layout_topLevel fits.nodes rfl trees fun _ inside => inBody_found fits declares inside

end SourceFile

theorem SourceFile.rehomed_nil (declares : decls.Declares source) :
    UnitOp.apply t (source.named decls s) (.queueCheck .postTyper .syntheticsDrained) =
      source.rehomed decls s [] := by
  have staged : (source.named decls s).synthetics = _ := declares.staged
  have whole : (KeyedTable.mk (source.stagings (source.made decls))).without [] =
      (source.named decls s).synthetics := (KeyedTable.without_nil _).trans staged.symm
  simp only [rehomed, rehoming, whole, moved, List.filterMap_nil, List.map_nil, List.append_nil]
  rfl

-- The typer moves what is staged, unless it leaks, and then checks all statements.
theorem Statement.type_ends (fits : source.Fits) (declares : decls.Declares source)
    {order : List DeclId → List DeclId} (orders : ∀ keys, (order keys).Perm keys) (leak : Bool) :
    (Statement.type leak order).Ends inner t (source.named decls s) (.ok ())
      (source.typed decls s (if leak then [] else order ((source.made decls).map (·.1)))) := by
  let row := if leak then [] else order ((source.made decls).map (·.1))
  have keys : (source.named decls s).synthetics.keys = (source.made decls).map (·.1) := by
    have staged : (source.named decls s).synthetics = _ := declares.staged
    rw [staged]
    exact source.stagings_keys _
  have part : row.Nodup ∧ ∀ decl ∈ row, decl ∈ (source.made decls).map (·.1) := by
    cases leak with
    | true => exact ⟨List.nodup_nil, fun _ inside => (List.not_mem_nil inside).elim⟩
    | false =>
      have all := orders ((source.made decls).map (·.1))
      exact ⟨all.nodup_iff.mpr declares.generated_distinct, fun _ inside => all.mem_iff.mp inside⟩
  have moves : (Action.forAll (rehome source.root) row).Ends inner t (source.rehomed decls s []) ()
      (source.rehomed decls s row) :=
    rehome_all fits.nodes part.1 fun decl inside => SourceFile.staged?_known (part.2 decl inside)
  have checks : (Action.forAll checkOne (source.inBody decls row)).Ends inner t
      (source.rehomed decls s row) ()
      (checking (source.rehomed decls s row) (source.memo decls row) (source.inBody decls row)) := by
    have begins : checking (source.rehomed decls s row) (source.memo decls row) [] =
        source.rehomed decls s row := rfl
    rw [← begins]
    exact Action.Ends.forAll (checking (source.rehomed decls s row) (source.memo decls row))
      fun earlier e _ _ => checkOne_ends rfl _ earlier e
  refine .look (.change ?_)
  rw [keys, SourceFile.rehomed_nil declares]
  refine moves.bind (.look ?_)
  rw [SourceFile.rehomed_topLevel fits declares]
  refine checks.bind (.change ?_)
  have last := KeyedTable.itself_put
    ((source.memo decls row).insertAll ((source.inBody decls row).map (·.1))) source.root
  rw [SourceFile.typed, ← last]
  exact .done _

end UnitPipeline
